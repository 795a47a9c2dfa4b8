/-
Module: ThumbMachine.Instruction.Basic
Purpose: Decoded instructions. Fields keep the widths they have in the instruction word; the
  distances that branches and addresses count with are functions of them.
Main exports: TransferFormat, Instruction, branchDistance, longBranchOffset, listedRegisters
-/
import ThumbMachine.Instruction.Choice
import ThumbMachine.RegisterFile

namespace ThumbMachine

/-- The formats that move one datum between a low register and memory. -/
inductive TransferFormat where
  /-- LDR of a word at a number of words from the aligned program counter. -/
  | literal (destination : LowRegister) (words : Byte)
  /-- LDR, LDRB, STR or STRB at base plus offset register. -/
  | indexed (direction : Direction) (size : TransferSize) (offset base register : LowRegister)
  /-- STRH, LDRH, LDSB or LDSH at base plus offset register. -/
  | extended (kind : HalfwordTransfer) (offset base register : LowRegister)
  /-- LDR, LDRB, STR or STRB at base plus a number of transferred units. -/
  | displaced (direction : Direction) (size : TransferSize) (units : BitVec 5)
      (base register : LowRegister)
  /-- LDRH or STRH at base plus a number of halfwords. -/
  | halfword (direction : Direction) (halfwords : BitVec 5) (base register : LowRegister)
  /-- LDR or STR at a number of words above the stack pointer. -/
  | stack (direction : Direction) (register : LowRegister) (words : Byte)
deriving DecidableEq, Repr, Inhabited

/-- One instruction of the 16-bit set. -/
inductive Instruction where
  /-- LSL, LSR or ASR by a 5-bit amount. -/
  | shift (kind : ShiftKind) (amount : BitVec 5) (source destination : LowRegister)
  /-- Three-operand ADD or SUB, the third operand a register or a 3-bit number. -/
  | addSubtract (kind : OperandKind) (subtract : Bool) (operand : BitVec 3)
      (source destination : LowRegister)
  /-- MOV, CMP, ADD or SUB with an 8-bit number. -/
  | immediate (op : ImmediateOp) (destination : LowRegister) (value : Byte)
  /-- The sixteen operations between low registers. -/
  | alu (op : AluOp) (source destination : LowRegister)
  /-- ADD, CMP or MOV between any two registers. -/
  | high (op : HighOp) (source destination : Register)
  /-- BX, or BLX when it links. -/
  | branchExchange (source : Register) (link : Bool)
  /-- A load or store of one datum. -/
  | transfer (format : TransferFormat)
  /-- The address a number of words above the aligned program counter or the stack pointer. -/
  | loadAddress (base : AddressBase) (destination : LowRegister) (words : Byte)
  /-- Moves the stack pointer by a number of words. -/
  | adjustStack (negative : Bool) (words : BitVec 7)
  /-- CBZ, or CBNZ when `nonZero`, over a number of halfwords. -/
  | compareBranch (nonZero : Bool) (register : LowRegister) (halfwords : BitVec 6)
  /-- SXTH, SXTB, UXTH or UXTB. -/
  | extend (kind : ExtendKind) (source destination : LowRegister)
  /-- REV: the bytes of a word in reverse order. -/
  | reverseBytes (source destination : LowRegister)
  /-- PUSH of low registers, and of the link register when `extra`; or POP of low registers, and of
  the program counter when `extra`. -/
  | stack (direction : Direction) (extra : Bool) (list : Byte)
  /-- LDMIA or STMIA. -/
  | block (direction : Direction) (base : LowRegister) (list : Byte)
  /-- A branch over a signed number of halfwords when a condition holds. -/
  | branchIf (condition : Condition) (halfwords : Byte)
  /-- SWI: a call of the host. -/
  | softwareInterrupt (code : Byte)
  /-- A branch over a signed number of halfwords. -/
  | branch (halfwords : BitVec 11)
  /-- The first half of BL, with bits 22 to 12 of the distance. -/
  | longBranchHigh (offset : BitVec 11)
  /-- The second half of BL, with bits 11 to 1 of the distance. -/
  | longBranchLow (offset : BitVec 11)
deriving DecidableEq, Repr, Inhabited

/-- The distance in bytes that a signed number of halfwords denotes. -/
def branchDistance {width : Nat} (halfwords : BitVec width) : Word :=
  signExtendLow (halfwords.setWidth 32 <<< 1) (width + 1)

/-- The distance in bytes of a BL pair: the upper part parked in the link register joined with the
lower part, read as a 23-bit two's-complement number. -/
def longBranchOffset (parked : Word) (low : BitVec 11) : Word :=
  signExtendLow (parked ||| (low.setWidth 32 <<< 1)) 23

/-- The low registers that a register list names, in ascending order. -/
def listedRegisters (list : Byte) : List LowRegister :=
  [0, 1, 2, 3, 4, 5, 6, 7].filter fun register => list.getLsbD register.toNat

end ThumbMachine
