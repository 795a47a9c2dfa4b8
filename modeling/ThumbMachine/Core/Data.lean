/-
Module: ThumbMachine.Core.Data
Purpose: The instructions that only compute: results, and the flags each format keeps.
Main exports: AluOp.apply, Core.shift, Core.addSubtract, Core.immediate, Core.alu
-/
import ThumbMachine.Core.Basic
import ThumbMachine.Instruction.Basic

namespace ThumbMachine

namespace AluOp

/-- The result and the flags of a low-register operation on the destination and the source. Logical
operations change N and Z only, shifts also C, arithmetic all of N, Z, C and V. Shifts go by the low
byte of the source. -/
def apply (op : AluOp) (left right : Word) (flags : Flags) : Word × Flags :=
  let logical (value : Word) : Word × Flags := (value, flags.setSignZero value)
  let arithmetic (outcome : AluResult) : Word × Flags :=
    (outcome.value, flags.setArithmetic outcome)
  let shifted (kind : ShiftKind) : Word × Flags :=
    let outcome := shiftByRegister kind (right.setWidth 8) left flags.c
    (outcome.value, flags.setShift outcome)
  match op with
  | and | tst => logical (left &&& right)
  | eor => logical (left ^^^ right)
  | orr => logical (left ||| right)
  | bic => logical (left &&& ~~~right)
  | mvn => logical (~~~right)
  | lsl => shifted .lsl
  | lsr => shifted .lsr
  | asr => shifted .asr
  | ror => shifted .ror
  | adc => arithmetic (addWithCarry left right flags.c)
  | sbc => arithmetic (subWithCarry left right flags.c)
  | neg => arithmetic (sub 0 right)
  | cmp => arithmetic (sub left right)
  | cmn => arithmetic (add left right)
  | mul => arithmetic (multiply left right flags.c)

end AluOp

namespace Core

/-- Writes an arithmetic result and all four of its flags. -/
def writeArithmetic (core : Core) (destination : LowRegister) (outcome : AluResult) : Core :=
  (core.write destination.wide outcome.value).setFlags (core.flags.setArithmetic outcome)

/-- Shift by an amount. -/
def shift (core : Core) (kind : ShiftKind) (amount : BitVec 5) (source destination : LowRegister) :
    Core :=
  let outcome := shiftImmediate kind amount (core.read source.wide) core.flags.c
  (core.write destination.wide outcome.value).setFlags (core.flags.setShift outcome)

/-- The third operand of a three-operand addition or subtraction. -/
def smallOperand (core : Core) (kind : OperandKind) (operand : BitVec 3) : Word :=
  match kind with
  | .immediate => operand.setWidth 32
  | .register => core.read (LowRegister.wide operand)

/-- Three-operand addition or subtraction. -/
def addSubtract (core : Core) (kind : OperandKind) (subtract : Bool) (operand : BitVec 3)
    (source destination : LowRegister) : Core :=
  let left := core.read source.wide
  let right := core.smallOperand kind operand
  core.writeArithmetic destination
    (if subtract then ThumbMachine.sub left right else ThumbMachine.add left right)

/-- Move, compare, add or subtract with an 8-bit number. -/
def immediate (core : Core) (op : ImmediateOp) (destination : LowRegister) (value : Byte) : Core :=
  let current := core.read destination.wide
  let number : Word := value.setWidth 32
  match op with
  | .mov => (core.write destination.wide number).setFlags (core.flags.setSignZero number)
  | .cmp => core.setFlags (core.flags.setArithmetic (ThumbMachine.sub current number))
  | .add => core.writeArithmetic destination (ThumbMachine.add current number)
  | .sub => core.writeArithmetic destination (ThumbMachine.sub current number)

/-- An operation between low registers. -/
def alu (core : Core) (op : AluOp) (source destination : LowRegister) : Core :=
  let (result, flags) :=
    op.apply (core.read destination.wide) (core.read source.wide) core.flags
  let flagged := core.setFlags flags
  if op.writesResult then flagged.write destination.wide result else flagged

/-- Comparison of any two registers. -/
def compareHigh (core : Core) (source destination : Register) : Core :=
  core.setFlags
    (core.flags.setArithmetic (ThumbMachine.sub (core.read destination) (core.read source)))

/-- An address a number of words above the aligned program counter or the stack pointer. -/
def computedAddress (core : Core) (base : AddressBase) (words : Byte) : Word :=
  let start := match base with
    | .pc => wordAligned (core.read Register.pc)
    | .sp => core.read Register.sp
  start + (words.setWidth 32 <<< 2)

/-- The stack pointer moved by a number of words. -/
def adjustStack (core : Core) (negative : Bool) (words : BitVec 7) : Core :=
  let distance : Word := words.setWidth 32 <<< 2
  let pointer := core.read Register.sp
  core.write Register.sp (if negative then pointer - distance else pointer + distance)

end Core

/-- The bytes of a word in reverse order. -/
def reverseBytes (value : Word) : Word :=
  value.extractLsb' 0 8 ++ value.extractLsb' 8 8 ++ value.extractLsb' 16 8
    ++ value.extractLsb' 24 8

end ThumbMachine
