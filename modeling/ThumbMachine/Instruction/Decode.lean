/-
Module: ThumbMachine.Instruction.Decode
Purpose: From a 16-bit word to its instruction. The word is split by its top four bits, then by
  narrower fields; every combination of bits is accounted for.

```text
000x  shift by an amount; 00011: add or subtract
001x  move, compare, add, subtract with an 8-bit number
0100  low-register operations (00), all registers and BX (01), PC-relative load (1x)
0101  transfer at base plus register
011x  transfer at base plus offset
1000  halfword transfer at base plus offset
1001  SP-relative transfer
1010  address from PC or SP
1011  miscellaneous: stack pointer, CBZ, extensions, PUSH and POP, byte reversal
1100  block transfer
1101  conditional branch; 1111 below it: SWI
1110  branch
1111  the two halves of BL
```

Main exports: DecodeError, DecodeError.toFault, decode
-/
import ThumbMachine.Fault
import ThumbMachine.Instruction.Basic

namespace ThumbMachine

/-- Why a word has no instruction here. -/
inductive DecodeError where
  /-- The encoding is reserved or unassigned. -/
  | unknown
  /-- The encoding is assigned but not implemented: REV16 and REVSH. -/
  | unsupported
deriving DecidableEq, Repr, Inhabited

namespace DecodeError

/-- The fault that a word raises at an address. -/
def toFault (error : DecodeError) (opcode : Halfword) (address : Word) : Fault :=
  match error with
  | unknown => .unknownInstruction opcode address
  | unsupported => .unsupportedInstruction opcode address

end DecodeError

namespace Decode

/-- One bit. -/
abbrev bit (word : Halfword) (position : Nat) : Bool := word.getLsbD position

/-- The register field at bits 2 to 0. -/
def lowField (word : Halfword) : LowRegister := word.extractLsb' 0 3

/-- The register field at bits 5 to 3. -/
def middleField (word : Halfword) : LowRegister := word.extractLsb' 3 3

/-- The register or operand field at bits 8 to 6. -/
def thirdField (word : Halfword) : LowRegister := word.extractLsb' 6 3

/-- The register field at bits 10 to 8. -/
def upperField (word : Halfword) : LowRegister := word.extractLsb' 8 3

/-- The amount or offset field at bits 10 to 6. -/
def offsetField (word : Halfword) : BitVec 5 := word.extractLsb' 6 5

/-- The number or list field at bits 7 to 0. -/
def byteField (word : Halfword) : Byte := word.extractLsb' 0 8

/-- The distance field at bits 10 to 0. -/
def distanceField (word : Halfword) : BitVec 11 := word.extractLsb' 0 11

/-- Words that begin 000: shifts by an amount, three-operand addition and subtraction. -/
def shiftOrAdd (word : Halfword) : Instruction :=
  let shift (kind : ShiftKind) : Instruction :=
    .shift kind (offsetField word) (middleField word) (lowField word)
  match bit word 12, bit word 11 with
  | false, false => shift .lsl
  | false, true => shift .lsr
  | true, false => shift .asr
  | true, true =>
      .addSubtract (OperandKind.ofBit (bit word 10)) (bit word 9) (thirdField word)
        (middleField word) (lowField word)

/-- Words that begin 010001: operations on all registers, and the exchanging branches. -/
def highOrExchange (word : Halfword) : Instruction :=
  let source : Register := word.extractLsb' 3 4
  let destination : Register := BitVec.ofBool (bit word 7) ++ lowField word
  match bit word 9, bit word 8 with
  | false, false => .high .add source destination
  | false, true => .high .cmp source destination
  | true, false => .high .mov source destination
  | true, true => .branchExchange source (bit word 7)

/-- Words that begin 0100. -/
def dataProcessing (word : Halfword) : Instruction :=
  match bit word 11, bit word 10 with
  | false, false => .alu (AluOp.ofField (word.extractLsb' 6 4)) (middleField word) (lowField word)
  | false, true => highOrExchange word
  | true, _ => .transfer (.literal (upperField word) (byteField word))

/-- Words that begin 0101: transfers at base plus register. -/
def indexedTransfer (word : Halfword) : TransferFormat :=
  if bit word 9 then
    .extended (HalfwordTransfer.ofBits (bit word 11) (bit word 10)) (thirdField word)
      (middleField word) (lowField word)
  else
    .indexed (Direction.ofBit (bit word 11)) (TransferSize.ofBit (bit word 10)) (thirdField word)
      (middleField word) (lowField word)

/-- Words that begin 1011, by their bits 11 to 8. -/
def miscellaneous (word : Halfword) : Except DecodeError Instruction :=
  let compareBranch : Instruction :=
    .compareBranch (bit word 11) (lowField word)
      (BitVec.ofBool (bit word 9) ++ word.extractLsb' 3 5)
  let stack : Instruction := .stack (Direction.ofBit (bit word 11)) (bit word 8) (byteField word)
  match bit word 11, bit word 10, bit word 9, bit word 8 with
  | false, false, false, false => .ok (.adjustStack (bit word 7) (word.extractLsb' 0 7))
  | _, false, _, true => .ok compareBranch
  | false, false, true, false =>
      .ok (.extend (ExtendKind.ofBits (bit word 7) (bit word 6)) (middleField word) (lowField word))
  | _, true, false, _ => .ok stack
  | true, false, true, false =>
      match bit word 7, bit word 6 with
      | false, false => .ok (.reverseBytes (middleField word) (lowField word))
      | _, true => .error .unsupported
      | true, false => .error .unknown
  | true, false, false, false => .error .unknown
  | _, true, true, _ => .error .unknown

/-- Words that begin 1101: code 14 of the condition field is undefined, code 15 is SWI. -/
def conditional (word : Halfword) : Except DecodeError Instruction :=
  let code : BitVec 4 := word.extractLsb' 8 4
  if code = 15#4 then
    .ok (.softwareInterrupt (byteField word))
  else
    match Condition.ofField? code.toNat with
    | some condition => .ok (.branchIf condition (byteField word))
    | none => .error .unknown

end Decode

open Decode in
/-- The instruction of a word. -/
def decode (word : Halfword) : Except DecodeError Instruction :=
  match bit word 15, bit word 14, bit word 13, bit word 12 with
  | false, false, false, _ => .ok (shiftOrAdd word)
  | false, false, true, _ =>
      .ok (.immediate (ImmediateOp.ofBits (bit word 12) (bit word 11)) (upperField word)
        (byteField word))
  | false, true, false, false => .ok (dataProcessing word)
  | false, true, false, true => .ok (.transfer (indexedTransfer word))
  | false, true, true, _ =>
      .ok (.transfer (.displaced (Direction.ofBit (bit word 11)) (TransferSize.ofBit (bit word 12))
        (offsetField word) (middleField word) (lowField word)))
  | true, false, false, false =>
      .ok (.transfer (.halfword (Direction.ofBit (bit word 11)) (offsetField word)
        (middleField word) (lowField word)))
  | true, false, false, true =>
      .ok (.transfer (.stack (Direction.ofBit (bit word 11)) (upperField word) (byteField word)))
  | true, false, true, false =>
      .ok (.loadAddress (AddressBase.ofBit (bit word 11)) (upperField word) (byteField word))
  | true, false, true, true => miscellaneous word
  | true, true, false, false =>
      .ok (.block (Direction.ofBit (bit word 11)) (upperField word) (byteField word))
  | true, true, false, true => conditional word
  | true, true, true, false =>
      if bit word 11 then .error .unknown else .ok (.branch (distanceField word))
  | true, true, true, true =>
      .ok (if bit word 11 then .longBranchLow (distanceField word)
        else .longBranchHigh (distanceField word))

end ThumbMachine
