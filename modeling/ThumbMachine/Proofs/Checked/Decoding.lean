/-
Module: ThumbMachine.Proofs.Checked.Decoding
Purpose: The decoder once more, on numbers cut out of the instruction word with their checks. Its
  result carries register numbers of any size and words where the instruction has narrow fields, and
  it has an answer for field values that no word has. No check fails, that answer is never given,
  and the result is the widened instruction.
Main exports: WideInstruction, WideError, Instruction.widen, Checked.decode, Checked.decode_eq
-/
import ThumbMachine.Instruction.Decode
import ThumbMachine.Proofs.Checked.Primitives

namespace ThumbMachine

/-- An instruction with fields as wide as they are passed on: any number may stand for a register,
amounts and distances are words, and the distances of branches count bytes. -/
inductive WideInstruction where
  | shift (kind : ShiftKind) (amount : Word) (source destination : Nat)
  | addSubtract (kind : OperandKind) (subtract : Bool) (operand : Word) (source destination : Nat)
  | immediate (op : ImmediateOp) (destination : Nat) (value : Word)
  | alu (op : AluOp) (source destination : Nat)
  | high (op : HighOp) (source destination : Nat)
  | branchExchange (source : Nat) (link : Bool)
  | literal (destination : Nat) (words : Word)
  | indexed (direction : Direction) (size : TransferSize) (offset base register : Nat)
  | extended (kind : HalfwordTransfer) (offset base register : Nat)
  | displaced (direction : Direction) (size : TransferSize) (units : Word) (base register : Nat)
  | halfword (direction : Direction) (halfwords : Word) (base register : Nat)
  | stackTransfer (direction : Direction) (register : Nat) (words : Word)
  | loadAddress (base : AddressBase) (destination : Nat) (words : Word)
  | adjustStack (negative : Bool) (words : Word)
  | compareBranch (nonZero : Bool) (register : Nat) (distance : Word)
  | extend (kind : ExtendKind) (source destination : Nat)
  | reverseBytes (source destination : Nat)
  | stack (direction : Direction) (extra : Bool) (list : Byte)
  | block (direction : Direction) (base : Nat) (list : Byte)
  | branchIf (condition : Condition) (distance : Word)
  | softwareInterrupt (code : Byte)
  | branch (distance : Word)
  | longBranch (low : Bool) (offset : Word)
deriving DecidableEq, Repr

/-- Why a word has no wide instruction: as for the plain decoder, or because a field has a value
that no field of its width has. -/
inductive WideError where
  | unknown
  | unsupported
  | internalLogic
deriving DecidableEq, Repr

namespace TransferFormat

/-- A transfer with wide fields. -/
def widen : TransferFormat → WideInstruction
  | literal destination words => .literal destination.toNat (words.setWidth 32)
  | indexed direction size offset base register =>
      .indexed direction size offset.toNat base.toNat register.toNat
  | extended kind offset base register => .extended kind offset.toNat base.toNat register.toNat
  | displaced direction size units base register =>
      .displaced direction size (units.setWidth 32) base.toNat register.toNat
  | halfword direction halfwords base register =>
      .halfword direction (halfwords.setWidth 32) base.toNat register.toNat
  | stack direction register words => .stackTransfer direction register.toNat (words.setWidth 32)

end TransferFormat

namespace Instruction

/-- An instruction with wide fields. -/
def widen : Instruction → WideInstruction
  | shift kind amount source destination =>
      .shift kind (amount.setWidth 32) source.toNat destination.toNat
  | addSubtract kind subtract operand source destination =>
      .addSubtract kind subtract (operand.setWidth 32) source.toNat destination.toNat
  | immediate op destination value => .immediate op destination.toNat (value.setWidth 32)
  | alu op source destination => .alu op source.toNat destination.toNat
  | high op source destination => .high op source.toNat destination.toNat
  | branchExchange source link => .branchExchange source.toNat link
  | transfer format => format.widen
  | loadAddress base destination words => .loadAddress base destination.toNat (words.setWidth 32)
  | adjustStack negative words => .adjustStack negative (words.setWidth 32)
  | compareBranch nonZero register halfwords =>
      .compareBranch nonZero register.toNat (halfwords.setWidth 32 <<< 1)
  | extend kind source destination => .extend kind source.toNat destination.toNat
  | reverseBytes source destination => .reverseBytes source.toNat destination.toNat
  | stack direction extra list => .stack direction extra list
  | block direction base list => .block direction base.toNat list
  | branchIf condition halfwords => .branchIf condition (branchDistance halfwords)
  | softwareInterrupt code => .softwareInterrupt code
  | branch halfwords => .branch (branchDistance halfwords)
  | longBranchHigh offset => .longBranch false (offset.setWidth 32)
  | longBranchLow offset => .longBranch true (offset.setWidth 32)

end Instruction

/-- The plain decoder's errors among those of the wide one. -/
def DecodeError.widen : DecodeError → WideError
  | unknown => .unknown
  | unsupported => .unsupported

/-- What the plain decoder comes to, with wide fields. -/
def widenDecoded : Except DecodeError Instruction → Except WideError WideInstruction
  | .ok instruction => .ok instruction.widen
  | .error error => .error error.widen

namespace Checked

open Decode

/-! ## Fields of a word -/

/-- A field as a number. -/
def numberAt (word : Halfword) (first last : Nat) : Checked Nat := do
  return (← fieldAt word first last).toNat

/-- A field as a word of its own. -/
def wordAt (word : Halfword) (first last : Nat) : Checked Word := do
  return (← fieldAt word first last).setWidth 32

theorem numberAt_eq (word : Halfword) {first last : Nat} (ordered : first ≤ last)
    (inside : last < 16) :
    numberAt word first last = .ok (word.extractLsb' first (last - first + 1)).toNat := by
  rw [numberAt, fieldAt_eq ordered inside (by decide), ok_bind,
    BitVec.toNat_setWidth_of_le (by omega)]
  rfl

theorem wordAt_eq (word : Halfword) {first last : Nat} (ordered : first ≤ last)
    (inside : last < 16) :
    wordAt word first last = .ok ((word.extractLsb' first (last - first + 1)).setWidth 32) := by
  rw [wordAt, fieldAt_eq ordered inside (by decide), ok_bind,
    BitVec.setWidth_setWidth (by omega)]
  rfl

/-- The fields that several formats share. -/
structure SharedFields where
  low : Nat
  middle : Nat
  upper : Nat
  offset : Word
  number : Word

/-- Cuts out the shared fields. -/
def sharedFields (word : Halfword) : Checked SharedFields := do
  let low ← numberAt word 0 2
  let middle ← numberAt word 3 5
  let upper ← numberAt word 8 10
  let offset ← wordAt word 6 10
  let number ← wordAt word 0 7
  return { low, middle, upper, offset, number }

/-- The shared fields of a word. -/
def shared (word : Halfword) : SharedFields :=
  { low := (lowField word).toNat
    middle := (middleField word).toNat
    upper := (upperField word).toNat
    offset := (offsetField word).setWidth 32
    number := (byteField word).setWidth 32 }

theorem sharedFields_eq (word : Halfword) : sharedFields word = .ok (shared word) := by
  rw [sharedFields, numberAt_eq _ (by decide) (by decide), ok_bind,
    numberAt_eq _ (by decide) (by decide), ok_bind, numberAt_eq _ (by decide) (by decide), ok_bind,
    wordAt_eq _ (by decide) (by decide), ok_bind, wordAt_eq _ (by decide) (by decide), ok_bind]
  rfl

/-- A number of two bits. -/
theorem toNat_pair (word : Halfword) (first : Nat) :
    (word.extractLsb' first 2).toNat =
      2 * (bit word (first + 1)).toNat + (bit word first).toNat := by
  have split : ∀ pair : BitVec 2,
      pair.toNat = 2 * (pair.getLsbD 1).toNat + (pair.getLsbD 0).toNat := by decide
  rw [split]
  simp

/-- A number of four bits. -/
theorem toNat_nibble (word : Halfword) (first : Nat) :
    (word.extractLsb' first 4).toNat =
      8 * (bit word (first + 3)).toNat + 4 * (bit word (first + 2)).toNat +
        2 * (bit word (first + 1)).toNat + (bit word first).toNat := by
  have split : ∀ nibble : BitVec 4, nibble.toNat = 8 * (nibble.getLsbD 3).toNat +
      4 * (nibble.getLsbD 2).toNat + 2 * (nibble.getLsbD 1).toNat + (nibble.getLsbD 0).toNat := by
    decide
  rw [split]
  simp

/-! ## The formats -/

/-- What the decoder comes to, where no check fails. -/
abbrev Decoded := Except WideError WideInstruction

/-- Words that begin 000. -/
def shiftOrAdd (word : Halfword) (fields : SharedFields) : Checked Decoded := do
  let shift (kind : ShiftKind) : WideInstruction :=
    .shift kind fields.offset fields.middle fields.low
  match ← numberAt word 11 12 with
  | 0 => return .ok (shift .lsl)
  | 1 => return .ok (shift .lsr)
  | 2 => return .ok (shift .asr)
  | 3 => do
      let kind := OperandKind.ofBit (← bitAt word 10)
      let subtract ← bitAt word 9
      let operand ← wordAt word 6 8
      return .ok (.addSubtract kind subtract operand fields.middle fields.low)
  | _ => return .error .internalLogic

/-- Words that begin 001. -/
def moveOrCompare (word : Halfword) (fields : SharedFields) : Checked Decoded := do
  let immediate (op : ImmediateOp) : WideInstruction := .immediate op fields.upper fields.number
  match ← numberAt word 11 12 with
  | 0 => return .ok (immediate .mov)
  | 1 => return .ok (immediate .cmp)
  | 2 => return .ok (immediate .add)
  | 3 => return .ok (immediate .sub)
  | _ => return .error .internalLogic

/-- Words that begin 010001. -/
def highOrExchange (word : Halfword) (fields : SharedFields) : Checked Decoded := do
  let upper ← bitAt word 7
  let source ← numberAt word 3 6
  let raised ← shiftUp (BitVec.ofNat 64 upper.toNat) 3
  let destination := fields.low ||| raised.toNat
  match ← numberAt word 8 9 with
  | 0 => return .ok (.high .add source destination)
  | 1 => return .ok (.high .cmp source destination)
  | 2 => return .ok (.high .mov source destination)
  | 3 => return .ok (.branchExchange source upper)
  | _ => return .error .internalLogic

/-- Words that begin 0100. -/
def dataProcessing (word : Halfword) (fields : SharedFields) : Checked Decoded := do
  match ← numberAt word 10 11 with
  | 0 =>
      match AluOp.ofField? (← numberAt word 6 9) with
      | some op => return .ok (.alu op fields.middle fields.low)
      | none => return .error .internalLogic
  | 1 => highOrExchange word fields
  | 2 | 3 => return .ok (.literal fields.upper fields.number)
  | _ => return .error .internalLogic

/-- Words that begin 0101. -/
def indexedTransfer (word : Halfword) (fields : SharedFields) : Checked Decoded := do
  let offset ← numberAt word 6 8
  if ← bitAt word 9 then
    let kind := HalfwordTransfer.ofBits (← bitAt word 11) (← bitAt word 10)
    return .ok (.extended kind offset fields.middle fields.low)
  else
    let direction := Direction.ofBit (← bitAt word 11)
    let size := TransferSize.ofBit (← bitAt word 10)
    return .ok (.indexed direction size offset fields.middle fields.low)

/-- Words that begin 1011. -/
def miscellaneous (word : Halfword) : Checked Decoded := do
  let low ← numberAt word 0 2
  let middle ← numberAt word 3 5
  match ← numberAt word 8 11 with
  | 0 => do
      let negative ← bitAt word 7
      let words ← wordAt word 0 6
      return .ok (.adjustStack negative words)
  | 1 | 3 | 9 | 11 => do
      let nonZero ← bitAt word 11
      let above ← shiftUp (BitVec.ofNat 32 (← bitAt word 9).toNat) 6
      let below ← shiftUp (← wordAt word 3 7) 1
      return .ok (.compareBranch nonZero low (above ||| below))
  | 2 => do
      let extend (kind : ExtendKind) : WideInstruction := .extend kind middle low
      match ← numberAt word 6 7 with
      | 0 => return .ok (extend .sxth)
      | 1 => return .ok (extend .sxtb)
      | 2 => return .ok (extend .uxth)
      | 3 => return .ok (extend .uxtb)
      | _ => return .error .internalLogic
  | 4 | 5 | 12 | 13 => do
      let direction := Direction.ofBit (← bitAt word 11)
      let extra ← bitAt word 8
      return .ok (.stack direction extra (word.setWidth 8))
  | 10 => do
      match ← numberAt word 6 7 with
      | 0 => return .ok (.reverseBytes middle low)
      | 1 | 3 => return .error .unsupported
      | 2 => return .error .unknown
      | _ => return .error .internalLogic
  | 6 | 7 | 8 | 14 | 15 => return .error .unknown
  | _ => return .error .internalLogic

/-- Words that begin 1101. -/
def conditional (word : Halfword) (fields : SharedFields) : Checked Decoded := do
  match ← numberAt word 8 11 with
  | 15 => return .ok (.softwareInterrupt (word.setWidth 8))
  | code =>
      match Condition.ofField? code with
      | none => return .error .unknown
      | some condition => do
          let doubled ← shiftUp fields.number 1
          let distance ← extendSign doubled 9
          return .ok (.branchIf condition distance)

/-- Words that begin 1110. -/
def branchOf (word : Halfword) : Checked Decoded := do
  if ← bitAt word 11 then
    return .error .unknown
  else
    let doubled ← shiftUp (← wordAt word 0 10) 1
    let distance ← extendSign doubled 12
    return .ok (.branch distance)

/-- The instruction of a word, by its top four bits. -/
def decode (word : Halfword) : Checked Decoded := do
  let fields ← sharedFields word
  match ← numberAt word 12 15 with
  | 0 | 1 => shiftOrAdd word fields
  | 2 | 3 => moveOrCompare word fields
  | 4 => dataProcessing word fields
  | 5 => indexedTransfer word fields
  | 6 | 7 => do
      let direction := Direction.ofBit (← bitAt word 11)
      let size := TransferSize.ofBit (← bitAt word 12)
      return .ok (.displaced direction size fields.offset fields.middle fields.low)
  | 8 => do
      let direction := Direction.ofBit (← bitAt word 11)
      return .ok (.halfword direction fields.offset fields.middle fields.low)
  | 9 => do
      let direction := Direction.ofBit (← bitAt word 11)
      return .ok (.stackTransfer direction fields.upper fields.number)
  | 10 => do
      let base := AddressBase.ofBit (← bitAt word 11)
      return .ok (.loadAddress base fields.upper fields.number)
  | 11 => miscellaneous word
  | 12 => do
      let direction := Direction.ofBit (← bitAt word 11)
      return .ok (.block direction fields.upper (word.setWidth 8))
  | 13 => conditional word fields
  | 14 => branchOf word
  | 15 => do
      let low ← bitAt word 11
      let offset ← wordAt word 0 10
      return .ok (.longBranch low offset)
  | _ => return .error .internalLogic

/-! ## No word has the values left over -/

theorem flagAt_eq (word : Halfword) {index : Nat} (inside : index < 16) :
    bitAt word index = .ok (bit word index) :=
  bitAt_eq inside word

theorem lowByte_eq (word : Halfword) : word.setWidth 8 = byteField word := by
  rw [byteField, BitVec.setWidth_eq_extractLsb' (by decide)]

theorem shiftOrAdd_eq (word : Halfword) :
    shiftOrAdd word (shared word) = .ok (.ok (Decode.shiftOrAdd word).widen) := by
  simp (disch := decide) only [shiftOrAdd, numberAt_eq, flagAt_eq, wordAt_eq, ok_bind]
  rw [toNat_pair, Decode.shiftOrAdd]
  cases bit word 12 <;> cases bit word 11 <;> rfl

theorem moveOrCompare_eq (word : Halfword) :
    moveOrCompare word (shared word) =
      .ok (.ok (.immediate (ImmediateOp.ofBits (bit word 12) (bit word 11)) (upperField word).toNat
        ((byteField word).setWidth 32))) := by
  simp (disch := decide) only [moveOrCompare, numberAt_eq, ok_bind]
  rw [toNat_pair]
  cases bit word 12 <;> cases bit word 11 <;> rfl

/-- The fourth bit of a register number, put above the three others. -/
theorem raised_or (upper : Bool) (low : LowRegister) :
    low.toNat ||| (BitVec.ofNat 64 upper.toNat <<< 3).toNat =
      (BitVec.ofBool upper ++ low).toNat := by
  decide +revert

theorem highOrExchange_eq (word : Halfword) :
    highOrExchange word (shared word) = .ok (.ok (Decode.highOrExchange word).widen) := by
  simp (disch := decide) only [highOrExchange, numberAt_eq, flagAt_eq, shiftUp_eq, ok_bind, shared,
    raised_or]
  rw [toNat_pair, Decode.highOrExchange]
  cases bit word 9 <;> cases bit word 8 <;> rfl

/-- Every 4-bit code is the code of an operation. -/
theorem ofField?_eq (code : BitVec 4) : AluOp.ofField? code.toNat = some (AluOp.ofField code) := by
  decide +revert

theorem dataProcessing_eq (word : Halfword) :
    dataProcessing word (shared word) = .ok (.ok (Decode.dataProcessing word).widen) := by
  simp (disch := decide) only [dataProcessing, numberAt_eq, ok_bind, highOrExchange_eq]
  rw [toNat_pair, ofField?_eq, Decode.dataProcessing]
  cases bit word 11 <;> cases bit word 10 <;> rfl

theorem indexedTransfer_eq (word : Halfword) :
    indexedTransfer word (shared word) = .ok (.ok (Decode.indexedTransfer word).widen) := by
  simp (disch := decide) only [indexedTransfer, numberAt_eq, flagAt_eq, ok_bind]
  rw [Decode.indexedTransfer]
  cases bit word 9 <;> rfl

/-- The distance of a compare-and-branch, put together from its two fields. -/
theorem joined_distance (above : Bool) (below : BitVec 5) :
    (BitVec.ofNat 32 above.toNat <<< 6 ||| below.setWidth 32 <<< 1 : Word) =
      (BitVec.ofBool above ++ below).setWidth 32 <<< 1 := by
  decide +revert

theorem miscellaneous_eq (word : Halfword) :
    miscellaneous word = .ok (widenDecoded (Decode.miscellaneous word)) := by
  simp (disch := decide) only [miscellaneous, numberAt_eq, flagAt_eq, wordAt_eq, shiftUp_eq,
    ok_bind, lowByte_eq]
  rw [toNat_nibble, toNat_pair, joined_distance, Decode.miscellaneous.eq_def]
  cases bit word 11 <;> cases bit word 10 <;> cases bit word 9 <;> cases bit word 8 <;>
    first
    | rfl
    | cases bit word 7 <;> cases bit word 6 <;> rfl

theorem conditional_eq (word : Halfword) :
    conditional word (shared word) = .ok (widenDecoded (Decode.conditional word)) := by
  simp (disch := decide) only [conditional, numberAt_eq, shiftUp_eq, extendSign_eq, ok_bind]
  rw [Decode.conditional, lowByte_eq]
  change (match (word.extractLsb' 8 4).toNat with
    | 15 => _
    | code => _) = _
  generalize word.extractLsb' 8 4 = code
  split
  · rename_i interrupt
    have fifteen : code = 15#4 := BitVec.eq_of_toNat_eq interrupt
    rw [if_pos fifteen]
    rfl
  · rename_i other
    have ordinary : code ≠ 15#4 := by
      rintro rfl
      exact other rfl
    rw [if_neg ordinary]
    cases Condition.ofField? code.toNat with
    | none => rfl
    | some condition => rfl

theorem branchOf_eq (word : Halfword) :
    branchOf word = .ok (if bit word 11 then .error .unknown
      else .ok (.branch (branchDistance (distanceField word)))) := by
  simp (disch := decide) only [branchOf, flagAt_eq, wordAt_eq, shiftUp_eq, extendSign_eq, ok_bind]
  cases bit word 11 <;> rfl

/-- The wide decoder gives the plain decoder's instruction, widened, whatever the word; no check
fails. -/
theorem decode_eq (word : Halfword) :
    decode word = .ok (widenDecoded (ThumbMachine.decode word)) := by
  simp (disch := decide) only [decode, sharedFields_eq, numberAt_eq, flagAt_eq, wordAt_eq, ok_bind,
    shiftOrAdd_eq, moveOrCompare_eq, dataProcessing_eq, indexedTransfer_eq, miscellaneous_eq,
    conditional_eq, branchOf_eq, lowByte_eq]
  rw [toNat_nibble, ThumbMachine.decode.eq_def]
  cases bit word 15 <;> cases bit word 14 <;> cases bit word 13 <;> cases bit word 12 <;>
    first
    | rfl
    | cases bit word 11 <;> rfl

end Checked

end ThumbMachine
