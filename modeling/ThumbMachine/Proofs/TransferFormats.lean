/-
Module: ThumbMachine.Proofs.TransferFormats
Purpose: The formats that move one datum, by what they have in common. Each has an instruction word,
  a movement, a register and an effective address, which counts from its base in units of its own.
Main exports: TransferFormat.word, TransferFormat.decode_eq_transfer_iff, TransferFormat.kind,
  TransferFormat.register, TransferFormat.address, TransferFormat.resolve_eq
-/
import Mathlib.Tactic.IntervalCases
import ThumbMachine.Core.Execute
import ThumbMachine.Instruction.Decode
import ThumbMachine.Proofs.Comparisons

namespace ThumbMachine

namespace Direction

/-- The L bit. -/
def bit : Direction → Bool
  | store => false
  | load => true

@[simp] theorem ofBit_bit (direction : Direction) : ofBit direction.bit = direction := by
  cases direction <;> rfl

end Direction

namespace TransferSize

/-- The B bit. -/
def bit : TransferSize → Bool
  | word => false
  | byte => true

@[simp] theorem ofBit_bit (size : TransferSize) : ofBit size.bit = size := by
  cases size <;> rfl

end TransferSize

namespace HalfwordTransfer

/-- The H bit. -/
def h : HalfwordTransfer → Bool
  | storeHalfword | loadSignedByte => false
  | loadHalfword | loadSignedHalfword => true

/-- The S bit. -/
def s : HalfwordTransfer → Bool
  | storeHalfword | loadHalfword => false
  | loadSignedByte | loadSignedHalfword => true

@[simp] theorem ofBits_bits (kind : HalfwordTransfer) : ofBits kind.h kind.s = kind := by
  cases kind <;> rfl

end HalfwordTransfer

/-- The field that lies above two others in a word. -/
theorem extractLsb'_above {above width middle below : Nat} (high : BitVec above)
    (field : BitVec width) (other : BitVec middle) (low : BitVec below) :
    (high ++ field ++ other ++ low).extractLsb' (middle + below) width = field := by
  apply BitVec.eq_of_getLsbD_eq
  intro position bound
  have first : ¬ middle + below + position < below := by omega
  have second : ¬ middle + below + position - below < middle := by omega
  have place : middle + below + position - below - middle = position := by omega
  simp only [BitVec.getLsbD_extractLsb', BitVec.getLsbD_append, bound, first, second, place,
    decide_true, Bool.true_and, if_false, if_true]

namespace TransferFormat

/-! ## Instruction words -/

/-- The instruction word. -/
def word : TransferFormat → Halfword
  | literal destination words => 0b01001#5 ++ destination ++ words
  | indexed direction size offset base register =>
      0b0101#4 ++ BitVec.ofBool direction.bit ++ BitVec.ofBool size.bit ++ 0#1 ++
        offset ++ base ++ register
  | extended kind offset base register =>
      0b0101#4 ++ BitVec.ofBool kind.h ++ BitVec.ofBool kind.s ++ 1#1 ++ offset ++ base ++ register
  | displaced direction size units base register =>
      0b011#3 ++ BitVec.ofBool size.bit ++ BitVec.ofBool direction.bit ++ units ++ base ++ register
  | halfword direction halfwords base register =>
      0b1000#4 ++ BitVec.ofBool direction.bit ++ halfwords ++ base ++ register
  | stack direction register words => 0b1001#4 ++ BitVec.ofBool direction.bit ++ register ++ words

open Decode in
theorem decode_word (format : TransferFormat) : decode format.word = .ok (.transfer format) := by
  cases format with
  | literal destination words =>
      have upper : upperField (0b01001#5 ++ destination ++ words) = destination :=
        extractLsb'_between ..
      have byte : byteField (0b01001#5 ++ destination ++ words) = words :=
        BitVec.extractLsb'_append_eq_right
      simp only [word, decode, dataProcessing, bit, BitVec.getLsbD_append, upper, byte]
      rfl
  | indexed direction size offset base register =>
      let word := (indexed direction size offset base register).word
      have third : thirdField word = offset := extractLsb'_above ..
      have middle : middleField word = base := extractLsb'_between ..
      have lowest : lowField word = register := BitVec.extractLsb'_append_eq_right
      have decoded : decode word = .ok (.transfer (.indexed (Direction.ofBit direction.bit)
          (TransferSize.ofBit size.bit) (thirdField word) (middleField word) (lowField word))) := by
        simp only [word, TransferFormat.word, decode, indexedTransfer, bit, BitVec.getLsbD_append]
        cases direction <;> cases size <;> rfl
      rw [decoded, third, middle, lowest, Direction.ofBit_bit, TransferSize.ofBit_bit]
  | extended kind offset base register =>
      let word := (extended kind offset base register).word
      have third : thirdField word = offset := extractLsb'_above ..
      have middle : middleField word = base := extractLsb'_between ..
      have lowest : lowField word = register := BitVec.extractLsb'_append_eq_right
      have decoded : decode word = .ok (.transfer (.extended (HalfwordTransfer.ofBits kind.h kind.s)
          (thirdField word) (middleField word) (lowField word))) := by
        simp only [word, TransferFormat.word, decode, indexedTransfer, bit, BitVec.getLsbD_append]
        cases kind <;> rfl
      rw [decoded, third, middle, lowest, HalfwordTransfer.ofBits_bits]
  | displaced direction size units base register =>
      let word := (displaced direction size units base register).word
      have offset : offsetField word = units := extractLsb'_above ..
      have middle : middleField word = base := extractLsb'_between ..
      have lowest : lowField word = register := BitVec.extractLsb'_append_eq_right
      have decoded : decode word = .ok (.transfer (.displaced (Direction.ofBit direction.bit)
          (TransferSize.ofBit size.bit) (offsetField word) (middleField word)
          (lowField word))) := by
        simp only [word, TransferFormat.word, decode, bit, BitVec.getLsbD_append]
        cases direction <;> cases size <;> rfl
      rw [decoded, offset, middle, lowest, Direction.ofBit_bit, TransferSize.ofBit_bit]
  | halfword direction halfwords base register =>
      let word := (halfword direction halfwords base register).word
      have offset : offsetField word = halfwords := extractLsb'_above ..
      have middle : middleField word = base := extractLsb'_between ..
      have lowest : lowField word = register := BitVec.extractLsb'_append_eq_right
      have decoded : decode word = .ok (.transfer (.halfword (Direction.ofBit direction.bit)
          (offsetField word) (middleField word) (lowField word))) := by
        simp only [word, TransferFormat.word, decode, bit, BitVec.getLsbD_append]
        cases direction <;> rfl
      rw [decoded, offset, middle, lowest, Direction.ofBit_bit]
  | stack direction register words =>
      let word := (stack direction register words).word
      have upper : upperField word = register := extractLsb'_between ..
      have byte : byteField word = words := BitVec.extractLsb'_append_eq_right
      have decoded : decode word = .ok (.transfer (.stack (Direction.ofBit direction.bit)
          (upperField word) (byteField word))) := by
        simp only [word, TransferFormat.word, decode, bit, BitVec.getLsbD_append]
        cases direction <;> rfl
      rw [decoded, upper, byte, Direction.ofBit_bit]

end TransferFormat

/-! ## No other words -/

namespace Decode

/-- A word from its five top bits, a register field and a byte. -/
theorem eq_append_byte (word : Halfword) :
    word = BitVec.ofBool (bit word 15) ++ BitVec.ofBool (bit word 14) ++
      BitVec.ofBool (bit word 13) ++ BitVec.ofBool (bit word 12) ++ BitVec.ofBool (bit word 11) ++
      upperField word ++ byteField word := by
  apply BitVec.eq_of_getLsbD_eq
  intro position bound
  simp only [upperField, byteField, BitVec.getLsbD_append, BitVec.getLsbD_extractLsb',
    BitVec.getLsbD_ofBool]
  interval_cases position <;> simp

/-- A word from its five top bits, an offset and two register fields. -/
theorem eq_append_offset (word : Halfword) :
    word = BitVec.ofBool (bit word 15) ++ BitVec.ofBool (bit word 14) ++
      BitVec.ofBool (bit word 13) ++ BitVec.ofBool (bit word 12) ++ BitVec.ofBool (bit word 11) ++
      offsetField word ++ middleField word ++ lowField word := by
  apply BitVec.eq_of_getLsbD_eq
  intro position bound
  simp only [offsetField, middleField, lowField, BitVec.getLsbD_append, BitVec.getLsbD_extractLsb',
    BitVec.getLsbD_ofBool]
  interval_cases position <;> simp

/-- A word from its seven top bits and three register fields. -/
theorem eq_append_third (word : Halfword) :
    word = BitVec.ofBool (bit word 15) ++ BitVec.ofBool (bit word 14) ++
      BitVec.ofBool (bit word 13) ++ BitVec.ofBool (bit word 12) ++ BitVec.ofBool (bit word 11) ++
      BitVec.ofBool (bit word 10) ++ BitVec.ofBool (bit word 9) ++
      thirdField word ++ middleField word ++ lowField word := by
  apply BitVec.eq_of_getLsbD_eq
  intro position bound
  simp only [thirdField, middleField, lowField, BitVec.getLsbD_append, BitVec.getLsbD_extractLsb',
    BitVec.getLsbD_ofBool]
  interval_cases position <;> simp

theorem shiftOrAdd_ne_transfer (word : Halfword) (format : TransferFormat) :
    shiftOrAdd word ≠ .transfer format := by
  rw [shiftOrAdd]
  split <;> simp

theorem highOrExchange_ne_transfer (word : Halfword) (format : TransferFormat) :
    highOrExchange word ≠ .transfer format := by
  rw [highOrExchange]
  split <;> simp

theorem miscellaneous_ne_transfer (word : Halfword) (format : TransferFormat) :
    miscellaneous word ≠ .ok (.transfer format) := by
  rw [miscellaneous]
  split <;> try split
  all_goals simp

theorem conditional_ne_transfer (word : Halfword) (format : TransferFormat) :
    conditional word ≠ .ok (.transfer format) := by
  rw [conditional]
  split
  · simp
  · split <;> simp

end Decode

namespace TransferFormat

open Decode in
theorem eq_word_of_decode {word : Halfword} {format : TransferFormat}
    (decoded : decode word = .ok (.transfer format)) : word = format.word := by
  have byte := eq_append_byte word
  have offset := eq_append_offset word
  have third := eq_append_third word
  rw [decode] at decoded
  split at decoded
  case h_1 => cases shiftOrAdd_ne_transfer word format (Except.ok.inj decoded)
  case h_3 fifteen fourteen thirteen twelve =>
      rw [dataProcessing] at decoded
      split at decoded
      · cases decoded
      · cases highOrExchange_ne_transfer word format (Except.ok.inj decoded)
      · rename_i eleven
        cases decoded
        rwa [fifteen, fourteen, thirteen, twelve, eleven] at byte
  case h_4 fifteen fourteen thirteen twelve =>
      rw [fifteen, fourteen, thirteen, twelve] at third
      rw [indexedTransfer] at decoded
      split at decoded
      · rename_i nine
        cases decoded
        rw [nine] at third
        refine third.trans ?_
        cases bit word 11 <;> cases bit word 10 <;> rfl
      · rename_i nine
        cases decoded
        rw [Bool.eq_false_iff.2 nine] at third
        refine third.trans ?_
        cases bit word 11 <;> cases bit word 10 <;> rfl
  case h_5 fifteen fourteen thirteen =>
      cases decoded
      rw [fifteen, fourteen, thirteen] at offset
      refine offset.trans ?_
      cases bit word 12 <;> cases bit word 11 <;> rfl
  case h_6 fifteen fourteen thirteen twelve =>
      cases decoded
      rw [fifteen, fourteen, thirteen, twelve] at offset
      refine offset.trans ?_
      cases bit word 11 <;> rfl
  case h_7 fifteen fourteen thirteen twelve =>
      cases decoded
      rw [fifteen, fourteen, thirteen, twelve] at byte
      refine byte.trans ?_
      cases bit word 11 <;> rfl
  case h_9 => cases miscellaneous_ne_transfer word format decoded
  case h_11 => cases conditional_ne_transfer word format decoded
  case h_12 => split at decoded <;> cases decoded
  case h_13 => split at decoded <;> cases decoded
  all_goals cases decoded

/-- A word stands for a transfer exactly if it is the word of that transfer. -/
theorem decode_eq_transfer_iff {word : Halfword} {format : TransferFormat} :
    decode word = .ok (.transfer format) ↔ word = format.word :=
  ⟨eq_word_of_decode, fun same => same ▸ format.decode_word⟩

/-! ## What the formats have in common -/

end TransferFormat

/-- A shifted field counts in units. -/
theorem shiftLeft_eq_ofNat {width : Nat} (field : BitVec width) (small : width ≤ 32) (shift : Nat) :
    (field.setWidth 32 <<< shift : Word) = BitVec.ofNat 32 (field.toNat <<< shift) := by
  apply BitVec.eq_of_toNat_eq
  rw [BitVec.toNat_shiftLeft, BitVec.toNat_setWidth_of_le small, BitVec.toNat_ofNat]

theorem add_eq_ofNat (start : Word) (distance : Nat) :
    start + BitVec.ofNat 32 distance = BitVec.ofNat 32 (start.toNat + distance) := by
  rw [BitVec.ofNat_add, BitVec.ofNat_toNat, BitVec.setWidth_eq]

/-- Clearing the two low bits of an address rounds it down. -/
theorem toNat_wordAligned (address : Word) :
    (wordAligned address).toNat = address.toNat / 4 * 4 := by
  have mask : ∀ position < 32, (3#32).getLsbD position = decide (position < 2) := by decide
  have cleared : wordAligned address = (address >>> 2) <<< 2 := by
    apply BitVec.eq_of_getLsbD_eq
    intro position bound
    rw [wordAligned, BitVec.getLsbD_and, BitVec.getLsbD_not, BitVec.getLsbD_shiftLeft,
      BitVec.getLsbD_ushiftRight, mask position bound]
    by_cases low : position < 2
    · simp [low]
    · simp [low, bound, Nat.add_sub_cancel' (Nat.le_of_not_lt low)]
  have bound := address.isLt
  rw [cleared, BitVec.toNat_shiftLeft, BitVec.toNat_ushiftRight, Nat.shiftLeft_eq,
    Nat.shiftRight_eq_div_pow]
  omega

namespace TransferFormat

/-- What the format does with its datum. -/
def kind : TransferFormat → TransferKind
  | literal .. => .load .word
  | indexed direction size .. | displaced direction size .. => .ofDirection direction size.datum
  | extended kind .. => kind.kind
  | halfword direction .. => .ofDirection direction .halfword
  | stack direction .. => .ofDirection direction .word

/-- The register that is stored, or that gets what is loaded. -/
def register : TransferFormat → LowRegister
  | literal register _ | indexed _ _ _ _ register | extended _ _ _ register
  | displaced _ _ _ _ register
  | halfword _ _ _ register | stack _ register _ => register

/-- The number that the address counts from: a multiple of 4 for the program counter, which is 4
ahead. -/
def base (format : TransferFormat) (core : Core) : Nat :=
  match format with
  | literal .. => (core.pc.toNat + 4) / 4 * 4
  | indexed _ _ _ base _ | extended _ _ base _ | displaced _ _ _ base _ | halfword _ _ base _ =>
      (core.read base.wide).toNat
  | stack .. => (core.read Register.sp).toNat

/-- The number that is added to it: a register, or so many words, halfwords or transferred data. -/
def offset (format : TransferFormat) (core : Core) : Nat :=
  match format with
  | literal _ words | stack _ _ words => 4 * words.toNat
  | indexed _ _ offset _ _ | extended _ offset _ _ => (core.read offset.wide).toNat
  | displaced _ size units _ _ => size.datum.bytes * units.toNat
  | halfword _ halfwords _ _ => 2 * halfwords.toNat

/-- The effective address, modulo the size of the address space. -/
def address (format : TransferFormat) (core : Core) : Word :=
  BitVec.ofNat 32 (format.base core + format.offset core)

theorem computedAddress_pc (core : Core) (words : Byte) :
    core.computedAddress .pc words = BitVec.ofNat 32
      ((core.pc.toNat + 4) / 4 * 4 + 4 * words.toNat) := by
  have ahead : (core.pc + 4).toNat = (core.pc.toNat + 4) % 0x100000000 := BitVec.toNat_add core.pc 4
  have start := toNat_wordAligned (core.pc + 4)
  rw [Core.computedAddress, Core.read, if_pos rfl, shiftLeft_eq_ofNat words (by decide),
    add_eq_ofNat]
  apply BitVec.eq_of_toNat_eq
  rw [BitVec.toNat_ofNat, BitVec.toNat_ofNat, start, ahead, Nat.shiftLeft_eq]
  omega

theorem computedAddress_sp (core : Core) (words : Byte) :
    core.computedAddress .sp words = BitVec.ofNat 32
      ((core.read Register.sp).toNat + 4 * words.toNat) := by
  rw [Core.computedAddress, shiftLeft_eq_ofNat words (by decide), add_eq_ofNat, Nat.shiftLeft_eq,
    Nat.mul_comm]

/-- A format is carried out as the movement of its datum between its register and its effective
address. -/
theorem resolve_eq (format : TransferFormat) (core : Core) :
    format.resolve core = ⟨format.kind, format.address core, format.register⟩ := by
  cases format with
  | literal destination words =>
      rw [resolve, computedAddress_pc]
      rfl
  | indexed direction size offset base register =>
      rw [resolve, BitVec.add_def]
      rfl
  | extended kind offset base register =>
      rw [resolve, BitVec.add_def]
      rfl
  | displaced direction size units base register =>
      have scaled : units.toNat <<< size.offsetShift = size.datum.bytes * units.toNat := by
        rw [Nat.shiftLeft_eq, Nat.mul_comm]
        cases size <;> rfl
      rw [resolve, shiftLeft_eq_ofNat units (by decide), add_eq_ofNat, scaled]
      rfl
  | halfword direction halfwords base register =>
      rw [resolve, shiftLeft_eq_ofNat halfwords (by decide), add_eq_ofNat, Nat.shiftLeft_eq,
        Nat.mul_comm]
      rfl
  | stack direction register words =>
      rw [resolve, computedAddress_sp]
      rfl

end TransferFormat

namespace Machine

/-- A transfer word moves its datum between its register and its effective address. -/
theorem perform_transfer (machine : Machine) (format : TransferFormat) :
    machine.perform format.word = .ok (Transfer.perform
      ⟨format.kind, format.address machine.core, format.register⟩ machine) := by
  rw [perform_of_decoded format.decode_word, ← format.resolve_eq]
  rfl

end Machine

end ThumbMachine
