/-
Module: ThumbMachine.Proofs.SerialShifter
Purpose: The barrel shifter against a shift register that moves a word one place at a time. After
  any number of places the register holds the word moved by as many at once, and its carry is the
  bit that the last place pushed out. Amounts from 32 on need no rule of their own: they are what
  the register comes to.
Main exports: ShiftKind.step, ShiftKind.iterate_step, AluResult.Shows, ShiftKind.places,
  shifts_serial
-/
import Mathlib.Logic.Function.Iterate
import ThumbMachine.Proofs.ExactArithmetic
import ThumbMachine.Shifter

namespace ThumbMachine

namespace ShiftKind

/-! ## The shift register -/

/-- One place: every bit moves to its neighbour's place, one bit enters at the end that is left
free, and the bit that is pushed out at the other end becomes the carry. Zeros enter in LSL and LSR,
the sign in ASR, and in ROR the bit that leaves. -/
def step (kind : ShiftKind) (state : Word × Bool) : Word × Bool :=
  let value := state.1
  match kind with
  | lsl => (value.extractLsb' 0 31 ++ 0#1, value.getLsbD 31)
  | lsr => (0#1 ++ value.extractLsb' 1 31, value.getLsbD 0)
  | asr => (value.extractLsb' 31 1 ++ value.extractLsb' 1 31, value.getLsbD 0)
  | ror => (value.extractLsb' 0 1 ++ value.extractLsb' 1 31, value.getLsbD 0)

/-- A word moved by any number of places at once. -/
def moved (kind : ShiftKind) (places : Nat) (value : Word) : Word :=
  match kind with
  | lsl => value <<< places
  | lsr => value >>> places
  | asr => value.sshiftRight places
  | ror => value.rotateRight places

/-- The bit that the next place pushes out. -/
def leaving (kind : ShiftKind) (value : Word) : Bool :=
  match kind with
  | lsl => value.getLsbD 31
  | lsr | asr | ror => value.getLsbD 0

theorem moved_zero (kind : ShiftKind) (value : Word) : kind.moved 0 value = value := by
  cases kind <;> simp [moved, BitVec.rotateRight_def]

/-- One more place after some moved at once. -/
theorem step_moved (kind : ShiftKind) (places : Nat) (value : Word) (carry : Bool) :
    kind.step (kind.moved places value, carry) =
      (kind.moved (places + 1) value, kind.leaving (kind.moved places value)) := by
  refine Prod.ext (BitVec.eq_of_getLsbD_eq fun position bound => ?_) (by cases kind <;> rfl)
  cases kind with
  | lsl =>
      simp only [step, moved, BitVec.getLsbD_append, BitVec.getLsbD_extractLsb',
        BitVec.getLsbD_shiftLeft]
      grind
  | lsr =>
      simp only [step, moved, BitVec.getLsbD_append, BitVec.getLsbD_extractLsb',
        BitVec.getLsbD_ushiftRight]
      grind
  | asr =>
      simp only [step, moved, BitVec.getLsbD_append, BitVec.getLsbD_extractLsb',
        BitVec.getLsbD_sshiftRight, BitVec.msb_eq_getLsbD_last]
      grind
  | ror =>
      simp only [step, moved, BitVec.getLsbD_append, BitVec.getLsbD_extractLsb',
        BitVec.getLsbD_rotateRight]
      grind

/-- What the shift register holds after some places, one at least. -/
theorem iterate_step (kind : ShiftKind) (places : Nat) (value : Word) (carry : Bool) :
    kind.step^[places + 1] (value, carry) =
      (kind.moved (places + 1) value, kind.leaving (kind.moved places value)) := by
  induction places with
  | zero =>
      have first := kind.step_moved 0 value carry
      rwa [moved_zero] at first ⊢
  | succ places inductionHypothesis =>
      rw [Function.iterate_succ_apply', inductionHypothesis, step_moved]

/-- How many places an amount of a 5-bit field stands for. -/
def places (kind : ShiftKind) (amount : BitVec 5) : Nat :=
  if amount = 0 then
    match kind with
    | lsl | ror => 0
    | lsr | asr => 32
  else amount.toNat

end ShiftKind

/-! ## The barrel shifter -/

namespace AluResult

/-- A result shows what a shift register holds; it has no overflow. -/
structure Shows (outcome : AluResult) (state : Word × Bool) : Prop where
  value : outcome.value = state.1
  carry : outcome.carry = state.2
  overflow : outcome.overflow = false
  marked : outcome.Marked

theorem withCarry_shows (value : Word) (carry : Bool) :
    (withCarry value carry).Shows (value, carry) :=
  ⟨rfl, rfl, rfl, marked_withCarry value carry⟩

/-- What has to be checked of a result after some places, one at least. -/
theorem shows_iterate {kind : ShiftKind} {places : Nat} {value result : Word} {carry out : Bool}
    (moved : result = kind.moved (places + 1) value)
    (left : out = kind.leaving (kind.moved places value)) :
    (withCarry result out).Shows (kind.step^[places + 1] (value, carry)) := by
  rw [kind.iterate_step, moved, left]
  exact withCarry_shows _ _

end AluResult

/-- Up to 31 places. -/
theorem shiftPlaces_shows (kind : ShiftKind) {places : Nat} (near : places + 1 < 32) (value : Word)
    (carry : Bool) :
    (shiftPlaces kind (places + 1) value).Shows (kind.step^[places + 1] (value, carry)) := by
  cases kind with
  | lsl =>
      refine AluResult.shows_iterate rfl ?_
      simp only [ShiftKind.leaving, ShiftKind.moved, BitVec.getLsbD_shiftLeft]
      grind
  | lsr =>
      refine AluResult.shows_iterate rfl ?_
      simp [ShiftKind.leaving, ShiftKind.moved]
  | asr =>
      refine AluResult.shows_iterate rfl ?_
      simp only [ShiftKind.leaving, ShiftKind.moved, BitVec.getLsbD_sshiftRight]
      grind
  | ror =>
      refine AluResult.shows_iterate rfl ?_
      simp only [ShiftKind.leaving, ShiftKind.moved, BitVec.getLsbD_rotateRight]
      grind

section Far

variable {places : Nat} (far : 32 ≤ places + 1) (value : Word) (carry : Bool)

include far

/-- From 32 places on LSL leaves zero. Bit 0 is the last bit to leave, at place 32. -/
theorem lsl_far :
    (AluResult.withCarry 0 (places + 1 == 32 && value.getLsbD 0)).Shows
      (ShiftKind.lsl.step^[places + 1] (value, carry)) := by
  apply AluResult.shows_iterate
  · exact (BitVec.shiftLeft_eq_zero far).symm
  · simp only [ShiftKind.leaving, ShiftKind.moved, BitVec.getLsbD_shiftLeft]
    grind

/-- From 32 places on LSR leaves zero. Bit 31 is the last bit to leave, at place 32. -/
theorem lsr_far :
    (AluResult.withCarry 0 (places + 1 == 32 && value.getLsbD 31)).Shows
      (ShiftKind.lsr.step^[places + 1] (value, carry)) := by
  apply AluResult.shows_iterate
  · exact (BitVec.ushiftRight_eq_zero far).symm
  · simp only [ShiftKind.leaving, ShiftKind.moved, BitVec.getLsbD_ushiftRight, Nat.add_zero]
    by_cases last : places = 31
    · subst last
      rfl
    · rw [BitVec.getLsbD_of_ge value places (by omega)]
      simp [last]

/-- From 32 places on ASR has the sign everywhere, and it is the sign that leaves. -/
theorem asr_far :
    (signFill value).Shows (ShiftKind.asr.step^[places + 1] (value, carry)) := by
  rw [signFill]
  apply AluResult.shows_iterate
  · apply BitVec.eq_of_getLsbD_eq
    intro position bound
    simp only [ShiftKind.moved, BitVec.getLsbD_sshiftRight, BitVec.msb_eq_getLsbD_last]
    grind
  · simp only [ShiftKind.leaving, ShiftKind.moved, BitVec.getLsbD_sshiftRight,
      BitVec.msb_eq_getLsbD_last]
    grind

end Far

/-- Full turns of a rotation change nothing but the carry, which is the bit that left last. -/
theorem ror_turned (places : Nat) (value : Word) (carry : Bool) :
    (AluResult.withCarry (value.rotateRight ((places + 1) % 32))
      (value.getLsbD (places % 32))).Shows
      (ShiftKind.ror.step^[places + 1] (value, carry)) := by
  apply AluResult.shows_iterate
  · exact BitVec.rotateRight_mod_eq_rotateRight
  · simp only [ShiftKind.leaving, ShiftKind.moved, BitVec.getLsbD_rotateRight]
    grind

/-- A shift by a byte, regime by regime. -/
theorem shiftByRegister_shows (kind : ShiftKind) (amount : Byte) (value : Word) (carry : Bool) :
    (shiftByRegister kind amount value carry).Shows (kind.step^[amount.toNat] (value, carry)) := by
  rw [shiftByRegister.eq_def]
  by_cases none_ : amount = 0
  · subst none_
    exact AluResult.withCarry_shows value carry
  rw [if_neg none_]
  obtain ⟨places, same⟩ : ∃ places, amount.toNat = places + 1 :=
    Nat.exists_eq_succ_of_ne_zero fun zero => none_ (BitVec.eq_of_toNat_eq zero)
  rw [same]
  split
  · rename_i near
    exact shiftPlaces_shows kind near value carry
  · rename_i notNear
    have far : 32 ≤ places + 1 := Nat.le_of_not_lt notNear
    cases kind with
    | lsl => exact lsl_far far value carry
    | lsr => exact lsr_far far value carry
    | asr => exact asr_far far value carry
    | ror =>
        have turned := ror_turned places value carry
        dsimp only
        split
        · rename_i whole
          have last : places % 32 = 31 := by omega
          have still : value.rotateRight 0 = value := ShiftKind.ror.moved_zero value
          rwa [whole, last, still] at turned
        · rename_i part
          have before : places % 32 = (places + 1) % 32 - 1 := by omega
          rwa [before] at turned

/-- A shift by a 5-bit field. -/
theorem shiftImmediate_shows (kind : ShiftKind) (amount : BitVec 5) (value : Word) (carry : Bool) :
    (shiftImmediate kind amount value carry).Shows
      (kind.step^[kind.places amount] (value, carry)) := by
  rw [shiftImmediate.eq_def, ShiftKind.places.eq_def]
  split
  · cases kind with
    | lsl => exact AluResult.withCarry_shows value carry
    | lsr => exact lsr_far (Nat.le_refl 32) value carry
    | asr => exact asr_far (Nat.le_refl 32) value carry
    | ror => exact AluResult.withCarry_shows value carry
  · rename_i some_
    obtain ⟨places, same⟩ : ∃ places, amount.toNat = places + 1 :=
      Nat.exists_eq_succ_of_ne_zero fun zero => some_ (BitVec.eq_of_toNat_eq zero)
    have near := amount.isLt
    rw [same] at near ⊢
    exact shiftPlaces_shows kind near value carry

/-- The barrel shifter has the result and the carry of the shift register, for every amount of a
byte and for every 5-bit field, where 0 stands for 32 places in LSR and ASR. -/
theorem shifts_serial (kind : ShiftKind) (value : Word) (carry : Bool) :
    (∀ amount : Byte, (shiftByRegister kind amount value carry).Shows
        (kind.step^[amount.toNat] (value, carry))) ∧
      ∀ amount : BitVec 5, (shiftImmediate kind amount value carry).Shows
        (kind.step^[kind.places amount] (value, carry)) :=
  ⟨fun amount => shiftByRegister_shows kind amount value carry,
    fun amount => shiftImmediate_shows kind amount value carry⟩

end ThumbMachine
