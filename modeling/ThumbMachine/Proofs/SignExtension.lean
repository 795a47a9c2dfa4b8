/-
Module: ThumbMachine.Proofs.SignExtension
Purpose: Sign extension by moving a field up against the top of a word and arithmetically down
  again, and the distances of branches that rest on it. The extended word denotes the one number
  that fits the field and is the word modulo the field's span; what becomes of extensions one after
  the other follows from that alone.
Main exports: signExtendLow_eq_signExtend, branchDistance_eq_ofInt, SignedField,
  eq_signExtendLow_iff, signExtendLow_exact
-/
import Mathlib.Algebra.Order.Ring.Int
import Mathlib.Data.Int.ModEq
import ThumbMachine.Instruction.Basic

namespace ThumbMachine

/-! ## Bits -/

/-- The low field of a word is read as a two's-complement number; what lies above it does not
matter. -/
theorem signExtendLow_eq_signExtend {width bits : Nat} (value : BitVec width) (some_ : 0 < bits)
    (within : bits ≤ width) :
    signExtendLow value bits = (value.setWidth bits).signExtend width := by
  apply BitVec.eq_of_getLsbD_eq
  intro position bound
  simp only [signExtendLow, BitVec.getLsbD_sshiftRight, BitVec.getLsbD_shiftLeft,
    BitVec.getLsbD_signExtend, BitVec.getLsbD_setWidth, BitVec.msb_eq_getLsbD_last]
  grind

/-- A branch goes by twice its signed number of halfwords. -/
theorem branchDistance_eq_ofInt {width : Nat} (halfwords : BitVec width) (within : width < 32) :
    branchDistance halfwords = BitVec.ofInt 32 (2 * halfwords.toInt) := by
  have field : (halfwords.setWidth 32 <<< 1).setWidth (width + 1) = halfwords ++ 0#1 := by
    apply BitVec.eq_of_getLsbD_eq
    intro position bound
    simp only [BitVec.getLsbD_setWidth, BitVec.getLsbD_shiftLeft, BitVec.getLsbD_append]
    grind
  rw [branchDistance, signExtendLow_eq_signExtend _ (Nat.succ_pos width) within, field,
    BitVec.signExtend, BitVec.toInt_append]
  cases width with
  | zero => simp [BitVec.toInt_zero_length]
  | succ width => simp

/-! ## Numbers -/

/-- A number in two's complement that the low `bits` bits of a word denote: it fits them, and it is
the word modulo their span. -/
structure SignedField {width : Nat} (value : BitVec width) (bits : Nat) (number : Int) : Prop where
  lower : -2 ^ (bits - 1) ≤ number
  upper : number < 2 ^ (bits - 1)
  congruent : number ≡ value.toNat [ZMOD 2 ^ bits]

variable {width bits : Nat}

theorem bmod_modEq (number : Int) (bits : Nat) :
    number.bmod (2 ^ bits) ≡ number [ZMOD 2 ^ bits] := by
  have span : ((2 ^ bits : Nat) : Int) = 2 ^ bits := Nat.cast_pow 2 bits
  rw [Int.ModEq, ← span, Int.bmod_emod]

/-- The two readings of a word agree modulo the span of any of its fields. -/
theorem toInt_modEq_toNat (value : BitVec width) (within : bits ≤ width) :
    value.toInt ≡ value.toNat [ZMOD 2 ^ bits] := by
  rw [BitVec.toInt_eq_toNat_bmod]
  exact (bmod_modEq value.toNat width).of_dvd (pow_dvd_pow 2 within)

/-- A field denotes no two numbers: they would differ by less than its span. -/
theorem SignedField.unique {value : BitVec width} {one two : Int} (some_ : 0 < bits)
    (first : SignedField value bits one) (second : SignedField value bits two) : one = two := by
  have halves : (2 : Int) ^ bits = 2 * 2 ^ (bits - 1) := (mul_pow_sub_one some_.ne' 2).symm
  have divides : 2 ^ bits ∣ one - two := (second.congruent.trans first.congruent.symm).dvd
  have close : |one - two| < 2 ^ bits := by
    obtain ⟨firstLower, firstUpper, -⟩ := first
    obtain ⟨secondLower, secondUpper, -⟩ := second
    rw [abs_lt]
    omega
  exact sub_eq_zero.1 (Int.eq_zero_of_abs_lt_dvd divides close)

theorem signedField_signExtendLow (value : BitVec width) (some_ : 0 < bits)
    (within : bits ≤ width) :
    SignedField value bits (signExtendLow value bits).toInt := by
  have field : (signExtendLow value bits).toInt = (value.setWidth bits).toInt := by
    rw [signExtendLow_eq_signExtend value some_ within, BitVec.toInt_signExtend_of_le within]
  rw [field]
  refine ⟨BitVec.le_toInt _, BitVec.toInt_lt, ?_⟩
  rw [BitVec.toInt_setWidth]
  exact bmod_modEq value.toNat bits

/-- The extended word is the one that denotes, as a whole, what the field denotes. -/
theorem eq_signExtendLow_iff {value result : BitVec width} (some_ : 0 < bits)
    (within : bits ≤ width) :
    result = signExtendLow value bits ↔ SignedField value bits result.toInt := by
  constructor
  · rintro rfl
    exact signedField_signExtendLow value some_ within
  · intro signed
    exact BitVec.toInt_inj.1 (signed.unique some_ (signedField_signExtendLow value some_ within))

theorem signExtendLow_congr {value other : BitVec width} (some_ : 0 < bits) (within : bits ≤ width)
    (same : ∀ position < bits, other.getLsbD position = value.getLsbD position) :
    signExtendLow other bits = signExtendLow value bits := by
  have field : other.setWidth bits = value.setWidth bits := by
    apply BitVec.eq_of_getLsbD_eq
    intro position inside
    rw [BitVec.getLsbD_setWidth, BitVec.getLsbD_setWidth, same position inside]
  rw [signExtendLow_eq_signExtend _ some_ within, signExtendLow_eq_signExtend _ some_ within, field]

/-- An extended word extended from fewer bits: these are still those of the first word. -/
theorem signExtendLow_signExtendLow_of_le {fewer : Nat} (value : BitVec width) (some_ : 0 < fewer)
    (narrower : fewer ≤ bits) (within : bits ≤ width) :
    signExtendLow (signExtendLow value bits) fewer = signExtendLow value fewer := by
  have inner := signedField_signExtendLow value (some_.trans_le narrower) within
  have outer := signedField_signExtendLow (signExtendLow value bits) some_ (narrower.trans within)
  refine (eq_signExtendLow_iff some_ (narrower.trans within)).2 ⟨outer.lower, outer.upper, ?_⟩
  calc (signExtendLow (signExtendLow value bits) fewer).toInt
      ≡ (signExtendLow value bits).toNat [ZMOD 2 ^ fewer] := outer.congruent
    _ ≡ (signExtendLow value bits).toInt [ZMOD 2 ^ fewer] :=
        (toInt_modEq_toNat _ (narrower.trans within)).symm
    _ ≡ value.toNat [ZMOD 2 ^ fewer] := inner.congruent.of_dvd (pow_dvd_pow 2 narrower)

/-- An extended word extended from more bits: its number fits these already. -/
theorem signExtendLow_signExtendLow_of_ge {more : Nat} (value : BitVec width) (some_ : 0 < bits)
    (wider : bits ≤ more) (within : more ≤ width) :
    signExtendLow (signExtendLow value bits) more = signExtendLow value bits := by
  have inner := signedField_signExtendLow value some_ (wider.trans within)
  have room : (2 : Int) ^ (bits - 1) ≤ 2 ^ (more - 1) :=
    pow_le_pow_right₀ (by decide) (Nat.sub_le_sub_right wider 1)
  symm
  refine (eq_signExtendLow_iff (some_.trans_le wider) within).2 ⟨?_, ?_, toInt_modEq_toNat _ within⟩
  · exact (neg_le_neg room).trans inner.lower
  · exact inner.upper.trans_le room

/-- Sign extension of a word of any width, from any number of its bits. It finds the word that
denotes the number of the field, and no other; bits above the field do not count; and of several
extensions, one after the other, only the one from the fewest bits does. -/
theorem signExtendLow_exact (value : BitVec width) (some_ : 0 < bits) (within : bits ≤ width) :
    (∀ result, result = signExtendLow value bits ↔ SignedField value bits result.toInt) ∧
      (∀ other : BitVec width,
        (∀ position < bits, other.getLsbD position = value.getLsbD position) →
        signExtendLow other bits = signExtendLow value bits) ∧
      signExtendLow (signExtendLow value bits) bits = signExtendLow value bits ∧
      ∀ more, 0 < more → more ≤ width →
        signExtendLow (signExtendLow value bits) more = signExtendLow value (min bits more) := by
  refine ⟨fun result => eq_signExtendLow_iff some_ within,
    fun other same => signExtendLow_congr some_ within same,
    signExtendLow_signExtendLow_of_le value some_ le_rfl within, fun more positive inside => ?_⟩
  rcases le_total bits more with wider | narrower
  · rw [min_eq_left wider]
    exact signExtendLow_signExtendLow_of_ge value some_ wider inside
  · rw [min_eq_right narrower]
    exact signExtendLow_signExtendLow_of_le value positive narrower within

/-- The 23 bits of a long branch, negative and with other bits above them. -/
theorem signExtendLow_exact_longBranch :
    0 < 23 ∧ 23 ≤ 32 ∧ signExtendLow 0x2A400000#32 23 = 0xFFC00000#32 ∧
      (∀ result, result = signExtendLow 0x2A400000#32 23 ↔
        SignedField 0x2A400000#32 23 result.toInt) ∧
      (∀ other : Word,
        (∀ position < 23, other.getLsbD position = (0x2A400000#32).getLsbD position) →
        signExtendLow other 23 = signExtendLow 0x2A400000#32 23) ∧
      signExtendLow (signExtendLow 0x2A400000#32 23) 23 = signExtendLow 0x2A400000#32 23 ∧
      ∀ more, 0 < more → more ≤ 32 →
        signExtendLow (signExtendLow 0x2A400000#32 23) more =
          signExtendLow 0x2A400000#32 (min 23 more) :=
  ⟨by decide, by decide, by decide, signExtendLow_exact 0x2A400000#32 (by decide) (by decide)⟩

end ThumbMachine
