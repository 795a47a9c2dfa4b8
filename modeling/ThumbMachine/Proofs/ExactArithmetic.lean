/-
Module: ThumbMachine.Proofs.ExactArithmetic
Purpose: Addition, subtraction and multiplication of words against the integers. A word is read in
  two ways, as a natural number and in two's complement. The result is the integer result modulo
  2^32 in both readings, the carry tells of the first and the overflow of the second. Everything
  about a sum follows from one equation, the value together with the carry being the sum of the
  operands; a difference is the sum with the complement.
Main exports: FitsWord, toNat_addWithCarry, subWithCarry_eq_add, AluResult.Computes,
  addWithCarry_computes, subWithCarry_computes, multiply_computes, arithmetic_exact
-/
import ThumbMachine.Arithmetic

namespace ThumbMachine

/-! ## The two readings of a word -/

/-- An integer is the two's-complement reading of some word. -/
def FitsWord (number : Int) : Prop := -0x80000000 ≤ number ∧ number < 0x80000000

instance (number : Int) : Decidable (FitsWord number) := inferInstanceAs (Decidable (_ ∧ _))

/-- The top bit tells the upper half of the words from the lower half. -/
theorem topBit_eq_decide (value : Word) : value.getLsbD 31 = decide (0x80000000 ≤ value.toNat) :=
  BitVec.msb_eq_decide value

/-- In two's complement the upper half of the words are the negative numbers. -/
theorem toInt_eq_ite (value : Word) :
    value.toInt =
      if 0x80000000 ≤ value.toNat then (value.toNat : Int) - 0x100000000 else value.toNat := by
  rw [BitVec.toInt_eq_toNat_cond]
  split <;> split <;> omega

theorem fitsWord_toInt (value : Word) : FitsWord value.toInt :=
  ⟨value.le_toInt, value.toInt_lt⟩

theorem topBit_iff_neg (value : Word) : value.getLsbD 31 ↔ value.toInt < 0 := by
  have bound := value.isLt
  rw [topBit_eq_decide, decide_eq_true_iff, toInt_eq_ite]
  split <;> omega

/-- The complement of a word in both readings. -/
theorem toNat_complement (value : Word) : (~~~value).toNat = 0xFFFFFFFF - value.toNat :=
  BitVec.toNat_not

theorem toInt_complement (value : Word) : (~~~value).toInt = -value.toInt - 1 := by
  have bound := value.isLt
  rw [toInt_eq_ite, toInt_eq_ite, toNat_complement]
  split <;> split <;> omega

/-- A word that is a number modulo 2^32 reads as that number exactly when the number fits. -/
theorem toInt_eq_iff_fitsWord {value : Word} {number : Int}
    (congruent : (value.toNat : Int) = number % 0x100000000) :
    value.toInt = number ↔ FitsWord number := by
  have bound := value.isLt
  rw [toInt_eq_ite, FitsWord]
  split <;> omega

/-! ## What a result has to show -/

namespace AluResult

/-- The sign and the zero flag of a result are those of its value. -/
structure Marked (outcome : AluResult) : Prop where
  sign : outcome.sign = outcome.value.getLsbD 31
  negative : outcome.sign ↔ outcome.value.toInt < 0
  zero : outcome.zero ↔ outcome.value = 0

/-- A result that takes both flags from a plain one of its value, whatever becomes of carry and
overflow. -/
theorem Marked.of_withCarry {outcome : AluResult}
    (sign : outcome.sign = (withCarry outcome.value false).sign)
    (zero : outcome.zero = (withCarry outcome.value false).zero) : outcome.Marked where
  sign := sign
  negative := by
    rw [sign]
    exact topBit_iff_neg outcome.value
  zero := by
    rw [zero]
    exact beq_iff_eq

theorem marked_withCarry (value : Word) (carry : Bool) : (withCarry value carry).Marked :=
  .of_withCarry rfl rfl

/-- A result shows the outcome of a computation: `unsigned` when the operands are read as natural
numbers, `signed` when they are read in two's complement. -/
structure Computes (outcome : AluResult) (unsigned signed : Int) (carry overflow : Prop) :
    Prop where
  value : (outcome.value.toNat : Int) = unsigned % 0x100000000
  /-- Both readings of the operands lead to the same word. -/
  signed : (outcome.value.toNat : Int) = signed % 0x100000000
  carry : outcome.carry ↔ carry
  overflow : outcome.overflow ↔ overflow
  marked : outcome.Marked

end AluResult

/-! ## Addition -/

theorem toNat_wideSum (left right : Word) (carry : Bool) :
    (wideSum left right carry).toNat = left.toNat + right.toNat + carry.toNat := by
  have one := left.isLt
  have other := right.isLt
  have least := carry.toNat_le
  rw [wideSum]
  simp only [BitVec.toNat_add, BitVec.toNat_setWidth, BitVec.toNat_ofBool]
  omega

/-- The carry out of a sum on 33 bits. -/
theorem wideBit_eq_decide (wide : BitVec 33) :
    wide.getLsbD 32 = decide (0x100000000 ≤ wide.toNat) :=
  BitVec.msb_eq_decide wide

/-- Nothing is lost in an addition: the value and the carry together are the sum. -/
theorem toNat_addWithCarry (left right : Word) (carry : Bool) :
    (addWithCarry left right carry).value.toNat +
        0x100000000 * (addWithCarry left right carry).carry.toNat =
      left.toNat + right.toNat + carry.toNat := by
  have bound := (wideSum left right carry).isLt
  rw [← toNat_wideSum]
  dsimp only [addWithCarry, AluResult.withCarry]
  rw [wideBit_eq_decide, BitVec.toNat_setWidth]
  by_cases wide : 0x100000000 ≤ (wideSum left right carry).toNat
  · rw [decide_eq_true wide, Bool.toNat_true]
    omega
  · rw [decide_eq_false wide, Bool.toNat_false]
    omega

/-- The overflow of an addition: the operands agree in a sign that the value does not have. -/
theorem overflow_addWithCarry (left right : Word) (carry : Bool) :
    (addWithCarry left right carry).overflow ↔
      left.getLsbD 31 = right.getLsbD 31 ∧
        left.getLsbD 31 ≠ (addWithCarry left right carry).value.getLsbD 31 := by
  have bits : (addWithCarry left right carry).overflow =
      ((left.getLsbD 31 ^^ (addWithCarry left right carry).value.getLsbD 31) &&
        (right.getLsbD 31 ^^ (addWithCarry left right carry).value.getLsbD 31)) := by
    simp only [← BitVec.getLsbD_xor, ← BitVec.getLsbD_and]
    rfl
  rw [bits]
  cases left.getLsbD 31 <;> cases right.getLsbD 31 <;>
    cases (addWithCarry left right carry).value.getLsbD 31 <;> simp

theorem marked_addWithCarry (left right : Word) (carry : Bool) :
    (addWithCarry left right carry).Marked :=
  .of_withCarry rfl rfl

theorem addWithCarry_computes (left right : Word) (carry : Bool) :
    (addWithCarry left right carry).Computes (left.toNat + right.toNat + carry.toNat)
      (left.toInt + right.toInt + carry.toNat)
      (0x100000000 ≤ left.toNat + right.toNat + carry.toNat)
      (¬ FitsWord (left.toInt + right.toInt + carry.toNat)) := by
  have sum := toNat_addWithCarry left right carry
  have overflow := overflow_addWithCarry left right carry
  have marked := marked_addWithCarry left right carry
  generalize addWithCarry left right carry = outcome at *
  have bound := outcome.value.isLt
  have one := left.isLt
  have other := right.isLt
  have least := carry.toNat_le
  constructor
  case value => omega
  case signed =>
    rw [toInt_eq_ite, toInt_eq_ite]
    split <;> split <;> omega
  case carry =>
    cases out : outcome.carry with
    | false =>
        rw [out, Bool.toNat_false] at sum
        simp only [Bool.false_eq_true, false_iff]
        omega
    | true =>
        rw [out, Bool.toNat_true] at sum
        simp only [true_iff]
        omega
  case overflow =>
    have most := outcome.carry.toNat_le
    rw [overflow]
    simp only [topBit_eq_decide, ne_eq, decide_eq_decide, FitsWord, toInt_eq_ite]
    split <;> split <;> omega
  case marked => exact marked

/-! ## Subtraction -/

/-- A subtraction is the addition of the complement, overflow included. -/
theorem subWithCarry_eq_add (left right : Word) (carry : Bool) :
    subWithCarry left right carry = addWithCarry left (~~~right) carry := by
  simp only [subWithCarry, addWithCarry, AluResult.mk.injEq, true_and, and_true]
  generalize (wideSum left (~~~right) carry).setWidth 32 = value
  simp only [BitVec.getLsbD_and, BitVec.getLsbD_xor, BitVec.getLsbD_not]
  cases left.getLsbD 31 <;> cases right.getLsbD 31 <;> cases value.getLsbD 31 <;> rfl

/-- The incoming carry of a subtraction says that nothing is borrowed. -/
theorem subWithCarry_computes (left right : Word) (carry : Bool) :
    (subWithCarry left right carry).Computes (left.toNat - right.toNat - (1 - carry.toNat))
      (left.toInt - right.toInt - (1 - carry.toNat))
      (right.toNat + (1 - carry.toNat) ≤ left.toNat)
      (¬ FitsWord (left.toInt - right.toInt - (1 - carry.toNat))) := by
  have computes := addWithCarry_computes left (~~~right) carry
  rw [← subWithCarry_eq_add] at computes
  have bound := right.isLt
  have least := carry.toNat_le
  have signed : left.toInt + (~~~right).toInt + carry.toNat =
      left.toInt - right.toInt - (1 - carry.toNat) := by
    rw [toInt_complement]
    omega
  rw [signed, toNat_complement] at computes
  exact {
    value := by rw [computes.value]; omega
    signed := computes.signed
    carry := by rw [computes.carry]; omega
    overflow := computes.overflow
    marked := computes.marked }

/-- A subtraction that borrows nothing from before. -/
theorem sub_computes (left right : Word) :
    (sub left right).Computes (left.toNat - right.toNat) (left.toInt - right.toInt)
      (right.toNat ≤ left.toNat) (¬ FitsWord (left.toInt - right.toInt)) := by
  simpa [sub] using subWithCarry_computes left right true

/-! ## Multiplication -/

/-- The low word of a product is the same for both readings of the factors. -/
theorem toNat_mul_eq_emod (left right : Word) :
    ((left * right).toNat : Int) = left.toInt * right.toInt % 0x100000000 := by
  have bound := (left * right).isLt
  have reduced : (left * right).toInt = (left.toInt * right.toInt).bmod 0x100000000 :=
    BitVec.toInt_mul left right
  have congruent : (left * right).toInt % (0x100000000 : Nat) =
      left.toInt * right.toInt % (0x100000000 : Nat) := reduced ▸ Int.bmod_emod
  rw [toInt_eq_ite] at congruent
  split at congruent <;> omega

theorem multiply_computes (left right : Word) (carry : Bool) :
    (multiply left right carry).Computes (left.toNat * right.toNat) (left.toInt * right.toInt)
      (carry ∨ ¬ FitsWord (left.toInt * right.toInt)) False := by
  have signed := toNat_mul_eq_emod left right
  constructor
  case value =>
    change ((left * right).toNat : Int) = _
    rw [BitVec.toNat_mul]
    omega
  case signed => exact signed
  case carry =>
    change (carry || (left * right).toInt != left.toInt * right.toInt) ↔ _
    rw [Bool.or_eq_true, bne_iff_ne, ne_eq, toInt_eq_iff_fitsWord signed]
  case overflow => simp [multiply, AluResult.withCarry]
  case marked => exact AluResult.marked_withCarry _ _

/-- The arithmetic of words is that of the integers modulo 2^32. A sum carries when it needs a 33rd
bit, a difference when nothing is borrowed, a product when its signed reading does not fit or a
carry came in; sum and difference overflow when their signed reading does not fit, a product
never. -/
theorem arithmetic_exact (left right : Word) (carry : Bool) :
    (addWithCarry left right carry).Computes (left.toNat + right.toNat + carry.toNat)
        (left.toInt + right.toInt + carry.toNat)
        (0x100000000 ≤ left.toNat + right.toNat + carry.toNat)
        (¬ FitsWord (left.toInt + right.toInt + carry.toNat)) ∧
      (subWithCarry left right carry).Computes (left.toNat - right.toNat - (1 - carry.toNat))
        (left.toInt - right.toInt - (1 - carry.toNat))
        (right.toNat + (1 - carry.toNat) ≤ left.toNat)
        (¬ FitsWord (left.toInt - right.toInt - (1 - carry.toNat))) ∧
      (multiply left right carry).Computes (left.toNat * right.toNat) (left.toInt * right.toInt)
        (carry ∨ ¬ FitsWord (left.toInt * right.toInt)) False :=
  ⟨addWithCarry_computes left right carry, subWithCarry_computes left right carry,
    multiply_computes left right carry⟩

example : subWithCarry 0x80000000 0x7FFFFFFF false = ⟨0, true, true, false, true⟩ := by decide

end ThumbMachine
