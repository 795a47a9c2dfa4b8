/-
Module: ThumbMachine.Proofs.Checked.Arithmetic
Purpose: The arithmetic and the barrel shifter once more, on machine words with their checks: sums
  on 64 bits, differences that stay above zero, shifts by less than the width. No check fails, and
  the results are those of the plain definitions.
Main exports: Checked.addWithCarry_eq, Checked.subWithCarry_eq, Checked.multiply_eq,
  Checked.shiftImmediate_eq, Checked.shiftByRegister_eq
-/
import ThumbMachine.Proofs.Checked.Primitives
import ThumbMachine.Proofs.ExactArithmetic
import ThumbMachine.Shifter

namespace ThumbMachine

namespace Checked

/-! ## Single bits of a word -/

/-- Whether the top bit of a word is set. -/
def topBit (value : Word) : Checked Bool := do
  let top ← shiftDown value 31
  return top == 1#32

/-- Whether the bit a number of places above the lowest is set. -/
def placedBit (value : Word) (places : Nat) : Checked Bool := do
  let moved ← shiftDown value places
  return moved &&& 1#32 == 1#32

theorem topBit_eq (value : Word) : topBit value = .ok (value.getLsbD 31) := by
  have single : value >>> 31 = value >>> 31 &&& 1#32 := by
    apply BitVec.eq_of_getLsbD_eq
    intro position bound
    rw [BitVec.getLsbD_and, BitVec.getLsbD_ushiftRight, BitVec.getLsbD_one]
    by_cases bottom : position = 0
    · simp [bottom]
    · rw [BitVec.getLsbD_of_ge value _ (by omega), Bool.false_and]
  rw [topBit, shiftDown_eq (by decide), ok_bind, single, and_one_beq (by decide)]
  rfl

theorem placedBit_eq (value : Word) {places : Nat} (near : places < 32) :
    placedBit value places = .ok (value.getLsbD places) := by
  rw [placedBit, shiftDown_eq near, ok_bind, and_one_beq near]
  rfl

/-! ## Addition, subtraction, multiplication -/

/-- A word with a carry; there is no overflow. -/
def withCarry (value : Word) (carry : Bool) : Checked AluResult := do
  let sign ← topBit value
  return { value, carry, overflow := false, sign, zero := value == 0 }

/-- The sum of two words and a carry on 64 bits. -/
def wideSum (left right : Word) (carry : Bool) : Checked Nat := do
  let both ← sum64 left.toNat right.toNat
  sum64 both carry.toNat

/-- Addition with carry. -/
def addWithCarry (left right : Word) (carry : Bool) : Checked AluResult := do
  let wide ← wideSum left right carry
  let value := BitVec.ofNat 32 wide
  let overflow ← topBit ((left ^^^ value) &&& (right ^^^ value))
  let plain ← withCarry value false
  return { plain with carry := decide (0xFFFFFFFF < wide), overflow }

/-- Subtraction with borrow, by adding the complement. -/
def subWithCarry (left right : Word) (carry : Bool) : Checked AluResult := do
  let wide ← wideSum left (~~~right) carry
  let value := BitVec.ofNat 32 wide
  let overflow ← topBit ((left ^^^ right) &&& (left ^^^ value))
  let plain ← withCarry value false
  return { plain with carry := decide (0xFFFFFFFF < wide), overflow }

/-- Addition without a carry. -/
def add (left right : Word) : Checked AluResult := addWithCarry left right false

/-- Subtraction without a borrow. -/
def sub (left right : Word) : Checked AluResult := subWithCarry left right true

/-- The low word of a product; the carry also tells that the signed product does not fit. -/
def multiply (left right : Word) (carry : Bool) : Checked AluResult := do
  let value := left * right
  let full ← signedProduct64 left.toInt right.toInt
  withCarry value (carry || value.toInt != full)

theorem withCarry_eq (value : Word) (carry : Bool) :
    withCarry value carry = .ok (AluResult.withCarry value carry) := by
  rw [withCarry, topBit_eq]
  rfl

theorem wideSum_eq (left right : Word) (carry : Bool) :
    wideSum left right carry = .ok (ThumbMachine.wideSum left right carry).toNat := by
  have one := left.isLt
  have other := right.isLt
  have least := carry.toNat_le
  rw [wideSum, sum64_eq (by omega), ok_bind, sum64_eq (by omega), toNat_wideSum]

/-- The low word of a wide sum and its carry, read off the number. -/
theorem wide_parts (wide : BitVec 33) :
    BitVec.ofNat 32 wide.toNat = wide.setWidth 32 ∧
      decide (0xFFFFFFFF < wide.toNat) = wide.getLsbD 32 := by
  constructor
  · rfl
  · rw [wideBit_eq_decide, decide_eq_decide]
    omega

theorem addWithCarry_eq (left right : Word) (carry : Bool) :
    addWithCarry left right carry = .ok (ThumbMachine.addWithCarry left right carry) := by
  obtain ⟨low, high⟩ := wide_parts (ThumbMachine.wideSum left right carry)
  rw [addWithCarry, wideSum_eq, ok_bind, low, high]
  dsimp only
  rw [topBit_eq, ok_bind, withCarry_eq]
  rfl

theorem subWithCarry_eq (left right : Word) (carry : Bool) :
    subWithCarry left right carry = .ok (ThumbMachine.subWithCarry left right carry) := by
  obtain ⟨low, high⟩ := wide_parts (ThumbMachine.wideSum left (~~~right) carry)
  rw [subWithCarry, wideSum_eq, ok_bind, low, high]
  dsimp only
  rw [topBit_eq, ok_bind, withCarry_eq]
  rfl

theorem add_eq (left right : Word) : add left right = .ok (ThumbMachine.add left right) :=
  addWithCarry_eq left right false

theorem sub_eq (left right : Word) : sub left right = .ok (ThumbMachine.sub left right) :=
  subWithCarry_eq left right true

/-- The product of two signed words fits into 64 bits. -/
theorem natAbs_toInt_le (value : Word) : value.toInt.natAbs ≤ 0x80000000 := by
  obtain ⟨low, high⟩ := fitsWord_toInt value
  omega

theorem signedProduct64_eq (left right : Word) :
    signedProduct64 left.toInt right.toInt = .ok (left.toInt * right.toInt) := by
  have product := Nat.mul_le_mul (natAbs_toInt_le left) (natAbs_toInt_le right)
  rw [← Int.natAbs_mul] at product
  rw [signedProduct64, ensure_of (by omega)]
  rfl

theorem multiply_eq (left right : Word) (carry : Bool) :
    multiply left right carry = .ok (ThumbMachine.multiply left right carry) := by
  rw [multiply, signedProduct64_eq, ok_bind, withCarry_eq]
  rfl

/-! ## The barrel shifter -/

/-- A shift by an amount below 32, where 0 stands for 32 places in LSR and ASR. -/
def shiftImmediate (kind : ShiftKind) (amount : Nat) (value : Word) (carry : Bool) :
    Checked AluResult :=
  match kind with
  | .lsl =>
      if amount = 0 then withCarry value carry
      else do
        let moved ← shiftUp value amount
        let last ← difference 32 amount
        withCarry moved (← placedBit value last)
  | .lsr =>
      if amount = 0 then do withCarry 0 (← topBit value)
      else do
        let moved ← shiftDown value amount
        let last ← difference amount 1
        withCarry moved (← placedBit value last)
  | .asr =>
      if amount = 0 then do
        let filled ← shiftDownSigned value 31
        withCarry filled (← topBit value)
      else do
        let moved ← shiftDownSigned value amount
        let last ← difference amount 1
        withCarry moved (← placedBit value last)
  | .ror =>
      if amount = 0 then withCarry value carry
      else do
        let last ← difference amount 1
        withCarry (value.rotateRight amount) (← placedBit value last)

/-- A shift by the low byte of a register. -/
def shiftByRegister (kind : ShiftKind) (amount : Nat) (value : Word) (carry : Bool) :
    Checked AluResult :=
  if amount = 0 then withCarry value carry
  else
    match kind with
    | .lsl =>
        if amount ≤ 31 then shiftImmediate .lsl amount value carry
        else if amount = 32 then withCarry 0 (value &&& 1#32 == 1#32)
        else withCarry 0 false
    | .lsr =>
        if amount ≤ 31 then shiftImmediate .lsr amount value carry
        else if amount = 32 then do withCarry 0 (← topBit value)
        else withCarry 0 false
    | .asr =>
        if amount ≤ 31 then shiftImmediate .asr amount value carry
        else do
          let filled ← shiftDownSigned value 31
          withCarry filled (← topBit value)
    | .ror =>
        if amount &&& 31 = 0 then do withCarry value (← topBit value)
        else shiftImmediate .ror (amount &&& 31) value carry

/-- A shift by 1 to 31 places. -/
theorem shiftImmediate_places (kind : ShiftKind) {places : Nat} (some_ : 0 < places)
    (near : places < 32) (value : Word) (carry : Bool) :
    shiftImmediate kind places value carry = .ok (shiftPlaces kind places value) := by
  have within : 32 - places < 32 := by omega
  have last : places - 1 < 32 := by omega
  have positive : places ≠ 0 := Nat.ne_of_gt some_
  cases kind with
  | lsl =>
      rw [shiftImmediate, if_neg positive, shiftUp_eq near, ok_bind,
        difference_eq (Nat.le_of_lt near), ok_bind, placedBit_eq _ within, ok_bind, withCarry_eq,
        shiftPlaces]
  | lsr =>
      rw [shiftImmediate, if_neg positive, shiftDown_eq near, ok_bind, difference_eq some_, ok_bind,
        placedBit_eq _ last, ok_bind, withCarry_eq, shiftPlaces]
  | asr =>
      rw [shiftImmediate, if_neg positive, shiftDownSigned_eq near, ok_bind, difference_eq some_,
        ok_bind, placedBit_eq _ last, ok_bind, withCarry_eq, shiftPlaces]
  | ror =>
      rw [shiftImmediate, if_neg positive, difference_eq some_, ok_bind, placedBit_eq _ last,
        ok_bind, withCarry_eq, shiftPlaces]

/-- Every bit a copy of the sign, which is also the carry. -/
theorem signFill_eq (value : Word) :
    (do
      let filled ← shiftDownSigned value 31
      withCarry filled (← topBit value)) = .ok (signFill value) := by
  rw [shiftDownSigned_eq (by decide), ok_bind, topBit_eq, ok_bind, withCarry_eq, signFill]

/-- Every 5-bit amount is near enough. -/
theorem shiftImmediate_eq (kind : ShiftKind) (amount : BitVec 5) (value : Word) (carry : Bool) :
    shiftImmediate kind amount.toNat value carry =
      .ok (ThumbMachine.shiftImmediate kind amount value carry) := by
  rw [ThumbMachine.shiftImmediate.eq_def]
  split
  · rename_i none_
    subst none_
    cases kind with
    | lsl => exact withCarry_eq value carry
    | lsr =>
        change (do withCarry 0 (← topBit value)) = _
        rw [topBit_eq, ok_bind, withCarry_eq]
    | asr => exact signFill_eq value
    | ror => exact withCarry_eq value carry
  · rename_i some_
    have positive : 0 < amount.toNat := by
      rw [Nat.pos_iff_ne_zero]
      exact fun none_ => some_ (BitVec.eq_of_toNat_eq none_)
    exact shiftImmediate_places kind positive amount.isLt value carry

/-- The low five bits of an amount. -/
theorem and_31 (amount : Nat) : amount &&& 31 = amount % 32 :=
  Nat.and_two_pow_sub_one_eq_mod amount 5

/-- A shift by a register that holds 1 to 31 is one by as many places. -/
theorem shiftByRegister_near (kind : ShiftKind) {amount : Nat} (some_ : 0 < amount)
    (near : amount < 32) (value : Word) (carry : Bool) :
    shiftByRegister kind amount value carry = .ok (shiftPlaces kind amount value) := by
  have moved := shiftImmediate_places kind some_ near value carry
  have inside : amount ≤ 31 := Nat.le_of_lt_succ near
  have positive : amount ≠ 0 := Nat.ne_of_gt some_
  rw [shiftByRegister.eq_def, if_neg positive]
  cases kind with
  | lsl => exact (if_pos inside).trans moved
  | lsr => exact (if_pos inside).trans moved
  | asr => exact (if_pos inside).trans moved
  | ror =>
      dsimp only
      rw [and_31, Nat.mod_eq_of_lt near, if_neg positive]
      exact moved

/-- Amounts of 32 and more are not shifted by. -/
theorem shiftByRegister_eq (kind : ShiftKind) (amount : Byte) (value : Word) (carry : Bool) :
    shiftByRegister kind amount.toNat value carry =
      .ok (ThumbMachine.shiftByRegister kind amount value carry) := by
  have lowest : (value &&& 1#32 == 1#32) = value.getLsbD 0 := by
    have bit := and_one_beq (show 0 < 32 by decide) value
    rwa [BitVec.ushiftRight_zero] at bit
  rw [ThumbMachine.shiftByRegister.eq_def]
  by_cases none_ : amount = 0
  · have zero : amount.toNat = 0 := by rw [none_]; rfl
    rw [shiftByRegister.eq_def, if_pos zero, if_pos none_, withCarry_eq]
  · have some_ : amount.toNat ≠ 0 := fun zero => none_ (BitVec.eq_of_toNat_eq zero)
    rw [if_neg none_]
    by_cases near : amount.toNat < 32
    · rw [if_pos near, shiftByRegister_near kind (Nat.pos_of_ne_zero some_) near]
    · have far : ¬ amount.toNat ≤ 31 := by omega
      rw [if_neg near, shiftByRegister.eq_def, if_neg some_]
      cases kind with
      | lsl =>
          dsimp only
          rw [if_neg far]
          split
          · rename_i full
            rw [withCarry_eq, lowest, full]
            rfl
          · rename_i beyond
            rw [withCarry_eq, beq_eq_false_iff_ne.2 beyond]
            rfl
      | lsr =>
          dsimp only
          rw [if_neg far]
          split
          · rename_i full
            rw [topBit_eq, ok_bind, withCarry_eq, full]
            rfl
          · rename_i beyond
            rw [withCarry_eq, beq_eq_false_iff_ne.2 beyond]
            rfl
      | asr => exact (if_neg far).trans (signFill_eq value)
      | ror =>
          dsimp only
          rw [and_31]
          split
          · rw [topBit_eq, ok_bind, withCarry_eq]
          · rename_i part
            have near : amount % 32 < 32 := Nat.mod_lt _ (by decide)
            exact shiftImmediate_places .ror (Nat.pos_of_ne_zero part) near value carry

end Checked

end ThumbMachine
