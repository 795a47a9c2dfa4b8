/-
Module: ThumbMachine.Proofs.Checked.Primitives
Purpose: Evaluation that stops at the first check that fails. Each operation on numbers of a fixed
  width comes with the check that a debug build makes before it, and with what it comes to where the
  check passes.
Main exports: Breach, Checked, Checked.ensure, Checked.sum, Checked.shiftUp, Checked.bitAt,
  Checked.fieldAt, Checked.extendSign, Checked.slotAt
-/
import ThumbMachine.RegisterFile

namespace ThumbMachine

/-- The checks that end a program when they fail. -/
inductive Breach where
  /-- R15 was written as a general register. -/
  | pcWritten
  /-- A number names no register. -/
  | registerMissing
  /-- A shift by as many places as the value has, or more. -/
  | shiftTooFar
  /-- A bit index outside the value. -/
  | bitOutside
  /-- A bit range outside the value. -/
  | fieldOutside
  /-- A sign extension from no bit, or from more bits than the value has. -/
  | signOutside
  /-- A sum, difference or product that its type cannot hold. -/
  | overflow
  /-- A remainder by zero. -/
  | zeroDivisor
  /-- A number names no region. -/
  | regionMissing
  /-- A range outside the bytes of a region. -/
  | sliceOutside
  /-- Bytes copied over a range of another length. -/
  | lengthMismatch
  /-- A turn that brings a batch no nearer to its end. -/
  | stalled
deriving DecidableEq, Repr

/-- An evaluation that a failing check stops. -/
abbrev Checked (α : Type) := Except Breach α

namespace Checked

@[simp] theorem ok_bind {α β : Type} (value : α) (next : α → Checked β) :
    (Except.ok value >>= next) = next value := rfl

/-- Goes on where a condition holds. -/
def ensure (condition : Prop) [Decidable condition] (breach : Breach) : Checked Unit :=
  if condition then .ok () else .error breach

theorem ensure_of {condition : Prop} [Decidable condition] (holds : condition) (breach : Breach) :
    ensure condition breach = .ok () := if_pos holds

/-! ## Natural numbers below a limit -/

/-- A sum below a limit. -/
def sum (limit left right : Nat) : Checked Nat := do
  ensure (left + right < limit) .overflow
  return left + right

/-- A sum of 32 bits. -/
def sum32 : Nat → Nat → Checked Nat := sum 0x100000000

/-- A sum of 64 bits. -/
def sum64 : Nat → Nat → Checked Nat := sum 0x10000000000000000

/-- A product of 64 bits. -/
def product64 (left right : Nat) : Checked Nat := do
  ensure (left * right < 0x10000000000000000) .overflow
  return left * right

/-- A product of signed numbers on 64 bits. -/
def signedProduct64 (left right : Int) : Checked Int := do
  ensure (-0x8000000000000000 ≤ left * right ∧ left * right < 0x8000000000000000) .overflow
  return left * right

/-- A difference of numbers that cannot be negative. -/
def difference (left right : Nat) : Checked Nat := do
  ensure (right ≤ left) .overflow
  return left - right

/-- A remainder. -/
def remainder (left right : Nat) : Checked Nat := do
  ensure (right ≠ 0) .zeroDivisor
  return left % right

section

variable {left right : Nat}

theorem sum32_eq (small : left + right < 0x100000000) : sum32 left right = .ok (left + right) := by
  rw [sum32, sum, ensure_of small]
  rfl

theorem sum64_eq (small : left + right < 0x10000000000000000) :
    sum64 left right = .ok (left + right) := by
  rw [sum64, sum, ensure_of small]
  rfl

theorem product64_eq (small : left * right < 0x10000000000000000) :
    product64 left right = .ok (left * right) := by
  rw [product64, ensure_of small]
  rfl

theorem difference_eq (ordered : right ≤ left) : difference left right = .ok (left - right) := by
  rw [difference, ensure_of ordered]
  rfl

theorem remainder_eq (some_ : right ≠ 0) : remainder left right = .ok (left % right) := by
  rw [remainder, ensure_of some_]
  rfl

end

/-! ## Words of bits -/

section

variable {width : Nat}

/-- A shift towards the top. -/
def shiftUp (value : BitVec width) (places : Nat) : Checked (BitVec width) := do
  ensure (places < width) .shiftTooFar
  return value <<< places

/-- A shift towards the bottom. -/
def shiftDown (value : BitVec width) (places : Nat) : Checked (BitVec width) := do
  ensure (places < width) .shiftTooFar
  return value >>> places

/-- A shift towards the bottom that copies the sign. -/
def shiftDownSigned (value : BitVec width) (places : Nat) : Checked (BitVec width) := do
  ensure (places < width) .shiftTooFar
  return value.sshiftRight places

/-- One bit of a value. -/
def bitAt (value : BitVec width) (index : Nat) : Checked Bool := do
  ensure (index < width) .bitOutside
  let moved ← shiftDown value index
  return moved &&& BitVec.ofNat width 1 == BitVec.ofNat width 1

/-- The bits of a value from one index to another, both included. -/
def fieldAt (value : BitVec width) (first last : Nat) : Checked (BitVec width) := do
  let span ← difference last first
  let length ← sum32 span 1
  let stop ← sum32 first length
  ensure (stop ≤ width) .fieldOutside
  let moved ← shiftDown value first
  if length = width then
    return moved
  else
    let top ← shiftUp (BitVec.ofNat width 1) length
    let mask ← difference top.toNat 1
    return moved &&& BitVec.ofNat width mask

/-- The low bits of a value read as a number with a sign. -/
def extendSign (value : BitVec width) (bits : Nat) : Checked (BitVec width) := do
  ensure (0 < bits ∧ bits ≤ width) .signOutside
  let unused ← difference width bits
  let raised ← shiftUp value unused
  shiftDownSigned raised unused

variable {places index bits : Nat}

theorem shiftUp_eq (near : places < width) (value : BitVec width) :
    shiftUp value places = .ok (value <<< places) := by
  rw [shiftUp, ensure_of near]
  rfl

theorem shiftDown_eq (near : places < width) (value : BitVec width) :
    shiftDown value places = .ok (value >>> places) := by
  rw [shiftDown, ensure_of near]
  rfl

theorem shiftDownSigned_eq (near : places < width) (value : BitVec width) :
    shiftDownSigned value places = .ok (value.sshiftRight places) := by
  rw [shiftDownSigned, ensure_of near]
  rfl

/-- What is left of a value under the mask of its lowest bit. -/
theorem and_one_beq (inside : index < width) (value : BitVec width) :
    (value >>> index &&& BitVec.ofNat width 1 == BitVec.ofNat width 1) = value.getLsbD index := by
  have wide : 0 < width := Nat.zero_lt_of_lt inside
  have lowest : (value >>> index &&& BitVec.ofNat width 1) =
      if value.getLsbD index then BitVec.ofNat width 1 else BitVec.ofNat width 0 := by
    apply BitVec.eq_of_getLsbD_eq
    intro position bound
    rw [BitVec.getLsbD_and, BitVec.getLsbD_ushiftRight, BitVec.getLsbD_one]
    by_cases bottom : position = 0
    · cases set : value.getLsbD index <;> simp [bottom, wide, set]
    · split <;> simp [bottom, BitVec.getLsbD_one]
  have apart : (BitVec.ofNat width 0 == BitVec.ofNat width 1) = false := by
    rw [beq_eq_false_iff_ne]
    intro same
    have numbers := congrArg BitVec.toNat same
    rw [BitVec.toNat_one wide] at numbers
    simp at numbers
  rw [lowest]
  cases value.getLsbD index with
  | true => exact beq_self_eq_true _
  | false => exact apart

theorem bitAt_eq (inside : index < width) (value : BitVec width) :
    bitAt value index = .ok (value.getLsbD index) := by
  rw [bitAt, ensure_of inside, ok_bind, shiftDown_eq inside, ok_bind, and_one_beq inside]
  rfl

theorem extendSign_eq (some_ : 0 < bits) (inside : bits ≤ width) (value : BitVec width) :
    extendSign value bits = .ok (signExtendLow value bits) := by
  have near : width - bits < width := by omega
  rw [extendSign, ensure_of ⟨some_, inside⟩, ok_bind, difference_eq inside, ok_bind,
    shiftUp_eq near, ok_bind, shiftDownSigned_eq near, signExtendLow]

theorem toNat_one_shiftLeft (near : places < width) :
    (BitVec.ofNat width 1 <<< places).toNat = Nat.pow 2 places := by
  rw [BitVec.toNat_shiftLeft, BitVec.toNat_one (Nat.zero_lt_of_lt near), Nat.shiftLeft_eq,
    Nat.one_mul]
  exact Nat.mod_eq_of_lt (Nat.pow_lt_pow_right Nat.one_lt_two near)

/-- The bits from one index to another, with zeros above them. -/
theorem fieldAt_eq {first last : Nat} (ordered : first ≤ last) (inside : last < width)
    (small : width < 0x100000000) (value : BitVec width) :
    fieldAt value first last =
      .ok ((value.extractLsb' first (last - first + 1)).setWidth width) := by
  rw [fieldAt, difference_eq ordered, ok_bind, sum32_eq (by omega), ok_bind, sum32_eq (by omega),
    ok_bind, ensure_of (by omega), ok_bind, shiftDown_eq (by omega), ok_bind]
  split
  · rename_i whole
    have bottom : first = 0 := by omega
    subst bottom
    apply congrArg
    apply BitVec.eq_of_getLsbD_eq
    intro position bound
    have low : position < last - 0 + 1 := by omega
    rw [BitVec.getLsbD_ushiftRight, BitVec.getLsbD_setWidth, BitVec.getLsbD_extractLsb',
      decide_eq_true bound, decide_eq_true low, Bool.true_and, Bool.true_and]
  · rename_i part
    have near : last - first + 1 < width := by omega
    have some_ : 1 ≤ Nat.pow 2 (last - first + 1) := Nat.two_pow_pos _
    rw [shiftUp_eq near, ok_bind, toNat_one_shiftLeft near, difference_eq some_, ok_bind]
    apply congrArg
    apply BitVec.eq_of_getLsbD_eq
    intro position bound
    have masked : (Nat.pow 2 (last - first + 1) - 1).testBit position =
        decide (position < last - first + 1) := Nat.testBit_two_pow_sub_one _ _
    rw [BitVec.getLsbD_and, BitVec.getLsbD_ushiftRight, BitVec.getLsbD_ofNat, masked,
      BitVec.getLsbD_setWidth, BitVec.getLsbD_extractLsb', decide_eq_true bound, Bool.true_and,
      Bool.true_and, Bool.and_comm]

end

/-! ## Register numbers -/

/-- The slot that a register number names. -/
def slotAt (index : Nat) : Checked Slot :=
  match RegisterFile.slot? index with
  | .ok slot => .ok slot
  | .error _ => .error .registerMissing

theorem slotAt_eq (slot : Slot) : slotAt slot = .ok slot := by
  rw [slotAt, RegisterFile.slot?, dif_pos slot.isLt]

end Checked

end ThumbMachine
