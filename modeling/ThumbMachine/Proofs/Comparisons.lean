/-
Module: ThumbMachine.Proofs.Comparisons
Purpose: A comparison and the conditional branch after it. Whichever of its three encodings is used,
  a comparison changes nothing but the flags; and under the flags it leaves, each condition of a
  branch is an order relation of the two operands, read as natural numbers or in two's complement.
Main exports: Condition.Relates, Condition.holds_setArithmetic_sub, Comparison,
  Comparison.decode_word, Condition.decode_word, Machine.perform, Machine.compare_then_branch
-/
import ThumbMachine.Core.Execute
import ThumbMachine.Instruction.Decode
import ThumbMachine.Proofs.ExactArithmetic
import ThumbMachine.Proofs.SignExtension

namespace ThumbMachine

/-! ## What the conditions say of a comparison -/

namespace Condition

/-- The relation of two words that a condition stands for after their comparison. -/
def Relates (condition : Condition) (left right : Word) : Prop :=
  match condition with
  | eq => left = right
  | ne => left ≠ right
  | cs => right.toNat ≤ left.toNat
  | cc => left.toNat < right.toNat
  | mi => (left - right).toInt < 0
  | pl => 0 ≤ (left - right).toInt
  | vs => ¬ FitsWord (left.toInt - right.toInt)
  | vc => FitsWord (left.toInt - right.toInt)
  | hi => right.toNat < left.toNat
  | ls => left.toNat ≤ right.toNat
  | ge => right.toInt ≤ left.toInt
  | lt => left.toInt < right.toInt
  | gt => right.toInt < left.toInt
  | le => left.toInt ≤ right.toInt

instance (condition : Condition) (left right : Word) : Decidable (condition.Relates left right) :=
  match condition with
  | eq => inferInstanceAs (Decidable (_ = _))
  | ne => inferInstanceAs (Decidable (_ ≠ _))
  | cs | ls => Nat.decLe _ _
  | cc | hi => Nat.decLt _ _
  | mi | lt | gt => Int.decLt _ _
  | pl | ge | le => Int.decLe _ _
  | vs => inferInstanceAs (Decidable (¬ FitsWord _))
  | vc => inferInstanceAs (Decidable (FitsWord _))

end Condition

/-! ## The flags of a difference -/

theorem sub_value (left right : Word) : (sub left right).value = left - right := by
  have value := (sub_computes left right).value
  have bound := left.isLt
  have other := right.isLt
  apply BitVec.eq_of_toNat_eq
  rw [BitVec.toNat_sub]
  omega

theorem sub_zero_iff (left right : Word) : (sub left right).zero ↔ left = right := by
  rw [(sub_computes left right).marked.zero, sub_value]
  simp [BitVec.sub_eq_iff_eq_add]

theorem sub_sign_iff (left right : Word) : (sub left right).sign ↔ (left - right).toInt < 0 := by
  rw [(sub_computes left right).marked.negative, sub_value]

/-- The sign of a difference is the wrong one exactly when the difference overflows, so the two
together tell which word is less in two's complement. -/
theorem sub_sign_ne_overflow_iff (left right : Word) :
    (sub left right).sign ≠ (sub left right).overflow ↔ left.toInt < right.toInt := by
  have computes := sub_computes left right
  have signed := computes.signed
  have bound := (sub left right).value.isLt
  obtain ⟨low, high⟩ := fitsWord_toInt left
  obtain ⟨otherLow, otherHigh⟩ := fitsWord_toInt right
  rw [ne_eq, Bool.eq_iff_iff, computes.marked.negative, computes.overflow, FitsWord, toInt_eq_ite]
  split <;> omega

namespace Condition

/-- After a comparison, what a condition holds of is the relation it stands for. -/
theorem holds_setArithmetic_sub (condition : Condition) (flags : Flags) (left right : Word) :
    condition.holds (flags.setArithmetic (sub left right)) ↔ condition.Relates left right := by
  have carry := (sub_computes left right).carry
  have overflow := (sub_computes left right).overflow
  have zero := sub_zero_iff left right
  have sign := sub_sign_iff left right
  have less := sub_sign_ne_overflow_iff left right
  have equal : left = right ↔ left.toNat = right.toNat := BitVec.toNat_inj.symm
  have same : left = right ↔ left.toInt = right.toInt := BitVec.toInt_inj.symm
  cases condition <;> simp only [holds, Relates, Flags.setArithmetic] <;> grind

end Condition

/-! ## The encodings -/

/-- The field that lies between two others in a word. -/
theorem extractLsb'_between {above width below : Nat} (high : BitVec above) (field : BitVec width)
    (low : BitVec below) : (high ++ field ++ low).extractLsb' below width = field := by
  simp [BitVec.extractLsb'_append_eq_of_le, BitVec.extractLsb'_append_eq_right]

/-- A register from its top bit and the three below, which the encodings keep apart. -/
theorem Register.ofBool_append (register : Register) :
    BitVec.ofBool (register.getLsbD 3) ++ register.extractLsb' 0 3 = register := by
  decide +revert

/-- The ways to encode a comparison. -/
inductive Comparison where
  /-- A low register with an 8-bit number. -/
  | number (register : LowRegister) (value : Byte)
  /-- Two low registers. -/
  | low (register other : LowRegister)
  /-- Any two registers. -/
  | wide (register other : Register)

namespace Comparison

/-- The instruction word. -/
def word : Comparison → Halfword
  | number register value => 0b00101#5 ++ register ++ value
  | low register other => 0b0100001010#10 ++ other ++ register
  | wide register other =>
      0b01000101#8 ++ BitVec.ofBool (register.getLsbD 3) ++ other ++ register.extractLsb' 0 3

/-- The instruction that the word stands for. -/
def instruction : Comparison → Instruction
  | number register value => .immediate .cmp register value
  | low register other => .alu .cmp other register
  | wide register other => .high .cmp other register

/-- The first operand. -/
def left (comparison : Comparison) (core : Core) : Word :=
  match comparison with
  | number register _ | low register _ => core.read register.wide
  | wide register _ => core.read register

/-- The second operand. -/
def right (comparison : Comparison) (core : Core) : Word :=
  match comparison with
  | number _ value => value.setWidth 32
  | low _ other => core.read other.wide
  | wide _ other => core.read other

-- The bits that select the format come out of the word by computation, under any operands; only the
-- operand fields need an argument.
open Decode in
theorem decode_word (comparison : Comparison) :
    decode comparison.word = .ok comparison.instruction := by
  cases comparison with
  | number register value =>
      have upper : upperField (0b00101#5 ++ register ++ value) = register := extractLsb'_between ..
      have byte : byteField (0b00101#5 ++ register ++ value) = value :=
        BitVec.extractLsb'_append_eq_right
      simp only [word, decode, bit, BitVec.getLsbD_append, upper, byte]
      rfl
  | low register other =>
      have op : (0b0100001010#10 ++ other ++ register).extractLsb' 6 4 = 0b1010#4 := by
        rw [BitVec.append_assoc]
        exact BitVec.extractLsb'_append_eq_of_le (Nat.le_refl 6)
      have middle : middleField (0b0100001010#10 ++ other ++ register) = other :=
        extractLsb'_between ..
      have lowest : lowField (0b0100001010#10 ++ other ++ register) = register :=
        BitVec.extractLsb'_append_eq_right
      simp only [word, decode, dataProcessing, bit, BitVec.getLsbD_append, op, middle, lowest]
      rfl
  | wide register other =>
      let word := (wide register other).word
      have source : word.extractLsb' 3 4 = other := extractLsb'_between ..
      have lowest : lowField word = register.extractLsb' 0 3 := BitVec.extractLsb'_append_eq_right
      have top : bit word 7 = register.getLsbD 3 := by
        simp only [word, Comparison.word, bit, BitVec.getLsbD_append]
        simp
      have decoded :
          decode word = .ok (.high .cmp (word.extractLsb' 3 4)
            (BitVec.ofBool (bit word 7) ++ lowField word)) := by
        simp only [word, Comparison.word, decode, dataProcessing, highOrExchange, bit,
          BitVec.getLsbD_append]
        rfl
      rw [decoded, source, lowest, top, Register.ofBool_append]
      rfl

end Comparison

namespace Condition

/-- The field code. -/
def code : Condition → BitVec 4
  | eq => 0 | ne => 1 | cs => 2 | cc => 3 | mi => 4 | pl => 5 | vs => 6
  | vc => 7 | hi => 8 | ls => 9 | ge => 10 | lt => 11 | gt => 12 | le => 13

/-- The word of the branch over a signed number of halfwords under a condition. -/
def word (condition : Condition) (halfwords : Byte) : Halfword :=
  0b1101#4 ++ condition.code ++ halfwords

theorem decode_word (condition : Condition) (halfwords : Byte) :
    decode (condition.word halfwords) = .ok (.branchIf condition halfwords) := by
  have code : (0b1101#4 ++ condition.code ++ halfwords).extractLsb' 8 4 = condition.code :=
    extractLsb'_between ..
  have byte : Decode.byteField (0b1101#4 ++ condition.code ++ halfwords) = halfwords :=
    BitVec.extractLsb'_append_eq_right
  simp only [word, decode, Decode.conditional, Decode.bit, BitVec.getLsbD_append, code, byte]
  cases condition <;> rfl

end Condition

/-! ## A comparison and a branch -/

namespace Machine

/-- Decodes a word and executes it. -/
def perform (machine : Machine) (word : Halfword) : Except DecodeError Step :=
  (decode word).map fun instruction => execute word instruction machine

theorem perform_of_decoded {word : Halfword} {instruction : Instruction}
    (decoded : decode word = .ok instruction) (machine : Machine) :
    machine.perform word = .ok (execute word instruction machine) := by
  rw [perform, decoded]
  rfl

/-- Every encoding sets the flags of the difference of its operands and goes on after itself. -/
theorem perform_comparison (machine : Machine) (comparison : Comparison) :
    machine.perform comparison.word =
      .ok (machine.compute (machine.core.setFlags (machine.core.flags.setArithmetic
        (sub (comparison.left machine.core) (comparison.right machine.core))))) := by
  rw [perform_of_decoded comparison.decode_word]
  cases comparison <;> rfl

/-- A branch is taken, to a target that counts from its own address plus 4, exactly when its
condition holds. -/
theorem perform_condition (machine : Machine) (condition : Condition) (halfwords : Byte) :
    machine.perform (condition.word halfwords) =
      .ok (machine.goto (if condition.holds machine.core.flags
        then machine.core.pc + 4 + BitVec.ofInt 32 (2 * halfwords.toInt)
        else machine.core.pc + 2)) := by
  rw [perform_of_decoded (condition.decode_word halfwords),
    ← branchDistance_eq_ofInt halfwords (by decide)]
  simp only [execute]
  split <;> rfl

/-- A comparison completes, and changes the flags and nothing else. A conditional branch at any
address, executed on the state that it leaves, goes to the target exactly when the two operands are
in the relation that the condition stands for, else to the next instruction; and it changes nothing
but the program counter. -/
theorem compare_then_branch (machine : Machine) (comparison : Comparison) :
    ∃ compared : Machine,
      machine.perform comparison.word = .ok ⟨compared, none⟩ ∧
      compared.core.pc = machine.core.pc + 2 ∧
      compared.core.registers = machine.core.registers ∧
      compared.memory = machine.memory ∧
      ∀ (condition : Condition) (halfwords : Byte) (address : Word),
        (compared.goto address).machine.perform (condition.word halfwords) =
          .ok (compared.goto
            (if condition.Relates (comparison.left machine.core) (comparison.right machine.core)
              then address + 4 + BitVec.ofInt 32 (2 * halfwords.toInt)
              else address + 2)) := by
  refine ⟨_, machine.perform_comparison comparison, rfl, rfl, rfl,
    fun condition halfwords address => ?_⟩
  have relates := condition.holds_setArithmetic_sub machine.core.flags
    (comparison.left machine.core) (comparison.right machine.core)
  simp only [perform_condition, ← relates]
  rfl

/-- The least word in two's complement in R0, and 1 in R1. -/
def leastAndOne : Machine where
  core :=
    { registers := (RegisterFile.zero.set (Register.slot 0) 0x80000000).set (Register.slot 1) 1
      flags := default
      pc := 0x100 }
  memory := .empty ⟨false⟩

/-- CMP R0, R1 overflows, and leaves a positive difference. BLT goes to its target all the same,
which is below it here, and BCC goes on, since as a natural number R0 is the greater. -/
theorem compare_then_branch_leastAndOne :
    ∃ compared : Machine,
      leastAndOne.perform 0x4288 = .ok ⟨compared, none⟩ ∧ compared.core.pc = 0x102 ∧
      (compared.goto 0x102).machine.perform 0xDBFC = .ok (compared.goto 0xFE) ∧
      (compared.goto 0x102).machine.perform 0xD3FC = .ok (compared.goto 0x104) := by
  obtain ⟨compared, completes, ahead, _, _, branches⟩ :=
    compare_then_branch leastAndOne (.low 0 1)
  have taken := branches .lt 0xFC 0x102
  have passed := branches .cc 0xFC 0x102
  rw [if_pos (by decide +kernel)] at taken
  rw [if_neg (by decide +kernel)] at passed
  exact ⟨compared, completes, ahead, taken, passed⟩

end Machine

end ThumbMachine
