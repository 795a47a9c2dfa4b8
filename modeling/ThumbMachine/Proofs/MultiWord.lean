/-
Module: ThumbMachine.Proofs.MultiWord
Purpose: Numbers of several words. They are added or subtracted word by word, from the least
  significant word on, the carry of each word passed on to the next. The words that come out, the
  last carry and the last overflow are those of the whole numbers, whether the functions are applied
  or the guest executes ADD and ADC, SUB and SBC.
Main exports: MultiWord.unsigned, MultiWord.signed, MultiWord.chain_sums,
  MultiWord.Calculation.outcomes_shows, MultiWord.Calculation.Performs, MultiWord.multi_word_exact
-/
import Mathlib.Algebra.Order.Ring.Nat
import ThumbMachine.Core.Execute
import ThumbMachine.Proofs.Comparisons
import ThumbMachine.Proofs.Packing

namespace ThumbMachine

namespace MultiWord

/-! ## The two readings of several words -/

/-- How many numbers there are of some words. -/
def span (count : Nat) : Nat := 2 ^ (32 * count)

/-- The natural number that words denote, the first word being the least significant. -/
def unsigned : List Word → Nat
  | [] => 0
  | word :: rest => word.toNat + 0x100000000 * unsigned rest

/-- The same words in two's complement: the upper half of the numbers are the negative ones. -/
def signed (words : List Word) : Int :=
  if span words.length ≤ 2 * unsigned words then (unsigned words : Int) - span words.length
  else unsigned words

/-- An integer is the two's-complement reading of some number of words. -/
def Fits (count : Nat) (number : Int) : Prop :=
  -(span count : Int) ≤ 2 * number ∧ 2 * number < span count

theorem span_succ (count : Nat) : span (count + 1) = 0x100000000 * span count := by
  rw [span, span, Nat.mul_succ, Nat.pow_add, Nat.mul_comm]

theorem span_one : span 1 = 0x100000000 := rfl

theorem exists_half_span {count : Nat} (some_ : 0 < count) : ∃ half, span count = 2 * half := by
  obtain ⟨fewer, rfl⟩ := Nat.exists_eq_succ_of_ne_zero (Nat.ne_of_gt some_)
  exact ⟨0x80000000 * span fewer, by rw [span_succ]; omega⟩

theorem unsigned_lt (words : List Word) : unsigned words < span words.length := by
  induction words with
  | nil => exact Nat.one_pos
  | cons word rest inductionHypothesis =>
      have bound := word.isLt
      rw [unsigned, List.length_cons, span_succ]
      omega

theorem signed_singleton (word : Word) : signed [word] = word.toInt := by
  rw [toInt_eq_ite, signed, unsigned, unsigned, List.length_singleton, span_one]
  split <;> split <;> omega

/-- Below other words a word counts with its natural number. -/
theorem signed_cons (word : Word) {rest : List Word} (some_ : rest ≠ []) :
    signed (word :: rest) = word.toNat + 0x100000000 * signed rest := by
  obtain ⟨half, even⟩ := exists_half_span (List.length_pos_iff.2 some_)
  have bound := word.isLt
  rw [signed, signed, unsigned, List.length_cons, span_succ]
  split <;> split <;> omega

theorem fits_one {number : Int} : Fits 1 number ↔ FitsWord number := by
  rw [Fits, FitsWord, span_one]
  omega

/-- What stands in the lowest word does not decide whether a number fits. -/
theorem fits_succ {count low : Nat} {high : Int} (some_ : 0 < count) (small : low < 0x100000000) :
    Fits (count + 1) (low + 0x100000000 * high) ↔ Fits count high := by
  obtain ⟨half, even⟩ := exists_half_span some_
  rw [Fits, Fits, span_succ]
  omega

/-- The complement of each word, in both readings. -/
theorem unsigned_complement (words : List Word) :
    unsigned (words.map (~~~·)) + unsigned words + 1 = span words.length := by
  induction words with
  | nil => rfl
  | cons word rest inductionHypothesis =>
      have bound := word.isLt
      rw [List.map_cons, unsigned, unsigned, toNat_complement, List.length_cons, span_succ]
      omega

theorem signed_complement {words : List Word} (some_ : words ≠ []) :
    signed (words.map (~~~·)) = -signed words - 1 := by
  obtain ⟨half, even⟩ := exists_half_span (List.length_pos_iff.2 some_)
  have complement := unsigned_complement words
  rw [signed, signed, List.length_map]
  split <;> split <;> omega

/-! ## Word by word -/

/-- Calculates word by word, each with the carry of the one before it. -/
def chain (operation : Word → Word → Bool → AluResult) (carry : Bool) :
    List Word → List Word → List AluResult
  | left :: lefts, right :: rights =>
      operation left right carry :: chain operation (operation left right carry).carry lefts rights
  | _, _ => []

/-- What is calculated. -/
inductive Calculation where
  | addition
  | subtraction

namespace Calculation

/-- The function for the first words. -/
def first : Calculation → Word → Word → AluResult
  | addition => add
  | subtraction => sub

/-- The function for the further words, which takes the carry of the words before them. -/
def further : Calculation → Word → Word → Bool → AluResult
  | addition => addWithCarry
  | subtraction => subWithCarry

/-- The results for the words of two numbers in order. -/
def outcomes (calculation : Calculation) : List Word → List Word → List AluResult
  | left :: lefts, right :: rights =>
      calculation.first left right ::
        chain calculation.further (calculation.first left right).carry lefts rights
  | _, _ => []

end Calculation

/-- The words of results. -/
def values (outcomes : List AluResult) : List Word := outcomes.map AluResult.value

/-- Results whose words together with the last carry are the sum of two numbers and a carry. -/
structure Sums (lefts rights : List Word) (carry : Bool) (outcomes : List AluResult)
    (last : AluResult) : Prop where
  ends : outcomes.getLast? = some last
  length : outcomes.length = lefts.length
  value : unsigned (values outcomes) + span lefts.length * last.carry.toNat =
    unsigned lefts + unsigned rights + carry.toNat
  sign : last.sign ↔ signed (values outcomes) < 0
  overflow : last.overflow ↔ ¬ Fits lefts.length (signed lefts + signed rights + carry.toNat)

/-- One word is the sum that the function for words makes it. -/
theorem sums_single (left right : Word) (carry : Bool) :
    Sums [left] [right] carry [addWithCarry left right carry] (addWithCarry left right carry) where
  ends := rfl
  length := rfl
  value := by
    have sum := toNat_addWithCarry left right carry
    simp only [values, List.map_cons, List.map_nil, unsigned, List.length_singleton, span_one]
    omega
  sign := by
    rw [values, List.map_singleton, signed_singleton]
    exact (marked_addWithCarry left right carry).negative
  overflow := by
    rw [List.length_singleton, signed_singleton, signed_singleton, fits_one]
    exact (addWithCarry_computes left right carry).overflow

/-- The words above take the carry of the lowest one. -/
theorem Sums.cons {lefts rights : List Word} {outcomes : List AluResult} {last : AluResult}
    {left right : Word} {carry : Bool} (some_ : lefts ≠ []) (same : lefts.length = rights.length)
    (sums : Sums lefts rights (addWithCarry left right carry).carry outcomes last) :
    Sums (left :: lefts) (right :: rights) carry
      (addWithCarry left right carry :: outcomes) last := by
  have lowest := toNat_addWithCarry left right carry
  generalize addWithCarry left right carry = outcome at sums lowest ⊢
  have some' : rights ≠ [] := by
    rwa [← List.length_pos_iff, ← same, List.length_pos_iff]
  have some'' : values outcomes ≠ [] := by
    rwa [← List.length_pos_iff, values, List.length_map, sums.length, List.length_pos_iff]
  have higher := sums.value
  constructor
  case ends => rw [List.getLast?_cons, sums.ends, Option.getD_some]
  case length => rw [List.length_cons, List.length_cons, sums.length]
  case value =>
    rw [values, List.map_cons, ← values]
    simp only [unsigned, List.length_cons, span_succ, Nat.mul_assoc]
    omega
  case sign =>
    have bound := outcome.value.isLt
    rw [sums.sign, values, values, List.map_cons, ← values, signed_cons _ some'']
    omega
  case overflow =>
    have sum : signed (left :: lefts) + signed (right :: rights) + carry.toNat =
        outcome.value.toNat + 0x100000000 *
          (signed lefts + signed rights + outcome.carry.toNat) := by
      rw [signed_cons _ some_, signed_cons _ some']
      omega
    rw [sum, List.length_cons, fits_succ (List.length_pos_iff.2 some_) outcome.value.isLt,
      sums.overflow]

theorem chain_sums (carry : Bool) {lefts rights : List Word} (some_ : lefts ≠ [])
    (same : lefts.length = rights.length) :
    ∃ last, Sums lefts rights carry (chain addWithCarry carry lefts rights) last := by
  induction lefts generalizing rights carry with
  | nil => exact absurd rfl some_
  | cons left lefts inductionHypothesis =>
      obtain ⟨right, rights, rfl⟩ := List.exists_cons_of_length_eq_add_one same.symm
      have rest : lefts.length = rights.length := Nat.succ.inj same
      rw [chain]
      by_cases one : lefts = []
      · obtain rfl := one
        obtain rfl := List.length_eq_zero_iff.1 rest.symm
        exact ⟨_, sums_single left right carry⟩
      · obtain ⟨last, sums⟩ := inductionHypothesis (addWithCarry left right carry).carry one rest
        exact ⟨last, sums.cons one rest⟩

/-! ## The whole numbers -/

/-- Words and final flags that show the sum of two numbers. -/
structure ShowsSum (lefts rights words : List Word) (carry overflow : Bool) : Prop where
  length : words.length = lefts.length
  value : unsigned words = (unsigned lefts + unsigned rights) % span lefts.length
  carry : carry ↔ span lefts.length ≤ unsigned lefts + unsigned rights
  overflow : overflow ↔ ¬ Fits lefts.length (signed lefts + signed rights)

/-- Words and final flags that show the difference of two numbers. The last sign and the last
overflow together tell which number is less in two's complement. -/
structure ShowsDifference (lefts rights words : List Word) (sign carry overflow : Bool) : Prop where
  length : words.length = lefts.length
  value : (unsigned words : Int) = ((unsigned lefts : Int) - unsigned rights) % span lefts.length
  carry : carry ↔ unsigned rights ≤ unsigned lefts
  less : sign ≠ overflow ↔ signed lefts < signed rights
  overflow : overflow ↔ ¬ Fits lefts.length (signed lefts - signed rights)

/-- A number that some words can hold, from those it leaves a carry beyond. -/
theorem toNat_carry_eq {carry : Bool} {value modulus sum : Nat} (small : value < modulus)
    (split : value + modulus * carry.toNat = sum) :
    value = sum % modulus ∧ (carry ↔ modulus ≤ sum) := by
  cases carry with
  | false =>
      rw [Bool.toNat_false, Nat.mul_zero, Nat.add_zero] at split
      subst split
      exact ⟨(Nat.mod_eq_of_lt small).symm, by simpa using small⟩
  | true =>
      rw [Bool.toNat_true, Nat.mul_one] at split
      subst split
      exact ⟨by rw [Nat.add_mod_right, Nat.mod_eq_of_lt small], by simp⟩

theorem Sums.showsSum {lefts rights : List Word} {outcomes : List AluResult} {last : AluResult}
    (sums : Sums lefts rights false outcomes last) :
    ShowsSum lefts rights (values outcomes) last.carry last.overflow := by
  have length : (values outcomes).length = lefts.length := by
    rw [values, List.length_map, sums.length]
  have bound := unsigned_lt (values outcomes)
  rw [length] at bound
  obtain ⟨value, carry⟩ := toNat_carry_eq bound sums.value
  exact {
    length
    value := by simpa using value
    carry := by simpa using carry
    overflow := by simpa using sums.overflow }

/-- A subtraction word by word is the addition of the complements. -/
theorem chain_subWithCarry (carry : Bool) (lefts rights : List Word) :
    chain subWithCarry carry lefts rights = chain addWithCarry carry lefts (rights.map (~~~·)) := by
  induction lefts generalizing rights carry with
  | nil => rfl
  | cons left lefts inductionHypothesis =>
      cases rights with
      | nil => rfl
      | cons right rights =>
          rw [List.map_cons, chain, chain, subWithCarry_eq_add, inductionHypothesis]

theorem Sums.showsDifference {lefts rights : List Word} (some_ : lefts ≠ [])
    (same : lefts.length = rights.length) {outcomes : List AluResult} {last : AluResult}
    (sums : Sums lefts (rights.map (~~~·)) true outcomes last) :
    ShowsDifference lefts rights (values outcomes) last.sign last.carry last.overflow := by
  have some' : rights ≠ [] := by
    rwa [← List.length_pos_iff, ← same, List.length_pos_iff]
  have length : (values outcomes).length = lefts.length := by
    rw [values, List.length_map, sums.length]
  have bound := unsigned_lt (values outcomes)
  have complement := unsigned_complement rights
  rw [length] at bound
  rw [← same] at complement
  obtain ⟨value, carry⟩ := toNat_carry_eq bound sums.value
  have borrowed : unsigned lefts + unsigned (rights.map (~~~·)) + true.toNat =
      unsigned lefts + span lefts.length - unsigned rights := by
    rw [Bool.toNat_true]
    omega
  rw [borrowed] at value carry
  have overflow : last.overflow ↔ ¬ Fits lefts.length (signed lefts - signed rights) := by
    have signs : signed lefts + signed (rights.map (~~~·)) + true.toNat =
        signed lefts - signed rights := by
      rw [signed_complement some', Bool.toNat_true]
      omega
    rw [← signs, sums.overflow]
  constructor
  case length => exact length
  case value =>
    have wide : ((unsigned lefts + span lefts.length - unsigned rights : Nat) : Int) =
        (unsigned lefts : Int) - unsigned rights + span lefts.length := by
      omega
    rw [value, Int.natCast_mod, wide, Int.add_emod_right]
  case carry =>
    rw [carry]
    omega
  case less =>
    have one := unsigned_lt lefts
    have other := unsigned_lt rights
    rw [ne_eq, Bool.eq_iff_iff, sums.sign, overflow, signed, signed, signed, length, ← same, Fits]
    have total := sums.value
    rw [borrowed] at total
    cases out : last.carry with
    | false =>
        rw [out, Bool.toNat_false, Nat.mul_zero] at total
        split <;> split <;> split <;> omega
    | true =>
        rw [out, Bool.toNat_true, Nat.mul_one] at total
        split <;> split <;> split <;> omega
  case overflow => exact overflow

namespace Calculation

/-- Words and final flags that show what is calculated. -/
def Shows (calculation : Calculation) (lefts rights words : List Word)
    (sign carry overflow : Bool) : Prop :=
  match calculation with
  | addition => ShowsSum lefts rights words carry overflow
  | subtraction => ShowsDifference lefts rights words sign carry overflow

/-- Word by word the results show what is calculated. -/
theorem outcomes_shows (calculation : Calculation) {lefts rights : List Word} (some_ : lefts ≠ [])
    (same : lefts.length = rights.length) :
    ∃ last, (calculation.outcomes lefts rights).getLast? = some last ∧
      calculation.Shows lefts rights (values (calculation.outcomes lefts rights))
        last.sign last.carry last.overflow := by
  obtain ⟨left, lefts, rfl⟩ := List.exists_cons_of_ne_nil some_
  obtain ⟨right, rights, rfl⟩ := List.exists_cons_of_length_eq_add_one same.symm
  cases calculation with
  | addition =>
      obtain ⟨last, sums⟩ := chain_sums false some_ same
      exact ⟨last, sums.ends, sums.showsSum⟩
  | subtraction =>
      have complemented : (left :: lefts).length = ((right :: rights).map (~~~·)).length := by
        rw [List.length_map, same]
      obtain ⟨last, sums⟩ := chain_sums true some_ complemented
      rw [← chain_subWithCarry] at sums
      exact ⟨last, sums.ends, sums.showsDifference some_ same⟩

end Calculation

/-! ## The guest's calculations -/

/-- An instruction that calculates with two words. ADD or SUB begins: two registers, a register and
a 3-bit number, or a register and an 8-bit number. ADC or SBC goes on. -/
inductive Part where
  | three (kind : OperandKind) (operand : BitVec 3) (source destination : LowRegister)
  | number (destination : LowRegister) (value : Byte)
  | further (source destination : LowRegister)

/-- Two words and what was calculated of them. -/
structure Column where
  left : Word
  right : Word
  result : Word

namespace Part

/-- Whether the instruction takes no carry. -/
def begins : Part → Bool
  | three .. | number .. => true
  | further .. => false

/-- The instruction that calculates so. -/
def instruction : Part → Calculation → Instruction
  | three kind operand source destination, .addition =>
      .addSubtract kind false operand source destination
  | three kind operand source destination, .subtraction =>
      .addSubtract kind true operand source destination
  | number destination value, .addition => .immediate .add destination value
  | number destination value, .subtraction => .immediate .sub destination value
  | further source destination, .addition => .alu .adc source destination
  | further source destination, .subtraction => .alu .sbc source destination

/-- The first operand. -/
def left (part : Part) (core : Core) : Word :=
  match part with
  | three _ _ source _ => core.read source.wide
  | number destination _ | further _ destination => core.read destination.wide

/-- The second operand. -/
def right (part : Part) (core : Core) : Word :=
  match part with
  | three kind operand _ _ => core.smallOperand kind operand
  | number _ value => value.setWidth 32
  | further source _ => core.read source.wide

/-- The register of the result. -/
def destination : Part → LowRegister
  | three _ _ _ destination | number destination _ | further _ destination => destination

/-- The operands as the instruction finds them, and the result as it leaves it. -/
def column (part : Part) (found taken : Machine) : Column :=
  ⟨part.left found.core, part.right found.core, taken.core.read part.destination.wide⟩

/-- The result with its flags. -/
def outcome (part : Part) (calculation : Calculation) (core : Core) : AluResult :=
  match part with
  | three .. | number .. => calculation.first (part.left core) (part.right core)
  | further .. => calculation.further (part.left core) (part.right core) core.flags.c

end Part

namespace Calculation

/-- The guest goes on with a calculation, on a machine that has the carry so far. Whatever is
executed before the next words are taken, it leaves C alone. -/
inductive GoesOn (calculation : Calculation) : Machine → List Column → Machine → Prop where
  | done (machine : Machine) : GoesOn calculation machine [] machine
  | next {machine found taken last : Machine} {word : Halfword} {source destination : LowRegister}
      {columns : List Column} (between : found.core.flags.c = machine.core.flags.c)
      (decoded : decode word = .ok ((Part.further source destination).instruction calculation))
      (performed : found.perform word = .ok ⟨taken, none⟩)
      (later : GoesOn calculation taken columns last) :
      GoesOn calculation machine
        ((Part.further source destination).column found taken :: columns) last

/-- The guest calculates: from the least significant words on it takes one column after the other,
until the machine after the last one is left. -/
inductive Performs (calculation : Calculation) : List Column → Machine → Prop where
  | begun {found taken last : Machine} {word : Halfword} {part : Part} {columns : List Column}
      (begins : part.begins) (decoded : decode word = .ok (part.instruction calculation))
      (performed : found.perform word = .ok ⟨taken, none⟩)
      (later : calculation.GoesOn taken columns last) :
      Performs calculation (part.column found taken :: columns) last

end Calculation

/-- Flags that tell of a result; of Z nothing is asked. -/
structure Tells (flags : Flags) (outcome : AluResult) : Prop where
  sign : flags.n = outcome.sign
  carry : flags.c = outcome.carry
  overflow : flags.v = outcome.overflow

namespace Part

/-- Each part completes with its result and all of its flags. -/
theorem perform_eq (part : Part) (calculation : Calculation) (machine : Machine) {word : Halfword}
    (decoded : decode word = .ok (part.instruction calculation)) :
    machine.perform word = .ok (machine.compute (machine.core.writeArithmetic part.destination
      (part.outcome calculation machine.core))) := by
  rw [Machine.perform_of_decoded decoded]
  cases part <;> cases calculation <;> rfl

variable {part : Part} {calculation : Calculation} {found taken : Machine} {word : Halfword}

theorem result_eq (decoded : decode word = .ok (part.instruction calculation))
    (performed : found.perform word = .ok ⟨taken, none⟩) :
    (part.column found taken).result = (part.outcome calculation found.core).value := by
  rw [part.perform_eq calculation found decoded] at performed
  cases performed
  have general := part.destination.wide_ne_pc
  have written := found.core.read_write general (part.outcome calculation found.core).value
    part.destination.wide
  rw [if_pos rfl] at written
  exact (Core.read_setPc _ _ general).trans written

theorem tells (decoded : decode word = .ok (part.instruction calculation))
    (performed : found.perform word = .ok ⟨taken, none⟩) :
    Tells taken.core.flags (part.outcome calculation found.core) := by
  rw [part.perform_eq calculation found decoded] at performed
  cases performed
  exact ⟨rfl, rfl, rfl⟩

end Part

namespace Calculation

variable {calculation : Calculation} {machine last : Machine} {columns : List Column}

/-- The further columns are the chain on the carry of the result before them, and the flags at the
end tell of the last result. -/
theorem GoesOn.chain_eq (goesOn : calculation.GoesOn machine columns last) {previous : AluResult}
    (tells : Tells machine.core.flags previous) :
    columns.map (·.result) = values (chain calculation.further previous.carry (columns.map (·.left))
        (columns.map (·.right))) ∧
      ∃ final, (previous :: chain calculation.further previous.carry (columns.map (·.left))
        (columns.map (·.right))).getLast? = some final ∧ Tells last.core.flags final := by
  induction goesOn generalizing previous with
  | done machine => exact ⟨rfl, previous, rfl, tells⟩
  | @next machine found taken last word source destination columns between decoded performed later
      inductionHypothesis =>
      have carry : found.core.flags.c = previous.carry := between.trans tells.carry
      have outcome : (Part.further source destination).outcome calculation found.core =
          calculation.further (found.core.read destination.wide) (found.core.read source.wide)
            previous.carry := by
        rw [← carry]
        rfl
      have result := Part.result_eq decoded performed
      have told := Part.tells decoded performed
      rw [outcome] at result told
      obtain ⟨results, final, ends, tellsFinal⟩ := inductionHypothesis told
      refine ⟨?_, final, ?_, tellsFinal⟩
      · rw [List.map_cons, result, results]
        rfl
      · rw [List.map_cons, List.map_cons, chain, List.getLast?_cons_cons]
        exact ends

/-- What the guest calculates is what the functions make of the words it takes. -/
theorem Performs.outcomes_eq (performs : calculation.Performs columns last) :
    columns.map (·.result) =
        values (calculation.outcomes (columns.map (·.left)) (columns.map (·.right))) ∧
      ∃ final, (calculation.outcomes (columns.map (·.left)) (columns.map (·.right))).getLast? =
        some final ∧ Tells last.core.flags final := by
  cases performs with
  | @begun found taken _ word part columns begins decoded performed later =>
      have outcome : part.outcome calculation found.core =
          calculation.first (part.left found.core) (part.right found.core) := by
        cases part with
        | further => cases begins
        | three => rfl
        | number => rfl
      have result := Part.result_eq decoded performed
      have told := Part.tells decoded performed
      rw [outcome] at result told
      obtain ⟨results, final, ends, tellsFinal⟩ := later.chain_eq told
      refine ⟨?_, final, ends, tellsFinal⟩
      rw [List.map_cons, result, results]
      rfl

end Calculation

/-- Word by word the sum and the difference of numbers of any length are exact. The words are those
of the sum or the difference modulo 2 to the number of bits; the last carry says that a sum has one
bit more, that a difference borrows nothing; the last overflow says that the signed result has no
room; and the last sign and overflow of a difference together compare the signed numbers. The same
words and flags are left by a guest that begins with ADD or SUB and goes on with ADC or SBC, as long
as nothing in between changes C; each of these instructions completes. -/
theorem multi_word_exact (calculation : Calculation) :
    (∀ lefts rights : List Word, lefts ≠ [] → lefts.length = rights.length →
      ∃ last, (calculation.outcomes lefts rights).getLast? = some last ∧
        calculation.Shows lefts rights (values (calculation.outcomes lefts rights))
          last.sign last.carry last.overflow) ∧
      (∀ (columns : List Column) (last : Machine), calculation.Performs columns last →
        calculation.Shows (columns.map (·.left)) (columns.map (·.right)) (columns.map (·.result))
          last.core.flags.n last.core.flags.c last.core.flags.v) ∧
      ∀ (part : Part) (machine : Machine) (word : Halfword),
        decode word = .ok (part.instruction calculation) →
          ∃ taken, machine.perform word = .ok ⟨taken, none⟩ := by
  refine ⟨fun _ _ => calculation.outcomes_shows, fun columns last performs => ?_,
    fun part machine _ decoded => ⟨_, part.perform_eq calculation machine decoded⟩⟩
  have some_ : columns.map (·.left) ≠ [] := by
    cases performs
    exact List.cons_ne_nil _ _
  have same : (columns.map (·.left)).length = (columns.map (·.right)).length := by
    rw [List.length_map, List.length_map]
  obtain ⟨results, final, ends, tells⟩ := performs.outcomes_eq
  obtain ⟨_, ends', shows_⟩ := calculation.outcomes_shows some_ same
  cases ends.symm.trans ends'
  rw [results, tells.sign, tells.carry, tells.overflow]
  exact shows_

/-- Two numbers of two words: the least one in two's complement in R0 and R1, and 1 in R2 and R3. -/
def least : Machine where
  core :=
    { registers := (RegisterFile.zero.set (Register.slot 1) 0x80000000).set (Register.slot 2) 1
      flags := default
      pc := 0 }
  memory := .empty ⟨false⟩

/-- After SUB R0, R0, R2. -/
def borrowing : Machine := (execute 0x1A80 (.addSubtract .register true 2 0 0) least).machine

/-- After MOV R4, #7 as well, which leaves C alone. -/
def interrupted : Machine := (execute 0x2407 (.immediate .mov 4 7) borrowing).machine

/-- After SBC R1, R3 as well. -/
def wrapped : Machine := (execute 0x4199 (.alu .sbc 3 1) interrupted).machine

theorem multi_word_exact_wrapped :
    (∃ last, (Calculation.subtraction.outcomes [0, 0x80000000] [1, 0]).getLast? = some last ∧
      ShowsDifference [0, 0x80000000] [1, 0] [0xFFFFFFFF, 0x7FFFFFFF] last.sign last.carry
        last.overflow) ∧
      Calculation.subtraction.Performs [⟨0, 1, 0xFFFFFFFF⟩, ⟨0x80000000, 0, 0x7FFFFFFF⟩] wrapped ∧
      ShowsDifference [0, 0x80000000] [1, 0] [0xFFFFFFFF, 0x7FFFFFFF] false true true := by
  have begin_ : decode 0x1A80 = .ok ((Part.three .register 2 0 0).instruction .subtraction) := rfl
  have further : decode 0x4199 = .ok ((Part.further 3 1).instruction .subtraction) := rfl
  have first : least.perform 0x1A80 = .ok ⟨borrowing, none⟩ := rfl
  have between : interrupted.core.flags.c = borrowing.core.flags.c := rfl
  have second : interrupted.perform 0x4199 = .ok ⟨wrapped, none⟩ := rfl
  have performs :
      Calculation.subtraction.Performs [⟨0, 1, 0xFFFFFFFF⟩, ⟨0x80000000, 0, 0x7FFFFFFF⟩] wrapped :=
    .begun rfl begin_ first (.next between further second (.done wrapped))
  exact ⟨(multi_word_exact .subtraction).1 [0, 0x80000000] [1, 0] (by decide) rfl, performs,
    (multi_word_exact .subtraction).2.1 _ wrapped performs⟩

end MultiWord

end ThumbMachine
