/-
Module: ThumbMachine.Proofs.Charging
Purpose: What each turn of a run costs. The first half of a BL is free unless the last instruction
  before it that is no interrupt was itself a free first half; everything else that completes costs
  one unit.
Main exports: Taken.Free, Taken.CostsOne, Taken.Refunded, Batch.refunded_iff, Processor.turn_cost
-/
import Mathlib.Data.List.Induction
import ThumbMachine.Proofs.Runs

namespace ThumbMachine

variable {σ : Type}

namespace Taken

/-- Whether the turn executes the first half of a BL. -/
def isLongBranchHigh (taken : Taken σ) : Bool := taken.instruction?.any Batch.isLongBranchHigh

/-- The turn took nothing from the budget and was not counted. -/
def Free (taken : Taken σ) : Prop :=
  taken.finish.budget = taken.start.budget ∧ taken.finish.retired = taken.start.retired

/-- The turn took one unit from the budget and was counted once. -/
def CostsOne (taken : Taken σ) : Prop :=
  taken.finish.budget + 1 = taken.start.budget ∧
    taken.finish.retired = taken.start.retired + 1

/-- The turn executed the first half of a BL for free. -/
def Refunded (taken : Taken σ) : Prop := taken.isLongBranchHigh ∧ taken.Free

instance (taken : Taken σ) : Decidable taken.Free := inferInstanceAs (Decidable (_ ∧ _))

instance (taken : Taken σ) : Decidable taken.Refunded := inferInstanceAs (Decidable (_ ∧ _))

/-- The turns that execute no interrupt. -/
def ordinary (turns : List (Taken σ)) : List (Taken σ) :=
  turns.filter fun taken => !taken.isInterrupt

namespace Faithful

variable {taken : Taken σ} {image : CodeImage} {handler : Handler σ}

/-- An interrupt costs one unit whatever the host answers, and leaves the refund as it was. -/
theorem costsOne_of_interrupt (faithful : taken.Faithful image handler)
    (interrupt : taken.isInterrupt) :
    taken.CostsOne ∧ taken.finish.refunded = taken.start.refunded := by
  have funded : taken.start.budget - 1 + 1 = taken.start.budget :=
    Nat.succ_pred faithful.funded
  have course := faithful.course
  rw [CostsOne, finish]
  generalize taken.turn = turn at course ⊢
  cases course with
  | unfetched fetched =>
      simp [isInterrupt, faithful.instruction?_of_unfetched fetched] at interrupt
  | undecoded fetched decoded =>
      simp [isInterrupt, faithful.instruction?_of_undecoded fetched decoded] at interrupt
  | resumed => exact ⟨⟨funded, rfl⟩, rfl⟩
  | stopped => exact ⟨⟨funded, rfl⟩, rfl⟩
  | halted => exact ⟨⟨funded, rfl⟩, rfl⟩
  | completed fetched decoded ordinary =>
      simp [faithful.not_isInterrupt_of_decoded fetched decoded ordinary] at interrupt
  | failed fetched decoded ordinary =>
      simp [faithful.not_isInterrupt_of_decoded fetched decoded ordinary] at interrupt

/-- Another completed instruction is free, and opens a refund, when it is the first half of a BL and
none is open; otherwise it costs one unit and closes the refund. -/
theorem cost_of_ordinary (faithful : taken.Faithful image handler)
    (ordinary : taken.isInterrupt = false) (completes : taken.turn.completes) :
    (taken.Refunded ∧ taken.start.refunded = false ∧ taken.finish.refunded) ∨
      (taken.CostsOne ∧ ¬ (taken.isLongBranchHigh ∧ taken.start.refunded = false) ∧
        taken.finish.refunded = false) := by
  have funded : taken.start.budget - 1 + 1 = taken.start.budget :=
    Nat.succ_pred faithful.funded
  have course := faithful.course
  rw [Refunded, CostsOne, Free, finish]
  generalize taken.turn = turn at course completes ⊢
  cases course with
  | unfetched => cases completes
  | undecoded => cases completes
  | failed => cases completes
  | resumed fetched decoded =>
      simp [faithful.isInterrupt_of_decoded fetched decoded] at ordinary
  | stopped fetched decoded =>
      simp [faithful.isInterrupt_of_decoded fetched decoded] at ordinary
  | halted fetched decoded =>
      simp [faithful.isInterrupt_of_decoded fetched decoded] at ordinary
  | @completed word instruction machine fetched decoded plain executed =>
      have high : taken.isLongBranchHigh = Batch.isLongBranchHigh instruction := by
        rw [isLongBranchHigh, faithful.instruction?_of_decoded fetched decoded]
        rfl
      have mark : ((taken.start.fetch word).enter machine).refunded = taken.start.refunded := rfl
      rw [Turn.batch, Batch.charge, high, mark]
      split
      · rename_i refund
        simp only [Bool.and_eq_true, Bool.not_eq_true'] at refund
        exact Or.inl ⟨⟨refund.1, funded, rfl⟩, refund.2, rfl⟩
      · rename_i unrefunded
        simp only [Bool.and_eq_true, Bool.not_eq_true'] at unrefunded
        exact Or.inr ⟨⟨funded, rfl⟩, unrefunded, rfl⟩

end Faithful

theorem not_high_of_interrupt {taken : Taken σ} (interrupt : taken.isInterrupt) :
    taken.isLongBranchHigh = false := by
  rw [isInterrupt] at interrupt
  rw [isLongBranchHigh]
  split at interrupt
  · rename_i code same
    rw [same]
    rfl
  · simp at interrupt

/-- The second half of a BL always completes, and costs one unit. -/
theorem Faithful.costsOne_of_low {taken : Taken σ} {image : CodeImage} {handler : Handler σ}
    (faithful : taken.Faithful image handler) (low : taken.isLongBranchLow) : taken.CostsOne := by
  rw [isLongBranchLow] at low
  split at low
  · rename_i offset instruction
    have plain : taken.isInterrupt = false := by rw [isInterrupt, instruction]
    have notHigh : taken.isLongBranchHigh = false := by rw [isLongBranchHigh, instruction]; rfl
    have completes : taken.turn.completes := by
      have course := faithful.course
      generalize taken.turn = turn at course ⊢
      cases course with
      | unfetched fetched => simp [faithful.instruction?_of_unfetched fetched] at instruction
      | undecoded fetched decoded =>
          simp [faithful.instruction?_of_undecoded fetched decoded] at instruction
      | resumed => rfl
      | stopped => rfl
      | halted => rfl
      | completed => rfl
      | failed fetched decoded ordinary executed =>
          rw [faithful.instruction?_of_decoded fetched decoded] at instruction
          cases instruction
          cases executed
    rcases faithful.cost_of_ordinary plain completes with ⟨refunded, _⟩ | ⟨costs, _⟩
    · exact absurd refunded.1 (by simp [notHigh])
    · exact costs
  · simp at low

theorem CostsOne.not_free {taken : Taken σ} (costs : taken.CostsOne) : ¬ taken.Free := by
  intro free
  have counted := costs.2
  rw [free.2] at counted
  omega

theorem ordinary_append (turns : List (Taken σ)) (taken : Taken σ) :
    ordinary (turns ++ [taken]) =
      if taken.isInterrupt then ordinary turns else ordinary turns ++ [taken] := by
  cases interrupt : taken.isInterrupt <;> simp [ordinary, interrupt]

end Taken

namespace Batch

open Taken

variable {batch : Batch σ} {image : CodeImage} {handler : Handler σ}

/-- A refund is open exactly when the last instruction that is no interrupt was a free first half of
a BL: interrupts in between leave it open. -/
theorem refunded_iff {earlier later : List (Taken σ)} {taken : Taken σ}
    (closed : batch.refunded = false)
    (shape : batch.turns image handler = earlier ++ taken :: later) :
    taken.start.refunded = true ↔ LastIs Refunded (ordinary earlier) := by
  -- From the last turn backwards: an interrupt keeps the mark and is stepped over, any other turn
  -- settles it.
  induction earlier using List.reverseRecOn generalizing taken later with
  | nil =>
      rw [start_of_turns shape, closed]
      simp [ordinary, not_lastIs_nil]
  | append_singleton before previous inductionHypothesis =>
      rw [List.append_assoc, List.singleton_append] at shape
      have faithful := faithful_of_turns shape
      have running := turns_adjacent shape
      have after : taken.start = previous.finish := by rw [finish, running, Turn.batch]
      rw [ordinary_append, after]
      cases interrupt : previous.isInterrupt with
      | true =>
          rw [(faithful.costsOne_of_interrupt interrupt).2]
          exact inductionHypothesis shape
      | false =>
          have completes : previous.turn.completes := by rw [running]; rfl
          rw [if_neg (by simp), lastIs_append]
          rcases faithful.cost_of_ordinary interrupt completes with
            ⟨refunded, _, opened⟩ | ⟨costs, _, shut⟩
          · exact ⟨fun _ => refunded, fun _ => opened⟩
          · rw [shut]
            exact ⟨fun absurd_ => by simp at absurd_,
              fun refunded => absurd refunded.2 costs.not_free⟩

theorem cost_of_turns {earlier later : List (Taken σ)} {taken : Taken σ}
    (closed : batch.refunded = false)
    (shape : batch.turns image handler = earlier ++ taken :: later)
    (completes : taken.turn.completes) :
    (taken.Free ∧ taken.isLongBranchHigh ∧ ¬ LastIs Refunded (ordinary earlier)) ∨
      (taken.CostsOne ∧ ¬ (taken.isLongBranchHigh ∧ ¬ LastIs Refunded (ordinary earlier))) := by
  have faithful := faithful_of_turns shape
  have open_ := refunded_iff closed shape
  cases interrupt : taken.isInterrupt with
  | true =>
      refine Or.inr ⟨(faithful.costsOne_of_interrupt interrupt).1, ?_⟩
      rintro ⟨high, _⟩
      simp [not_high_of_interrupt interrupt] at high
  | false =>
      rw [← open_, Bool.not_eq_true]
      rcases faithful.cost_of_ordinary interrupt completes with
        ⟨refunded, shut, _⟩ | ⟨costs, unrefunded, _⟩
      · exact Or.inl ⟨refunded.2, refunded.1, shut⟩
      · exact Or.inr ⟨costs, unrefunded⟩

/-- Directly after an instruction that is no interrupt, only that instruction matters. -/
theorem lastIs_refunded_ordinary {turns : List (Taken σ)}
    (direct : ¬ LastIs (·.isInterrupt) turns) :
    LastIs Refunded (ordinary turns) ↔ LastIs Refunded turns := by
  rcases List.eq_nil_or_concat turns with rfl | ⟨before, previous, rfl⟩
  · rfl
  · rw [List.concat_eq_append, lastIs_append] at direct
    rw [List.concat_eq_append, ordinary_append, if_neg direct, lastIs_append,
      lastIs_append]

theorem not_lastIs_refunded {turns : List (Taken σ)} (interrupted : LastIs (·.isInterrupt) turns) :
    ¬ LastIs Refunded turns := by
  rintro ⟨taken, last, high, _⟩
  obtain ⟨other, same, interrupt⟩ := interrupted
  have one : taken = other := Option.mem_unique last same
  subst one
  simp [not_high_of_interrupt interrupt] at high

/-- A pair of halves costs one unit exactly when its first half is free. -/
theorem pair_costsOne_iff {earlier later : List (Taken σ)} {high low : Taken σ}
    (closed : batch.refunded = false)
    (shape : batch.turns image handler = earlier ++ high :: low :: later)
    (first : high.isLongBranchHigh) (second : low.isLongBranchLow) :
    (low.finish.budget + 1 = high.start.budget ∧
        low.finish.retired = high.start.retired + 1) ↔
      ¬ LastIs Refunded (ordinary earlier) := by
  have running := turns_adjacent shape
  have between : high.finish = low.start := by rw [finish, running, Turn.batch]
  have completes : high.turn.completes := by rw [running]; rfl
  have shape' : batch.turns image handler = (earlier ++ [high]) ++ low :: later := by
    rw [shape, List.append_assoc, List.singleton_append]
  have lowCosts := (faithful_of_turns shape').costsOne_of_low second
  rcases cost_of_turns closed shape completes with ⟨free, _, shut⟩ | ⟨costs, open_⟩
  · rw [Free, between] at free
    rw [CostsOne, free.1, free.2] at lowCosts
    exact ⟨fun _ => shut, fun _ => lowCosts⟩
  · constructor
    · intro one
      rw [CostsOne, between] at costs
      rw [CostsOne] at lowCosts
      omega
    · intro shut
      exact absurd ⟨first, shut⟩ open_

end Batch

namespace Processor

open Taken

/-- What the turns of a run cost. A completed turn is free when it executes the first half of a BL
and the last instruction before it that is no interrupt was no free first half; any other costs one
unit. So the rule that looks at the instruction directly before a first half fails exactly where
that one is an interrupt and the one before the interrupts a free first half, and a pair costs one
unit unless the last instruction before it that is no interrupt was a free first half. -/
theorem turn_cost (processor : Processor σ) (handler : Handler σ) (count : Nat)
    {earlier later : List (Taken σ)} {taken : Taken σ}
    (shape : processor.turns handler count = earlier ++ taken :: later)
    (completes : taken.turn.completes) :
    (taken.Free ↔ taken.isLongBranchHigh ∧ ¬ LastIs Refunded (ordinary earlier)) ∧
      (¬ taken.Free → taken.CostsOne) ∧
      (taken.isLongBranchHigh →
        ((taken.Free ↔ ¬ LastIs Refunded earlier) ↔
          ¬ (LastIs (·.isInterrupt) earlier ∧ LastIs Refunded (ordinary earlier)))) ∧
      (∀ low rest, later = low :: rest → taken.isLongBranchHigh → low.isLongBranchLow →
        ((low.finish.budget + 1 = taken.start.budget ∧
            low.finish.retired = taken.start.retired + 1) ↔
          ¬ LastIs Refunded (ordinary earlier))) := by
  obtain ⟨image, _, split, _⟩ := turns_split shape
  have cost := Batch.cost_of_turns rfl split completes
  have free : taken.Free ↔ taken.isLongBranchHigh ∧ ¬ LastIs Refunded (ordinary earlier) := by
    rcases cost with ⟨free, refund⟩ | ⟨costs, unrefunded⟩
    · exact ⟨fun _ => refund, fun _ => free⟩
    · exact ⟨fun free => absurd free costs.not_free, fun refund => absurd refund unrefunded⟩
  refine ⟨free, ?_, ?_, ?_⟩
  · intro notFree
    rcases cost with ⟨isFree, _⟩ | ⟨costs, _⟩
    · exact absurd isFree notFree
    · exact costs
  · intro high
    rw [free]
    by_cases interrupted : LastIs (·.isInterrupt) earlier
    · have direct := Batch.not_lastIs_refunded interrupted
      simp [high, interrupted, direct]
    · rw [Batch.lastIs_refunded_ordinary interrupted]
      simp [high, interrupted]
  · rintro low rest rfl high second
    exact Batch.pair_costsOne_iff rfl split high second

/-- A lone first half of a BL, an interrupt, a whole BL. -/
def interruptedPair : Processor Unit := ofWords [0xF000, 0xDF00, 0xF000, 0xF800, 0x2007]

/-- The BL comes directly after an interrupt, and yet costs two units. -/
theorem interruptedPair_costs_two :
    ∃ earlier high low later,
      interruptedPair.turns (.resumeAt 4) 3 = earlier ++ high :: low :: later ∧
        high.isLongBranchHigh ∧ low.isLongBranchLow ∧ LastIs (·.isInterrupt) earlier ∧
        ¬ LastIs Refunded earlier ∧ ¬ high.Free ∧
        low.finish.budget + 2 = high.start.budget ∧
        low.finish.retired = high.start.retired + 2 := by
  have bound : 3 < (interruptedPair.turns (.resumeAt 4) 3).length := by decide +kernel
  refine ⟨_, _, _, _, (turns_at (Nat.lt_of_succ_lt bound)).trans
    (by rw [List.drop_eq_getElem_cons bound]), ?_⟩
  decide +kernel +revert

theorem turn_cost_interruptedPair :
    ∃ earlier taken later,
      interruptedPair.turns (.resumeAt 4) 3 = earlier ++ taken :: later ∧
        taken.turn.completes ∧
        (taken.Free ↔ taken.isLongBranchHigh ∧ ¬ LastIs Refunded (ordinary earlier)) := by
  have bound : 2 < (interruptedPair.turns (.resumeAt 4) 3).length := by decide +kernel
  have completes : (interruptedPair.turns (.resumeAt 4) 3)[2].turn.completes := by
    decide +kernel +revert
  exact ⟨_, _, _, turns_at bound, completes,
    (turn_cost interruptedPair (.resumeAt 4) 3 (turns_at bound) completes).1⟩

end Processor

end ThumbMachine
