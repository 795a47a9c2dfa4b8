/-
Module: ThumbMachine.Proofs.Bounds
Purpose: A run always ends. A loop of first halves of a BL gives units back as it goes, so the
  budget alone does not shrink; twice the budget, plus one while no refund is open, does. So a run
  of some count takes at most twice as many turns, calls the host at most that many times, and never
  spends a unit that it does not have.
Main exports: Batch.Reaches, Batch.StopsWith, Batch.run_stops, Batch.Reaches.steps_le,
  Batch.calls_le, Processor.Bounded, Processor.run_bounded
-/
import ThumbMachine.Proofs.Accounting
import ThumbMachine.Proofs.Noting

namespace ThumbMachine

variable {σ : Type}

namespace Batch

open Taken

variable {batch reached next : Batch σ} {image : CodeImage} {handler : Handler σ} {steps : Nat}

/-! ## The loop turn by turn -/

/-- What a batch has become after a number of turns, each taken on a budget and each of which let
the batch go on. -/
inductive Reaches (image : CodeImage) (handler : Handler σ) (batch : Batch σ) :
    Nat → Batch σ → Prop where
  | start : Reaches image handler batch 0 batch
  | further {steps : Nat} {reached next : Batch σ}
      (before : Reaches image handler batch steps reached) (funded : reached.budget ≠ 0)
      (running : reached.turn image handler = .running next) :
      Reaches image handler batch (steps + 1) next

/-- The loop stops where nothing is left to spend, or where the next turn does not go on; what it
leaves is what it has reached then, or what that turn makes of it. -/
def StopsWith (batch : Batch σ) (image : CodeImage) (handler : Handler σ)
    (left : Batch σ × Ending) : Prop :=
  (batch.budget = 0 ∧ left = (batch, .exhausted)) ∨
    (batch.budget ≠ 0 ∧ (batch.turn image handler).goesOn = false ∧
      left = ((batch.turn image handler).batch, (batch.turn image handler).ending))

/-- One turn before those that lead somewhere is one turn more. -/
theorem Reaches.after {last : Batch σ} (funded : batch.budget ≠ 0)
    (running : batch.turn image handler = .running next)
    (reaches : Reaches image handler next steps last) :
    Reaches image handler batch (steps + 1) last := by
  induction reaches with
  | start => exact .further .start funded running
  | further _ funded running inductionHypothesis =>
      exact .further inductionHypothesis funded running

/-- Every run is a number of turns that go on, and then a stop. -/
theorem run_stops (batch : Batch σ) (image : CodeImage) (handler : Handler σ) :
    ∃ steps last, Reaches image handler batch steps last ∧
      last.StopsWith image handler (batch.run image handler) := by
  induction batch using run_induction image handler with
  | spent batch spent => exact ⟨0, batch, .start, Or.inl ⟨spent, run_spent spent⟩⟩
  | running batch next funded running inductionHypothesis =>
      obtain ⟨steps, last, reaches, stops⟩ := inductionHypothesis
      rw [run_running funded running]
      exact ⟨steps + 1, last, reaches.after funded running, stops⟩
  | ended batch funded ended =>
      exact ⟨0, batch, .start, Or.inr ⟨funded, ended, run_ended funded ended⟩⟩

/-- The turns of a run start from what the batch reaches. -/
theorem reaches_of_turns {earlier later : List (Taken σ)} {taken : Taken σ}
    (shape : batch.turns image handler = earlier ++ taken :: later) :
    Reaches image handler batch earlier.length taken.start := by
  apply start_induction (motive := fun before reached =>
    Reaches image handler batch before.length reached) .start _ shape
  intro before previous faithful goesOn reaches
  rw [List.length_append, List.length_singleton]
  apply Reaches.further reaches faithful.funded
  rw [← faithful.turn, finish]
  cases turn : previous.turn with
  | running next => rfl
  | interrupted => simp [turn, Turn.goesOn] at goesOn
  | faulted => simp [turn, Turn.goesOn] at goesOn

/-! ## How long the loop is -/

/-- Each turn that goes on brings the measure down by one at least. -/
theorem Reaches.measure_le (reaches : Reaches image handler batch steps reached) :
    steps + reached.measure ≤ batch.measure := by
  induction reaches with
  | start => exact Nat.le_of_eq (Nat.zero_add batch.measure)
  | further _ funded running inductionHypothesis =>
      have closer := measure_turn funded running
      omega

theorem two_le_measure (funded : batch.budget ≠ 0) : 2 ≤ batch.measure := by
  rw [measure]
  omega

/-- The last turn that went on was taken on a budget, and so on a measure of two at least. -/
theorem Reaches.steps_le (reaches : Reaches image handler batch steps reached) :
    steps ≤ batch.measure - 1 := by
  cases reaches with
  | start => exact Nat.zero_le _
  | further before funded _ =>
      have spent := before.measure_le
      have some_ := two_le_measure funded
      omega

/-- A run takes fewer turns than its measure counts. -/
theorem length_turns_le (batch : Batch σ) (image : CodeImage) (handler : Handler σ) :
    (batch.turns image handler).length ≤ batch.measure - 1 := by
  rcases List.eq_nil_or_concat (batch.turns image handler) with empty | ⟨earlier, taken, shape⟩
  · rw [empty]
    exact Nat.zero_le _
  · rw [List.concat_eq_append] at shape
    have spent := (reaches_of_turns shape).measure_le
    have some_ := two_le_measure (faithful_of_turns shape).funded
    rw [shape, List.length_append, List.length_singleton]
    omega

/-! ## How often the host is called -/

theorem call?_eq_none {taken : Taken σ} (ordinary : taken.isInterrupt = false) :
    taken.call? = none := by
  cases made : taken.call? with
  | none => rfl
  | some call =>
      obtain ⟨code, executes, _⟩ := instruction?_of_call? made
      simp [isInterrupt, executes] at ordinary

/-- Before every turn, a unit has been charged for each call of the host. -/
theorem calls_le_retired {earlier later : List (Taken σ)} {taken : Taken σ}
    (shape : batch.turns image handler = earlier ++ taken :: later) :
    (earlier.filterMap call?).length + batch.retired ≤ taken.start.retired := by
  apply start_induction (motive := fun before reached =>
    (before.filterMap call?).length + batch.retired ≤ reached.retired)
    (Nat.le_of_eq (Nat.zero_add _)) _ shape
  intro before previous faithful goesOn charged
  rw [List.filterMap_append, List.length_append]
  cases interrupt : previous.isInterrupt with
  | true =>
      have unit := (faithful.costsOne_of_interrupt interrupt).1.2
      have one : ([previous].filterMap call?).length ≤ 1 := List.length_filterMap_le _ _
      omega
  | false =>
      have none_ : [previous].filterMap call? = [] := by
        rw [List.filterMap_cons, call?_eq_none interrupt, List.filterMap_nil]
      have more := faithful.retired_of_completes (Turn.completes_of_goesOn goesOn)
      rw [none_, List.length_nil]
      split at more
      · omega
      · omega

/-- The host is called at most as often as there are units to spend. -/
theorem calls_le (batch : Batch σ) (image : CodeImage) (handler : Handler σ) :
    (batch.calls image handler).length ≤ batch.budget := by
  rw [calls]
  rcases List.eq_nil_or_concat (batch.turns image handler) with empty | ⟨earlier, taken, shape⟩
  · rw [empty]
    exact Nat.zero_le _
  · rw [List.concat_eq_append] at shape
    have charged := calls_le_retired shape
    have balanced := start_account shape
    have funded := (faithful_of_turns shape).funded
    have one : ([taken].filterMap call?).length ≤ 1 := List.length_filterMap_le _ _
    rw [shape, List.filterMap_append, List.length_append]
    omega

end Batch

/-! ## What is spent -/

/-- A turn leaves at most the budget it found: what it gives back it has spent before. -/
theorem Taken.Faithful.budget_finish_le {taken : Taken σ} {image : CodeImage} {handler : Handler σ}
    (faithful : taken.Faithful image handler) : taken.finish.budget ≤ taken.start.budget := by
  cases completes : taken.turn.completes with
  | true =>
      rcases faithful.refunded_or_costsOne completes with ⟨_, free⟩ | costs
      · exact Nat.le_of_eq free.1
      · have spent := costs.1
        omega
  | false =>
      have spent := (faithful.spent_of_incomplete completes).1
      omega

namespace Processor

open Taken

/-- The bounds of a run of some count. Whatever code it fetches, its loop comes to a stop, which
gives what the run leaves, and no way through the loop is longer than twice the count. So the run
takes at most that many turns, and fetches no more words; a host that notes its calls has noted at
most as many as the count once the run is over; and before each turn there is a unit to spend, and
never more than the count, not even once a unit was given back. -/
structure Bounded (processor : Processor σ) (handler : Handler σ) (count : Nat) : Prop where
  stops : ∀ image, ∃ steps last,
    Batch.Reaches image handler (processor.batch count) steps last ∧
      last.StopsWith image handler ((processor.batch count).run image handler)
  steps : ∀ image steps reached,
    Batch.Reaches image handler (processor.batch count) steps reached → steps ≤ 2 * count
  turns : (processor.turns handler count).length ≤ 2 * count
  fetches : (processor.turns handler count).countP fetches ≤ 2 * count
  calls : ((processor.noting []).run handler.noting count).1.host.state.2.length ≤ count
  solvent : ∀ taken ∈ processor.turns handler count,
    taken.start.spend.budget + 1 = taken.start.budget
  within : ∀ taken ∈ processor.turns handler count,
    taken.start.budget ≤ count ∧ taken.finish.budget ≤ count

variable {processor : Processor σ} {handler : Handler σ} {count : Nat}

/-- A run starts without a refund, and so on a measure of one more than twice its count. -/
theorem measure_batch : (processor.batch count).measure = 2 * count + 1 := rfl

theorem length_turns_le : (processor.turns handler count).length ≤ 2 * count := by
  cases found : processor.imageAt (processor.batch count).core.pc with
  | error access =>
      rw [turns, found]
      exact Nat.zero_le _
  | ok image =>
      rw [turns_eq found]
      exact (processor.batch count).length_turns_le image handler

theorem length_calls_le : (processor.calls handler count).length ≤ count := by
  cases found : processor.imageAt (processor.batch count).core.pc with
  | error access =>
      rw [calls, turns, found]
      exact Nat.zero_le _
  | ok image =>
      rw [calls_eq found]
      exact (processor.batch count).calls_le image handler

/-- What is spent in a turn was there to spend, and was never more than the count. -/
theorem budget_of_mem {taken : Taken σ} (member : taken ∈ processor.turns handler count) :
    taken.start.spend.budget + 1 = taken.start.budget ∧ taken.start.budget ≤ count ∧
      taken.finish.budget ≤ count := by
  obtain ⟨earlier, later, shape⟩ := List.append_of_mem member
  obtain ⟨image, _, split, _⟩ := turns_split shape
  have faithful := Batch.faithful_of_turns split
  have solvent : taken.start.spend.budget + 1 = taken.start.budget :=
    Nat.succ_pred faithful.funded
  have balanced : taken.start.budget + taken.start.retired = count :=
    (Batch.start_account split).trans (Nat.add_zero count)
  have within : taken.start.budget ≤ count := by omega
  exact ⟨solvent, within, Nat.le_trans faithful.budget_finish_le within⟩

/-- Every run of every count is bounded, whatever the processor, its code and its host. -/
theorem run_bounded (processor : Processor σ) (handler : Handler σ) (count : Nat) :
    Bounded processor handler count where
  stops image := (processor.batch count).run_stops image handler
  steps image steps reached reaches := by
    have bound := reaches.steps_le
    rw [measure_batch] at bound
    exact bound
  turns := length_turns_le
  fetches := Nat.le_trans List.countP_le_length length_turns_le
  calls := by
    rw [run_noting, List.nil_append]
    exact length_calls_le
  solvent taken member := (budget_of_mem member).1
  within taken member := (budget_of_mem member).2

/-- Nothing but first halves of a BL reaches the bound: every other one of them is free. -/
example : ((ofWords [0xF000, 0xF000, 0xF000, 0xF000]).turns .refuseAll 2).length = 4 := by
  decide +kernel

end Processor

end ThumbMachine
