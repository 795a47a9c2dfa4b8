/-
Module: ThumbMachine.Proofs.Accounting
Purpose: What a run adds to the execution counter. Along a run, what was charged and what is left of
  the budget always add up to the count; so the counter rises by the count, or by less where the run
  is ended, and by one for each fetched word that was neither a free first half of a BL nor failed.
Main exports: Taken.fails, Batch.start_account, Batch.start_retired, Processor.Accounted,
  Processor.run_accounted
-/
import ThumbMachine.Proofs.Alignment
import ThumbMachine.Proofs.Charging

namespace ThumbMachine

variable {σ : Type}

/-! ## One turn -/

/-- Whether a run ended because an instruction could not be fetched, decoded or executed. -/
def Ending.isFault : Ending → Bool
  | .exhausted | .interrupted _ => false
  | .faulted _ => true

theorem Turn.isFault_ending (turn : Turn σ) : turn.ending.isFault = !turn.completes := by
  cases turn <;> rfl

theorem Turn.eq_faulted {turn : Turn σ} {cause : Fault} (faulted : turn.ending = .faulted cause) :
    turn = .faulted cause turn.batch := by
  cases turn with
  | running => cases faulted
  | interrupted => cases faulted
  | faulted => cases faulted; rfl

theorem Turn.completes_of_goesOn {turn : Turn σ} (goesOn : turn.goesOn) : turn.completes := by
  cases turn with
  | running => rfl
  | interrupted => cases goesOn
  | faulted => cases goesOn

namespace Taken

/-- Whether a word was fetched that could not be decoded or executed. -/
def fails (taken : Taken σ) : Bool := taken.fetches && !taken.turn.completes

namespace Faithful

variable {taken : Taken σ} {image : CodeImage} {handler : Handler σ}

/-- A completed instruction is a free first half of a BL, or costs one unit. -/
theorem refunded_or_costsOne (faithful : taken.Faithful image handler)
    (completes : taken.turn.completes) : taken.Refunded ∨ taken.CostsOne := by
  cases interrupt : taken.isInterrupt with
  | true => exact Or.inr (faithful.costsOne_of_interrupt interrupt).1
  | false =>
      rcases faithful.cost_of_ordinary interrupt completes with ⟨refunded, _⟩ | ⟨costs, _⟩
      · exact Or.inl refunded
      · exact Or.inr costs

/-- A turn that does not complete spends a unit that nobody is charged. -/
theorem spent_of_incomplete (faithful : taken.Faithful image handler)
    (incomplete : taken.turn.completes = false) :
    taken.finish.budget + 1 = taken.start.budget ∧
      taken.finish.retired = taken.start.retired := by
  have funded : taken.start.budget - 1 + 1 = taken.start.budget :=
    Nat.succ_pred faithful.funded
  have course := faithful.course
  rw [finish]
  generalize taken.turn = turn at course incomplete ⊢
  cases course with
  | unfetched => exact ⟨funded, rfl⟩
  | undecoded => exact ⟨funded, rfl⟩
  | failed => exact ⟨funded, rfl⟩
  | resumed => cases incomplete
  | stopped => cases incomplete
  | halted => cases incomplete
  | completed => cases incomplete

/-- What a completed turn takes from the budget it adds to the charge. -/
theorem account_of_completes (faithful : taken.Faithful image handler)
    (completes : taken.turn.completes) :
    taken.finish.budget + taken.finish.retired = taken.start.budget + taken.start.retired := by
  rcases faithful.refunded_or_costsOne completes with ⟨_, free⟩ | costs
  · rw [free.1, free.2]
  · rw [← costs.1, costs.2]
    omega

/-- A completed turn adds one to the charge, unless it is a free first half of a BL. -/
theorem retired_of_completes (faithful : taken.Faithful image handler)
    (completes : taken.turn.completes) :
    taken.finish.retired + (if taken.Refunded then 1 else 0) = taken.start.retired + 1 := by
  rcases faithful.refunded_or_costsOne completes with refunded | costs
  · rw [if_pos refunded, refunded.2.2]
  · have charged : ¬ taken.Refunded := fun refunded => costs.not_free refunded.2
    rw [if_neg charged, costs.2]

theorem fetches_of_completes (faithful : taken.Faithful image handler)
    (completes : taken.turn.completes) : taken.fetches := by
  have course := faithful.course
  generalize taken.turn = turn at course completes
  rw [fetches, faithful.fetched]
  cases course with
  | unfetched => cases completes
  | undecoded => cases completes
  | failed => cases completes
  | resumed fetched => rw [fetched]; rfl
  | stopped fetched => rw [fetched]; rfl
  | halted fetched => rw [fetched]; rfl
  | completed fetched => rw [fetched]; rfl

end Faithful

end Taken

/-! ## The turns before a turn -/

namespace Batch

open Taken

variable {batch : Batch σ} {image : CodeImage} {handler : Handler σ}

/-- Induction along the turns before a turn: what holds of the batch that is run, and goes over from
the start of each turn to its finish, holds where the turn starts. -/
theorem start_induction {motive : List (Taken σ) → Batch σ → Prop} (first : motive [] batch)
    (further : ∀ before previous, previous.Faithful image handler → previous.turn.goesOn →
      motive before previous.start → motive (before ++ [previous]) previous.finish)
    {earlier later : List (Taken σ)} {taken : Taken σ}
    (shape : batch.turns image handler = earlier ++ taken :: later) :
    motive earlier taken.start := by
  induction earlier using List.reverseRecOn generalizing taken later with
  | nil =>
      rw [start_of_turns shape]
      exact first
  | append_singleton before previous inductionHypothesis =>
      rw [List.append_assoc, List.singleton_append] at shape
      have running := turns_adjacent shape
      have after : previous.finish = taken.start := by rw [finish, running, Turn.batch]
      have goesOn : previous.turn.goesOn := by rw [running]; rfl
      rw [← after]
      exact further before previous (faithful_of_turns shape) goesOn (inductionHypothesis shape)

/-- Before every turn, the rest of the budget and the charge add up to what they were. -/
theorem start_account {earlier later : List (Taken σ)} {taken : Taken σ}
    (shape : batch.turns image handler = earlier ++ taken :: later) :
    taken.start.budget + taken.start.retired = batch.budget + batch.retired := by
  apply start_induction (motive := fun _ reached =>
    reached.budget + reached.retired = batch.budget + batch.retired) rfl _ shape
  intro before previous faithful goesOn balanced
  exact (faithful.account_of_completes (Turn.completes_of_goesOn goesOn)).trans balanced

/-- Before every turn, each earlier one has been charged, but for the free first halves of a BL. -/
theorem start_retired {earlier later : List (Taken σ)} {taken : Taken σ}
    (shape : batch.turns image handler = earlier ++ taken :: later) :
    taken.start.retired + earlier.countP (fun previous => previous.Refunded) =
      batch.retired + earlier.length := by
  apply start_induction (motive := fun before reached =>
    reached.retired + before.countP (fun previous => previous.Refunded) =
      batch.retired + before.length) rfl _ shape
  intro before previous faithful goesOn charged
  have last := faithful.retired_of_completes (Turn.completes_of_goesOn goesOn)
  simp only [List.countP_append, List.countP_singleton, List.length_append, List.length_singleton,
    decide_eq_true_eq]
  omega

/-! ## The run as a whole -/

/-- Only the last turn of a run can fail, and then its word is the last one fetched. -/
theorem lastIs_fails_iff {earlier : List (Taken σ)} {taken : Taken σ}
    (shape : batch.turns image handler = earlier ++ [taken]) :
    LastIs (·.fails) ((earlier ++ [taken]).filter fetches) ↔ taken.fails := by
  have fetched := fetches_of_turns shape
  rw [List.filter_append, List.filter_eq_self.2 fetched]
  cases last : taken.fetches with
  | true => rw [List.filter_cons, List.filter_nil, last, if_pos rfl, lastIs_append]
  | false =>
      rw [List.filter_cons, List.filter_nil, last, if_neg (by simp), List.append_nil]
      have passes : taken.fails = false := by rw [fails, last, Bool.false_and]
      rw [passes]
      constructor
      · intro failed
        obtain ⟨previous, member, fails_⟩ := exists_of_lastIs failed
        have completes := Turn.completes_of_goesOn (goesOn_of_turns shape previous member)
        simp [fails, completes] at fails_
      · intro absurd_
        cases absurd_

/-- A run that meets a fault has lost one unit of its budget; no other unit is lost. -/
theorem run_account (batch : Batch σ) (image : CodeImage) (handler : Handler σ) :
    (batch.run image handler).1.budget + (batch.run image handler).1.retired +
        (if (batch.run image handler).2.isFault then 1 else 0) =
      batch.budget + batch.retired := by
  rcases List.eq_nil_or_concat (batch.turns image handler) with empty | ⟨earlier, taken, shape⟩
  · rw [run_spent (turns_eq_nil_iff.1 empty)]
    rfl
  · rw [List.concat_eq_append] at shape
    have faithful := faithful_of_turns shape
    have balanced := start_account shape
    rw [run_eq_of_turns shape, Turn.isFault_ending]
    cases completes : taken.turn.completes with
    | true =>
        have settled := faithful.account_of_completes completes
        simp only [Bool.not_true, Bool.false_eq_true, if_false]
        omega
    | false =>
        have spent := faithful.spent_of_incomplete completes
        simp only [Bool.not_false, if_true]
        omega

/-- The charge of a run: one for each fetched word, but for the free first halves of a BL and a last
word that failed. -/
theorem run_retired (batch : Batch σ) (image : CodeImage) (handler : Handler σ) :
    (batch.run image handler).1.retired +
        (batch.turns image handler).countP (fun taken => taken.Refunded) +
        (if LastIs (·.fails) ((batch.turns image handler).filter fetches) then 1 else 0) =
      batch.retired + (batch.turns image handler).countP fetches := by
  rcases List.eq_nil_or_concat (batch.turns image handler) with empty | ⟨earlier, taken, shape⟩
  · rw [empty, run_spent (turns_eq_nil_iff.1 empty)]
    rfl
  · rw [List.concat_eq_append] at shape
    have faithful := faithful_of_turns shape
    have before := start_retired shape
    have words : earlier.countP fetches = earlier.length :=
      List.countP_eq_length.2 (fetches_of_turns shape)
    simp only [run_eq_of_turns shape, shape, lastIs_fails_iff shape, List.countP_append,
      List.countP_singleton, decide_eq_true_eq, words]
    cases completes : taken.turn.completes with
    | true =>
        have charged := faithful.retired_of_completes completes
        have fetched := faithful.fetches_of_completes completes
        simp only [fails, fetched, completes, Bool.not_true, Bool.and_false, Bool.false_eq_true,
          if_false, if_true]
        omega
    | false =>
        obtain ⟨spent, uncharged⟩ := faithful.spent_of_incomplete completes
        have notFree : ¬ taken.Refunded := by
          rintro ⟨_, same, _⟩
          omega
        simp only [fails, completes, Bool.not_false, Bool.and_true, if_neg notFree]
        omega

end Batch

namespace Processor

open Taken

/-- The account of a run that was charged a number of units: they are added to the counter; a run
that ends on its budget is charged its whole count, another at most that, and less where an
instruction met a fault; and they are the fetched words but for the free first halves of a BL and a
last word that failed. -/
structure Accounted (processor : Processor σ) (handler : Handler σ) (count charged : Nat) :
    Prop where
  executed : (processor.run handler count).1.executed = processor.executed + charged
  exhausted : (processor.run handler count).2 = .exhausted → charged = count
  within : charged ≤ count
  faulted : ∀ cause, (processor.run handler count).2 = .faulted cause → charged < count
  words : charged + (processor.turns handler count).countP (fun taken => taken.Refunded) +
      (if LastIs (·.fails) ((processor.turns handler count).filter fetches) then 1 else 0) =
    (processor.turns handler count).countP fetches

/-- A run without turns is charged nothing. -/
theorem accounted_of_silent {processor : Processor σ} {handler : Handler σ} {count : Nat}
    (silent : processor.turns handler count = [])
    (executed : (processor.run handler count).1.executed = processor.executed)
    (exhausted : (processor.run handler count).2 = .exhausted → count = 0)
    (faulted : ∀ cause, (processor.run handler count).2 = .faulted cause → count ≠ 0) :
    Accounted processor handler count 0 where
  executed := executed
  exhausted ended := (exhausted ended).symm
  within := Nat.zero_le count
  faulted cause ended := Nat.pos_of_ne_zero (faulted cause ended)
  words := by rw [silent]; rfl

/-- What a run has left, what it was charged, and the unit that a fault loses, add up to the
count. -/
theorem batch_account (processor : Processor σ) (image : CodeImage) (handler : Handler σ)
    (count : Nat) :
    ((processor.batch count).run image handler).1.budget +
        ((processor.batch count).run image handler).1.retired +
        (if ((processor.batch count).run image handler).2.isFault then 1 else 0) = count :=
  ((processor.batch count).run_account image handler).trans (Nat.add_zero count)

/-- A run that finds its code is charged what its batch is. -/
theorem accounted_of_found {processor : Processor σ} {handler : Handler σ} {count : Nat}
    {image : CodeImage} (some_ : count ≠ 0)
    (found : processor.imageAt (processor.batch count).core.pc = .ok image) :
    Accounted processor handler count ((processor.batch count).run image handler).1.retired := by
  have account := processor.batch_account image handler count
  constructor
  · rw [run_found some_ found]
    rfl
  · intro exhausted
    rw [run_found some_ found] at exhausted
    rw [Batch.spent_of_exhausted exhausted, exhausted] at account
    exact (Nat.zero_add _).symm.trans account
  · omega
  · intro cause faulted
    rw [run_found some_ found] at faulted
    have lost : (Ending.faulted cause).isFault := rfl
    rw [faulted, if_pos lost] at account
    omega
  · rw [turns_eq found]
    exact ((processor.batch count).run_retired image handler).trans (Nat.zero_add _)

/-- What every run is charged, whatever the processor, the host and the count. -/
theorem run_accounted (processor : Processor σ) (handler : Handler σ) (count : Nat) :
    ∃ charged, Accounted processor handler count charged := by
  by_cases none_ : count = 0
  · subst none_
    refine ⟨0, accounted_of_silent turns_zero ?_ (fun _ => rfl) ?_⟩
    · rw [run_zero]
      rfl
    · intro cause ended
      rw [run_zero] at ended
      cases ended
  · cases found : processor.imageAt (processor.batch count).core.pc with
    | error access =>
        refine ⟨0, accounted_of_silent ?_ ?_ ?_ fun _ _ => none_⟩
        · rw [turns, found]
        · rw [run_unfound none_ found]
          rfl
        · intro ended
          rw [run_unfound none_ found] at ended
          cases ended
    | ok image => exact ⟨_, accounted_of_found none_ found⟩

end Processor

end ThumbMachine
