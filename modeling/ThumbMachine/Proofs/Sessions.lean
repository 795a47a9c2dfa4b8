/-
Module: ThumbMachine.Proofs.Sessions
Purpose: What a host does with a processor over its life, as data: it runs it, each time with a
  handler and a count of its choice, and in between replaces the registers, the memory or its own
  state. The turns of all runs together are the record of the session.
Main exports: Move, Processor.after, Processor.record, Processor.last, Processor.start_induction,
  Processor.last_induction
-/
import ThumbMachine.Proofs.Accounting

namespace ThumbMachine

variable {σ : Type}

/-- What a host does with a processor: a run, or a replacement of something it owns. -/
inductive Move (σ : Type) where
  | run (handler : Handler σ) (count : Nat)
  | setRegisters (registers : RegisterFile)
  | setMemory (memory : Memory)
  | setState (state : σ)

namespace Processor

/-- The processor after a move. -/
def move (processor : Processor σ) : Move σ → Processor σ
  | .run handler count => (processor.run handler count).1
  | .setRegisters registers => { processor with host := { processor.host with registers } }
  | .setMemory memory => { processor with host := { processor.host with memory } }
  | .setState state => { processor with host := { processor.host with state } }

/-- The processor after some moves. -/
def after (processor : Processor σ) (moves : List (Move σ)) : Processor σ :=
  moves.foldl move processor

/-- The turns that a move takes: those of a run. -/
def movedTurns (processor : Processor σ) : Move σ → List (Taken σ)
  | .run handler count => processor.turns handler count
  | .setRegisters _ | .setMemory _ | .setState _ => []

/-- The turns of all runs among some moves, in the order they were taken. -/
def record (processor : Processor σ) : List (Move σ) → List (Taken σ)
  | [] => []
  | move :: rest => processor.movedTurns move ++ (processor.move move).record rest

theorem after_append (processor : Processor σ) (moves further : List (Move σ)) :
    processor.after (moves ++ further) = (processor.after moves).after further :=
  List.foldl_append

theorem record_append (processor : Processor σ) (moves further : List (Move σ)) :
    processor.record (moves ++ further) =
      processor.record moves ++ (processor.after moves).record further := by
  induction moves generalizing processor with
  | nil => rfl
  | cons move rest inductionHypothesis =>
      rw [List.cons_append, record, record, inductionHypothesis, List.append_assoc]
      rfl

/-- The record after one more move. -/
theorem record_concat (processor : Processor σ) (moves : List (Move σ)) (move : Move σ) :
    processor.record (moves ++ [move]) =
      processor.record moves ++ (processor.after moves).movedTurns move := by
  rw [record_append, record, record, List.append_nil]

theorem after_concat (processor : Processor σ) (moves : List (Move σ)) (move : Move σ) :
    processor.after (moves ++ [move]) = (processor.after moves).move move := by
  rw [after_append]
  rfl

/-- What holds at first, of the record without turns, and goes over from the processor before a move
to the one after it, holds after any moves. -/
theorem after_induction {motive : List (Taken σ) → Processor σ → Prop} {processor : Processor σ}
    {moves : List (Move σ)} (first : motive [] processor)
    (further : ∀ record reached, ∀ move ∈ moves, motive record reached →
      motive (record ++ reached.movedTurns move) (reached.move move)) :
    motive (processor.record moves) (processor.after moves) := by
  induction moves using List.reverseRecOn with
  | nil => exact first
  | append_singleton before move inductionHypothesis =>
      rw [record_concat, after_concat]
      apply further _ _ move (List.mem_append_right before List.mem_cons_self)
      apply inductionHypothesis
      intro record reached other member
      exact further record reached other (List.mem_append_left [move] member)

/-! ## Induction along a run -/

/-- The batch that a run leaves: what its last turn came to, or the batch it started when it took
none. -/
def last (processor : Processor σ) (handler : Handler σ) (count : Nat) : Batch σ :=
  ((processor.turns handler count).getLast?.map Taken.finish).getD (processor.batch count)

variable {processor : Processor σ} {handler : Handler σ} {count : Nat}

theorem last_of_nil (none_ : processor.turns handler count = []) :
    processor.last handler count = processor.batch count := by
  rw [last, none_]
  rfl

theorem last_of_concat {earlier : List (Taken σ)} {taken : Taken σ}
    (shape : processor.turns handler count = earlier ++ [taken]) :
    processor.last handler count = taken.finish := by
  rw [last, shape, List.getLast?_concat]
  rfl

/-- A run without turns has found its budget spent, or no code. -/
theorem run_of_nil (none_ : processor.turns handler count = []) :
    ∃ image ending, processor.run handler count =
        (processor.absorb image (processor.batch count), ending) ∧
      (ending = .exhausted ∨ ∃ access, ending = .faulted (.invalidAccess access)) := by
  by_cases spent : count = 0
  · exact ⟨_, _, spent ▸ run_zero, Or.inl rfl⟩
  · cases found : processor.imageAt (processor.batch count).core.pc with
    | error access => exact ⟨_, _, run_unfound spent found, Or.inr ⟨access, rfl⟩⟩
    | ok image =>
        rw [turns_eq found, Batch.turns_eq_nil_iff] at none_
        exact absurd none_ spent

/-- A run ends by packing up the batch it leaves. -/
theorem run_eq_absorb_last (processor : Processor σ) (handler : Handler σ) (count : Nat) :
    ∃ image, (processor.run handler count).1 =
      processor.absorb image (processor.last handler count) := by
  rcases List.eq_nil_or_concat (processor.turns handler count) with none_ | ⟨earlier, taken, shape⟩
  · obtain ⟨image, ending, run, _⟩ := run_of_nil none_
    exact ⟨image, by rw [run, last_of_nil none_]⟩
  · rw [List.concat_eq_append] at shape
    obtain ⟨image, run⟩ := run_eq_of_turns shape
    exact ⟨some image, by rw [run, last_of_concat shape]⟩

section Induction

variable {motive : List (Taken σ) → Batch σ → Prop}

/-- Induction along the turns of a run before one of them: what holds of the batch that is started,
and goes over from the start of each turn to its finish, holds where the turn starts. -/
theorem start_induction (first : motive [] (processor.batch count))
    (further : ∀ image before previous, previous.Faithful image handler →
      motive before previous.start → motive (before ++ [previous]) previous.finish)
    {earlier later : List (Taken σ)} {taken : Taken σ}
    (shape : processor.turns handler count = earlier ++ taken :: later) :
    motive earlier taken.start := by
  obtain ⟨image, _, split, _⟩ := turns_split shape
  exact Batch.start_induction first
    (fun before previous faithful _ holds => further image before previous faithful holds) split

/-- Induction along a whole run: the same holds of the batch that the run leaves. -/
theorem last_induction (first : motive [] (processor.batch count))
    (further : ∀ image before previous, previous.Faithful image handler →
      motive before previous.start → motive (before ++ [previous]) previous.finish) :
    motive (processor.turns handler count) (processor.last handler count) := by
  rcases List.eq_nil_or_concat (processor.turns handler count) with none_ | ⟨earlier, taken, shape⟩
  · rw [last_of_nil none_, none_]
    exact first
  · rw [List.concat_eq_append] at shape
    obtain ⟨image, _, split, _⟩ := turns_split shape
    rw [last_of_concat shape, shape]
    exact further image earlier taken (Batch.faithful_of_turns split)
      (start_induction first further shape)

end Induction

end Processor

end ThumbMachine
