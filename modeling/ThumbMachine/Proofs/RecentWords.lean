/-
Module: ThumbMachine.Proofs.RecentWords
Purpose: What the diagnostic history holds: the last of the words fetched, each noted as soon as it
  is fetched, over all runs since the processor was created.
Main exports: Taken.entry?, Processor.Remembers, Processor.history_remembers
-/
import ThumbMachine.Proofs.RecentItems
import ThumbMachine.Proofs.Sessions

namespace ThumbMachine

variable {σ : Type}

/-! ## What a turn notes -/

namespace Taken

/-- What a turn has fetched, with the address it was fetched from, if anything. -/
def entry? (taken : Taken σ) : Option HistoryEntry :=
  match taken.fetched with
  | .ok word => some ⟨taken.start.core.pc, word⟩
  | .error _ => none

/-- A turn notes the word it fetches, once, whatever becomes of it, and nothing else. -/
theorem Faithful.history {taken : Taken σ} {image : CodeImage} {handler : Handler σ}
    (faithful : taken.Faithful image handler) :
    taken.finish.history = taken.start.history.pushAll taken.entry?.toList := by
  have course := faithful.course
  rw [finish, entry?, faithful.fetched]
  generalize taken.turn = turn at course ⊢
  cases course with
  | unfetched fetched => rw [fetched]; rfl
  | undecoded fetched => rw [fetched]; rfl
  | resumed fetched => rw [fetched]; rfl
  | stopped fetched => rw [fetched]; rfl
  | halted fetched => rw [fetched]; rfl
  | failed fetched => rw [fetched]; rfl
  | completed fetched =>
      rw [fetched, Turn.batch, Batch.charge]
      split <;> rfl

end Taken

/-! ## The history of a session -/

namespace Processor

/-- The words that some turns have fetched, in order, each with its address. -/
def fetchedWords (turns : List (Taken σ)) : List HistoryEntry := turns.filterMap Taken.entry?

theorem fetchedWords_append (turns further : List (Taken σ)) :
    fetchedWords (turns ++ further) = fetchedWords turns ++ fetchedWords further :=
  List.filterMap_append

theorem fetchedWords_singleton (taken : Taken σ) : fetchedWords [taken] = taken.entry?.toList := by
  rw [fetchedWords, List.filterMap_cons, List.filterMap_nil]
  cases taken.entry? <;> rfl

/-- A run notes the words that its turns fetch. -/
theorem run_history (processor : Processor σ) (handler : Handler σ) (count : Nat) :
    (processor.run handler count).1.history =
      processor.history.pushAll (fetchedWords (processor.turns handler count)) := by
  obtain ⟨image, run⟩ := processor.run_eq_absorb_last handler count
  rw [run]
  change (processor.last handler count).history = _
  apply last_induction (motive := fun turns batch =>
    batch.history = processor.history.pushAll (fetchedWords turns))
  · rfl
  · intro image before previous faithful noted
    rw [faithful.history, noted, fetchedWords_append, fetchedWords_singleton, Recent.pushAll_append]

/-- The history holds the last 32 of some fetched words, oldest first, or all of them if there are
fewer. Fetches that are refused add nothing to it, nor do runs that find no code or are to run
nothing. -/
structure Remembers (processor : Processor σ) (fetched : List HistoryEntry) : Prop where
  recent : processor.history.items = fetched.rtake 32
  size : processor.history.size = min 32 fetched.length
  unfetched : ∀ (handler : Handler σ) (count : Nat) (earlier later : List (Taken σ))
    (taken : Taken σ)
    (access : InvalidAccess), processor.turns handler count = earlier ++ taken :: later →
    taken.fetched = .error access → taken.finish.history = taken.start.history
  unfound : ∀ (handler : Handler σ) (count : Nat) (access : InvalidAccess),
    processor.imageAt (processor.batch count).core.pc = .error access →
    (processor.run handler count).1.history = processor.history
  idle : ∀ handler : Handler σ, (processor.run handler 0).1.history = processor.history

/-- After any moves, the history is what the words fetched since creation come to in it. -/
theorem history_after (host : Host σ) (moves : List (Move σ)) :
    ((create host).after moves).history =
      Recent.empty.pushAll (fetchedWords ((create host).record moves)) := by
  apply after_induction (motive := fun turns reached =>
    reached.history = Recent.empty.pushAll (fetchedWords turns))
  · rfl
  · intro record reached move member noted
    rw [fetchedWords_append, Recent.pushAll_append, ← noted]
    cases move with
    | run handler count => exact run_history reached handler count
    | setRegisters registers => rfl
    | setMemory memory => rfl
    | setState state => rfl

/-- Whatever a host does with a processor, its history holds the last 32 of all words fetched since
it was created. -/
theorem history_remembers (host : Host σ) (moves : List (Move σ)) :
    ((create host).after moves).Remembers (fetchedWords ((create host).record moves)) where
  recent := by rw [history_after, Recent.items_pushAll]
  size := by
    rw [Recent.size, history_after, Recent.items_pushAll, List.rtake, List.length_drop]
    omega
  unfetched := by
    intro handler count earlier later taken access shape refused
    obtain ⟨image, _, split, _⟩ := turns_split shape
    rw [(Batch.faithful_of_turns split).history, Taken.entry?, refused]
    rfl
  unfound := by
    intro handler count access refused
    rw [run_history, turns, refused]
    rfl
  idle := by
    intro handler
    rw [run_history, turns_zero]
    rfl

end Processor

end ThumbMachine
