/-
Module: ThumbMachine.Proofs.Capacity
Purpose: How many items a buffer of recent items holds. Pushing and clearing keep it within its
  capacity, and so does restoring a list that fits. A restored list that is too long is taken as it
  is; a push drops an item only from a buffer that is exactly full, so from then on every push makes
  the buffer longer.
Main exports: Recent.Use, Recent.after, Recent.size_push, Recent.Bounded, Recent.bounded_iff
-/
import ThumbMachine.Proofs.RecentWords
import ThumbMachine.Stored.Form

namespace ThumbMachine

namespace Recent

variable {capacity : Nat} {α : Type}

/-! ## One push -/

/-- A push makes a buffer longer by one, unless it has no capacity or is exactly full. -/
theorem size_push (recent : Recent capacity α) (item : α) :
    (recent.push item).size =
      if capacity = 0 ∨ recent.size = capacity then recent.size else recent.size + 1 := by
  obtain ⟨items⟩ := recent
  by_cases none_ : capacity = 0
  · simp [push, none_]
  by_cases full : items.length = capacity
  · have some_ : 1 ≤ items.length := by omega
    simp [push, size, none_, full]
    omega
  · simp [push, size, none_, full]

/-- Of the buffers that hold their capacity at least, a push lengthens those that hold more. -/
theorem size_lt_push_iff {recent : Recent capacity α} (item : α) (filled : capacity ≤ recent.size) :
    recent.size < (recent.push item).size ↔ 0 < capacity ∧ capacity < recent.size := by
  rw [size_push]
  split <;> omega

/-- A buffer that holds more than its capacity grows by every item pushed. -/
theorem size_pushAll_of_overfull {recent : Recent capacity α} (some_ : 0 < capacity)
    (overfull : capacity < recent.size) (items : List α) :
    (recent.pushAll items).size = recent.size + items.length := by
  induction items generalizing recent with
  | nil => rfl
  | cons item rest inductionHypothesis =>
      have longer : (recent.push item).size = recent.size + 1 := by
        rw [size_push, if_neg (by omega)]
      change ((recent.push item).pushAll rest).size = _
      rw [inductionHypothesis (by omega), longer, List.length_cons]
      omega

/-! ## A buffer in use -/

/-- What a holder does with a buffer. -/
inductive Use (α : Type) where
  /-- Takes a new one in its place. -/
  | renew
  | push (item : α)
  | clear
  /-- Takes in its place what a stored value is read as, if it is the stored form of a buffer. -/
  | restore (stored : StoredValue)

variable [Stored α]

/-- The buffer after one use. -/
def use (recent : Recent capacity α) : Use α → Recent capacity α
  | .renew => empty
  | .push item => recent.push item
  | .clear => recent.clear
  | .restore stored => (Stored.read? stored).getD recent

/-- The buffer after some uses. -/
def after (recent : Recent capacity α) (uses : List (Use α)) : Recent capacity α :=
  uses.foldl use recent

theorem after_concat (recent : Recent capacity α) (uses : List (Use α)) (last : Use α) :
    recent.after (uses ++ [last]) = (recent.after uses).use last :=
  List.foldl_concat ..

/-- Nothing is restored that holds more items than the capacity. -/
def Use.Fits (capacity : Nat) : Use α → Prop
  | .restore stored =>
      ∀ restored : Recent capacity α, Stored.read? stored = some restored → restored.size ≤ capacity
  | .renew | .push _ | .clear => True

/-- One use that restores nothing too long keeps a buffer within its capacity. -/
theorem size_use_le {recent : Recent capacity α} {used : Use α} (within : recent.size ≤ capacity)
    (fits : used.Fits capacity) : (recent.use used).size ≤ capacity := by
  cases used with
  | renew => exact Nat.zero_le capacity
  | push item =>
      rw [use, size_push]
      split <;> omega
  | clear => exact Nat.zero_le capacity
  | restore stored =>
      rw [use]
      cases read : (Stored.read? stored : Option (Recent capacity α)) with
      | none => exact within
      | some restored => exact fits restored read

/-- And so do any number of them. -/
theorem size_after_le {recent : Recent capacity α} {uses : List (Use α)}
    (within : recent.size ≤ capacity) (fits : ∀ used ∈ uses, used.Fits capacity) :
    (recent.after uses).size ≤ capacity := by
  induction uses generalizing recent with
  | nil => exact within
  | cons used rest inductionHypothesis =>
      have ⟨first, others⟩ := List.forall_mem_cons.1 fits
      exact inductionHypothesis (size_use_le within first) others

/-- A buffer that begins empty never holds more than its capacity while it is used, and no push
makes it longer once it holds as much. -/
structure Bounded (capacity : Nat) (uses : List (Use α)) : Prop where
  within : ∀ earlier, earlier <+: uses → ((empty : Recent capacity α).after earlier).size ≤ capacity
  level : ∀ earlier item, earlier ++ [.push item] <+: uses →
    capacity ≤ ((empty : Recent capacity α).after earlier).size →
    ((empty : Recent capacity α).after (earlier ++ [.push item])).size ≤
      ((empty : Recent capacity α).after earlier).size

/-- A buffer is bounded exactly when nothing too long is restored to it. Of the buffers that hold
their capacity at least, a push lengthens those that hold more, unless the capacity is 0, and so
does every push that follows. -/
theorem bounded_iff (capacity : Nat) (uses : List (Use α)) :
    (Bounded capacity uses ↔ ∀ used ∈ uses, used.Fits capacity) ∧
      (∀ (recent : Recent capacity α) (item : α), capacity ≤ recent.size →
        (recent.size < (recent.push item).size ↔ 0 < capacity ∧ capacity < recent.size)) ∧
      (∀ (recent : Recent capacity α) (items : List α), 0 < capacity → capacity < recent.size →
        (recent.pushAll items).size = recent.size + items.length) := by
  refine ⟨⟨?_, ?_⟩, fun _ => size_lt_push_iff, fun _ items some_ overfull =>
    size_pushAll_of_overfull some_ overfull items⟩
  · intro bounded used member
    cases used with
    | renew => trivial
    | push item => trivial
    | clear => trivial
    | restore stored =>
        intro restored read
        obtain ⟨earlier, later, rfl⟩ := List.append_of_mem member
        have within := bounded.within (earlier ++ [.restore stored]) ⟨later, by simp⟩
        rwa [after_concat, use, read] at within
  · intro fits
    have within {earlier : List (Use α)} (before : earlier <+: uses) :
        ((empty : Recent capacity α).after earlier).size ≤ capacity :=
      size_after_le (Nat.zero_le capacity) fun used member => fits used (before.subset member)
    refine ⟨fun _ => within, fun earlier item before filled => ?_⟩
    exact Nat.le_trans (within before) filled

/-- Three texts restored to a buffer for two, and one pushed. -/
def overlong : List (Use String) :=
  [.restore (.record [("buffer", .list [.text "a", .text "b", .text "c"])]), .push "d"]

/-- The buffer holds all three texts, and the push makes it longer. -/
theorem overlong_exceeds_capacity :
    ((empty : Recent 2 String).after (overlong.take 1)).items = ["a", "b", "c"] ∧
      ((empty : Recent 2 String).after overlong).items = ["a", "b", "c", "d"] ∧
        ¬ Bounded 2 overlong := by
  refine ⟨by decide, by decide, fun bounded => ?_⟩
  have within := bounded.within _ (List.take_prefix 1 overlong)
  revert within
  decide

end Recent

end ThumbMachine
