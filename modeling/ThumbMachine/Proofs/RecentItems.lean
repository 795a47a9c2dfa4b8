/-
Module: ThumbMachine.Proofs.RecentItems
Purpose: A buffer of recent items in use. After any pushes and clears, what it shows, from whichever
  end and by whichever observer, is the last of the items pushed since the last clear, as many as
  its capacity.
Main exports: Recent.items_push, Recent.Edit, Recent.edited, Recent.pushedSince,
  Recent.items_edited, Recent.items_pushAll, Recent.Shows, Recent.edited_shows
-/
import Mathlib.Data.List.DropRight
import ThumbMachine.Recent

namespace ThumbMachine

namespace Recent

variable {capacity : Nat} {α : Type}

/-! ## One push -/

/-- A push keeps the newest items, as many as fit. -/
theorem items_push (recent : Recent capacity α) (item : α)
    (fits : recent.items.length ≤ capacity) :
    (recent.push item).items = (recent.items ++ [item]).rtake capacity := by
  obtain ⟨items⟩ := recent
  cases capacity with
  | zero =>
      rw [List.rtake_zero]
      exact List.eq_nil_of_length_eq_zero (Nat.le_zero.1 fits)
  | succ most =>
      rw [push, if_neg (Nat.succ_ne_zero most), List.rtake_concat_succ]
      split
      · rename_i full
        rw [List.rtake, full, Nat.add_sub_cancel_left, List.drop_one]
      · rename_i room
        have all : items.length - most = 0 := by
          change items.length ≤ most + 1 at fits
          change ¬ items.length = most + 1 at room
          omega
        rw [List.rtake, all, List.drop_zero]

theorem length_rtake_le (items : List α) (most : Nat) : (items.rtake most).length ≤ most := by
  rw [List.rtake, List.length_drop]
  omega

/-- The newest of the newest items and one more. -/
theorem rtake_rtake_concat (items : List α) (item : α) (most : Nat) :
    (items.rtake most ++ [item]).rtake most = (items ++ [item]).rtake most := by
  cases most with
  | zero => rw [List.rtake_zero, List.rtake_zero]
  | succ most =>
      rw [List.rtake_concat_succ, List.rtake_concat_succ, List.rtake, List.rtake, List.rtake,
        List.length_drop, List.drop_drop]
      congr 2
      omega

/-! ## Pushes and clears -/

/-- What a holder does to a buffer. -/
inductive Edit (α : Type) where
  | push (item : α)
  | clear
deriving DecidableEq, Repr

/-- The item of a push. -/
def Edit.pushed? : Edit α → Option α
  | push item => some item
  | clear => none

/-- The buffer after one edit. -/
def edit (recent : Recent capacity α) : Edit α → Recent capacity α
  | .push item => recent.push item
  | .clear => recent.clear

/-- A new buffer after some edits in order. -/
def edited (capacity : Nat) (edits : List (Edit α)) : Recent capacity α := edits.foldl edit empty

/-- The items pushed since the last clear, in order: those of the pushes that the edits end with. -/
def pushedSince (edits : List (Edit α)) : List α :=
  (edits.rtakeWhile (·.pushed?.isSome)).filterMap Edit.pushed?

@[simp] theorem pushedSince_nil : pushedSince ([] : List (Edit α)) = [] := rfl

@[simp] theorem pushedSince_push (edits : List (Edit α)) (item : α) :
    pushedSince (edits ++ [.push item]) = pushedSince edits ++ [item] := by
  rw [pushedSince, List.rtakeWhile_concat_pos _ _ _ rfl, List.filterMap_append]
  rfl

@[simp] theorem pushedSince_clear (edits : List (Edit α)) :
    pushedSince (edits ++ [.clear]) = [] := by
  rw [pushedSince, List.rtakeWhile_concat_neg _ _ _ (by simp [Edit.pushed?])]
  rfl

/-- What is pushed after a clear, or into a new buffer, is what is pushed since then. -/
theorem pushedSince_append_push (edits : List (Edit α)) (items : List α) :
    pushedSince (edits ++ items.map .push) = pushedSince edits ++ items := by
  induction items using List.reverseRecOn with
  | nil => rw [List.map_nil, List.append_nil, List.append_nil]
  | append_singleton before item inductionHypothesis =>
      rw [List.map_append, ← List.append_assoc, List.map_singleton, pushedSince_push,
        inductionHypothesis, List.append_assoc]

/-- The items of a buffer are the last of those pushed since the last clear. -/
theorem items_edited (edits : List (Edit α)) :
    (edited capacity edits).items = (pushedSince edits).rtake capacity := by
  induction edits using List.reverseRecOn with
  | nil => exact (List.rtake_nil capacity).symm
  | append_singleton before last inductionHypothesis =>
      have final : edited capacity (before ++ [last]) = (edited capacity before).edit last :=
        List.foldl_concat ..
      rw [final]
      cases last with
      | push item =>
          have fits := length_rtake_le (pushedSince before) capacity
          rw [← inductionHypothesis] at fits
          rw [edit, items_push _ _ fits, inductionHypothesis, rtake_rtake_concat, pushedSince_push]
      | clear =>
          rw [pushedSince_clear, List.rtake_nil]
          rfl

/-! ## Pushes alone -/

/-- Adds items in order. -/
def pushAll (recent : Recent capacity α) (items : List α) : Recent capacity α :=
  items.foldl push recent

theorem pushAll_append (recent : Recent capacity α) (items further : List α) :
    recent.pushAll (items ++ further) = (recent.pushAll items).pushAll further :=
  List.foldl_append

/-- A buffer keeps the last of all items it was given, as many as its capacity, oldest first. -/
theorem items_pushAll (items : List α) :
    ((empty : Recent capacity α).pushAll items).items = items.rtake capacity := by
  have pushes : (empty : Recent capacity α).pushAll items = edited capacity (items.map .push) :=
    (List.foldl_map (f := Edit.push) (g := edit)).symm
  have pushed := pushedSince_append_push [] items
  rw [List.nil_append, pushedSince_nil, List.nil_append] at pushed
  rw [pushes, items_edited, pushed]

/-! ## What the observers tell -/

/-- A buffer that shows a list of items, oldest first. All that can be asked of it is told by the
list. -/
structure Shows (recent : Recent capacity α) (shown : List α) : Prop where
  items : recent.items = shown
  size : recent.size = shown.length
  isEmpty : recent.isEmpty = true ↔ shown = []
  last : ∀ item, recent.last? = some item ↔ ∃ earlier, shown = earlier ++ [item]
  newestFirst : recent.newestFirst = shown.reverse
  join : ∀ (text : α → String) (separator : String), (recent.join text separator).toList =
    separator.toList.intercalate (shown.map fun item => (text item).toList)

theorem shows_items (recent : Recent capacity α) : recent.Shows recent.items where
  items := rfl
  size := rfl
  isEmpty := List.isEmpty_iff
  last _ := List.getLast?_eq_some_iff
  newestFirst := rfl
  join text separator := by
    rw [join, String.toList_intercalate, List.map_map]
    rfl

/-- After any pushes and clears, a buffer shows exactly the last of the items pushed since the last
clear, in the order of their pushes: as many as its capacity, or all of them if there are fewer. -/
theorem edited_shows (capacity : Nat) (edits : List (Edit α)) :
    (edited capacity edits).Shows
      ((pushedSince edits).drop
        ((pushedSince edits).length - min capacity (pushedSince edits).length)) := by
  have shown := shows_items (edited capacity edits)
  have last : (pushedSince edits).length - min capacity (pushedSince edits).length =
      (pushedSince edits).length - capacity := by
    omega
  rwa [items_edited, List.rtake, ← last] at shown

example : (edited 2 [.push 1, .clear, .push 2, .push 3, .push 4]).items = [3, 4] := by decide

end Recent

end ThumbMachine
