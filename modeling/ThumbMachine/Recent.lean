/-
Module: ThumbMachine.Recent
Purpose: A buffer of the most recent items, oldest first. An item pushed into a full buffer drives
  out the oldest one.
Main exports: Recent, Recent.push, Recent.join
-/
namespace ThumbMachine

/-- The most recent items pushed, oldest first. -/
structure Recent (capacity : Nat) (α : Type) where
  items : List α
deriving DecidableEq, Repr

namespace Recent

variable {capacity : Nat} {α : Type}

/-- No items. -/
def empty : Recent capacity α := ⟨[]⟩

instance : Inhabited (Recent capacity α) := ⟨empty⟩

/-- Adds the newest item. A buffer that holds exactly its capacity drops its oldest item first; one
of capacity 0 takes nothing. -/
def push (recent : Recent capacity α) (item : α) : Recent capacity α :=
  if capacity = 0 then recent
  else if recent.items.length = capacity then ⟨recent.items.tail ++ [item]⟩
  else ⟨recent.items ++ [item]⟩

/-- How many items there are. -/
def size (recent : Recent capacity α) : Nat := recent.items.length

/-- Whether there are none. -/
def isEmpty (recent : Recent capacity α) : Bool := recent.items.isEmpty

/-- The newest item. -/
def last? (recent : Recent capacity α) : Option α := recent.items.getLast?

/-- The items, newest first. -/
def newestFirst (recent : Recent capacity α) : List α := recent.items.reverse

/-- Drops every item. -/
def clear (_ : Recent capacity α) : Recent capacity α := empty

/-- The texts of the items, oldest first, with a separator between them. -/
def join (recent : Recent capacity α) (text : α → String) (separator : String) : String :=
  String.intercalate separator (recent.items.map text)

end Recent

end ThumbMachine
