/-
Module: ThumbMachine.Memory.Contents
Purpose: The bytes of one mapped region. What was given at mapping time is kept as it came, bytes
  stored later are kept beside it, and all other bytes are zero, so that a large region costs only
  what was put into it.
Main exports: Contents, Contents.get, Contents.slice, Contents.splice, Contents.get_splice
-/
import Std.Data.TreeMap
import ThumbMachine.Word

namespace ThumbMachine

/-- A byte string of fixed size that can be overwritten. -/
structure Contents where
  /-- How many bytes there are. -/
  size : Nat
  /-- The bytes given at mapping time; zeros follow. -/
  given : Array Byte
  /-- The bytes stored since, by offset. -/
  stored : Std.TreeMap Nat Byte

namespace Contents

/-- Zeros. -/
def zeros (size : Nat) : Contents := { size, given := #[], stored := ∅ }

/-- A copy of a byte string. -/
def ofBytes (bytes : List Byte) : Contents :=
  { size := bytes.length, given := bytes.toArray, stored := ∅ }

/-- The byte at an offset. -/
def get (contents : Contents) (offset : Nat) : Byte :=
  contents.stored.getD offset (contents.given.getD offset 0)

/-- The `length` bytes from an offset on. -/
def slice (contents : Contents) (offset length : Nat) : List Byte :=
  (List.range length).map fun index => contents.get (offset + index)

/-- Replaces one byte. -/
def set (contents : Contents) (offset : Nat) (byte : Byte) : Contents :=
  { contents with stored := contents.stored.insert offset byte }

/-- Replaces the bytes from an offset on. -/
def splice (contents : Contents) (offset : Nat) : List Byte → Contents
  | [] => contents
  | byte :: rest => (contents.set offset byte).splice (offset + 1) rest

@[simp] theorem get_zeros (size offset : Nat) : (zeros size).get offset = 0 := by
  simp [get, zeros]

theorem get_ofBytes (bytes : List Byte) (offset : Nat) :
    (ofBytes bytes).get offset = bytes.getD offset 0 := by
  simp [get, ofBytes]

theorem get_set (contents : Contents) (offset other : Nat) (byte : Byte) :
    (contents.set offset byte).get other = if other = offset then byte else contents.get other := by
  by_cases same : other = offset
  · subst same
    simp [get, set]
  · have apart : ¬ offset = other := fun equality => same equality.symm
    simp [get, set, Std.TreeMap.getD_insert, same, apart]

/-- Overwriting changes exactly the bytes it covers. -/
theorem get_splice (contents : Contents) (offset other : Nat) (bytes : List Byte) :
    (contents.splice offset bytes).get other =
      if offset ≤ other ∧ other < offset + bytes.length then bytes.getD (other - offset) 0
      else contents.get other := by
  induction bytes generalizing contents offset with
  | nil =>
      have empty : ¬ (offset ≤ other ∧ other < offset + ([] : List Byte).length) := by
        rw [List.length_nil]
        omega
      rw [splice, if_neg empty]
  | cons byte rest inductionHypothesis =>
      rw [splice, inductionHypothesis, get_set]
      by_cases here : other = offset
      · subst here
        have past : ¬ (other + 1 ≤ other ∧ other < other + 1 + rest.length) := by omega
        rw [if_neg past]
        simp
      · by_cases inside : offset ≤ other ∧ other < offset + (rest.length + 1)
        · have later : offset + 1 ≤ other ∧ other < offset + 1 + rest.length := by omega
          have position : other - offset = (other - (offset + 1)) + 1 := by omega
          simp [inside, later, position]
        · have notLater : ¬ (offset + 1 ≤ other ∧ other < offset + 1 + rest.length) := by omega
          rw [if_neg notLater, if_neg here, List.length_cons, if_neg inside]

@[simp] theorem size_splice (contents : Contents) (offset : Nat) (bytes : List Byte) :
    (contents.splice offset bytes).size = contents.size := by
  induction bytes generalizing contents offset with
  | nil => rfl
  | cons byte rest inductionHypothesis => rw [splice, inductionHypothesis, set]

@[simp] theorem length_slice (contents : Contents) (offset length : Nat) :
    (contents.slice offset length).length = length := by
  simp [slice]

end Contents

end ThumbMachine
