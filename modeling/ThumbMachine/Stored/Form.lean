/-
Module: ThumbMachine.Stored.Form
Purpose: The stored forms of registers, flags, configuration, history and named choices. A record is
  written by name, and read by name, where further names are ignored, or by position. Nothing is
  converted: a truth value is no number, a number no text.
Main exports: Stored, Stored.write, Stored.read?
-/
import ThumbMachine.History
import ThumbMachine.Instruction.Choice
import ThumbMachine.Memory.Basic
import ThumbMachine.RegisterFile
import ThumbMachine.Stored.Value

namespace ThumbMachine

/-- A type whose values can be stored. -/
class Stored (α : Type) where
  /-- The stored form of a value. -/
  write : α → StoredValue
  /-- The value of a stored form, when it is one. -/
  read? : StoredValue → Option α

namespace StoredValue

/-- Reads a truth value. -/
def truth? : StoredValue → Option Bool
  | truth value => some value
  | _ => none

/-- Reads a number that fits into a word of given width. -/
def word? (width : Nat) : StoredValue → Option (BitVec width)
  | natural value => if value < Nat.pow 2 width then some (BitVec.ofNat width value) else none
  | _ => none

/-- Reads a text. -/
def text? : StoredValue → Option String
  | text value => some value
  | _ => none

/-- Reads a list whose every item is readable. -/
def listOf? {α : Type} (item? : StoredValue → Option α) : StoredValue → Option (List α)
  | list items => items.mapM item?
  | _ => none

/-- The fields of a record in a given order: by name, or all of them by position. -/
def fields? (names : List String) : StoredValue → Option (List StoredValue)
  | record fields => names.mapM (field? fields)
  | list items => if items.length = names.length then some items else none
  | _ => none

/-- Reads a named choice: its name, or a record of that one name with nothing in it. -/
def choice? {α : Type} [Named α] : StoredValue → Option α
  | text name => Named.ofName? name
  | record [(name, null)] => Named.ofName? name
  | _ => none

end StoredValue

open StoredValue

instance : Stored Flags where
  write flags :=
    .record
      [("n", .truth flags.n), ("z", .truth flags.z), ("c", .truth flags.c), ("v", .truth flags.v),
        ("q", .truth flags.q)]
  read? value := do
    let [n, z, c, v, q] ← (← fields? ["n", "z", "c", "v", "q"] value).mapM truth? | none
    return { n, z, c, v, q }

instance : Stored MemoryConfig where
  write config := .record [("strict_alignment", .truth config.strictAlignment)]
  read? value := do
    let [strictAlignment] ← (← fields? ["strict_alignment"] value).mapM truth? | none
    return { strictAlignment }

instance : Stored HistoryEntry where
  write entry :=
    .record [("address", .natural entry.address.toNat), ("opcode", .natural entry.opcode.toNat)]
  read? value := do
    let [address, opcode] ← fields? ["address", "opcode"] value | none
    return { address := ← word? 32 address, opcode := ← word? 16 opcode }

instance : Stored RegisterFile where
  write file := .list (file.toList.map fun word => .natural word.toNat)
  read? value := do RegisterFile.ofList? (← listOf? (word? 32) value)

/-- A named choice is stored as its name. -/
instance (priority := low) {α : Type} [Named α] : Stored α where
  write value := .text (Named.name value)
  read? := choice?

instance : Stored String where
  write := .text
  read? := text?

/-- A buffer of recent items is stored as the list of its items. Reading takes a list of any length,
also one longer than the capacity. -/
instance {capacity : Nat} {α : Type} [Stored α] : Stored (Recent capacity α) where
  write recent := .record [("buffer", .list (recent.items.map Stored.write))]
  read? value := do
    let [buffer] ← fields? ["buffer"] value | none
    return ⟨← listOf? Stored.read? buffer⟩

end ThumbMachine
