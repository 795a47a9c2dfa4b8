/-
Module: ThumbMachine.Named
Purpose: Finite choices whose values have names, read back by name.
Main exports: Named, Named.ofName?
-/
namespace ThumbMachine

/-- A type of finitely many values, each with a name. -/
class Named (α : Type) where
  /-- All values, in order of declaration. -/
  values : List α
  /-- The name of a value. -/
  name : α → String

namespace Named

/-- The value of a name: names are told apart by every letter, its case included. -/
def ofName? {α : Type} [Named α] (text : String) : Option α :=
  values.find? fun value => name value == text

end Named

end ThumbMachine
