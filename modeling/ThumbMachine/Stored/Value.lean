/-
Module: ThumbMachine.Stored.Value
Purpose: The data that state is stored as: the values of a self-describing text format.
Main exports: StoredValue, StoredValue.field?
-/
namespace ThumbMachine

/-- A stored value. -/
inductive StoredValue where
  | null
  | truth (value : Bool)
  /-- A number written as a natural number. -/
  | natural (value : Nat)
  /-- A number with a sign, a fraction or an exponent. -/
  | otherNumber
  | text (value : String)
  | list (items : List StoredValue)
  /-- Named values; a name occurs once. -/
  | record (fields : List (String × StoredValue))
deriving Repr, Inhabited

namespace StoredValue

/-- The value of a name. -/
def field? (fields : List (String × StoredValue)) (name : String) : Option StoredValue :=
  fields.lookup name

end StoredValue

end ThumbMachine
