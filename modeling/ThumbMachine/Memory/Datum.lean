/-
Module: ThumbMachine.Memory.Datum
Purpose: Access to memory by size of datum, with registers as the other side.
Main exports: Datum, Datum.read, Datum.write
-/
import ThumbMachine.Memory.Basic

namespace ThumbMachine

/-- The size of a transferred datum. -/
inductive Datum where
  | word
  | halfword
  | byte
deriving DecidableEq, Repr, Inhabited

namespace Datum

/-- Its bytes. -/
def bytes : Datum → Nat
  | word => 4
  | halfword => 2
  | byte => 1

/-- Reads a datum and fills the word above it with zeros. -/
def read (datum : Datum) (memory : Memory) (address : Word) : Except InvalidAccess Word :=
  match datum with
  | word => memory.readWord address
  | halfword => (memory.readHalfword address).map (·.setWidth 32)
  | byte => (memory.readByte address).map (·.setWidth 32)

/-- Writes the low bytes of a word. -/
def write (datum : Datum) (memory : Memory) (address value : Word) : Except InvalidAccess Memory :=
  match datum with
  | word => memory.writeWord address value
  | halfword => memory.writeHalfword address (value.setWidth 16)
  | byte => memory.writeByte address (value.setWidth 8)

end Datum

end ThumbMachine
