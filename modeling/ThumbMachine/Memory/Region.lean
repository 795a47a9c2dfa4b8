/-
Module: ThumbMachine.Memory.Region
Purpose: Contiguous blocks of the address space, with bounds taken as natural numbers so that a
  block may end at the top of the space.
Main exports: Region, Region.stop, Region.contains, Region.overlaps
-/
import ThumbMachine.Word

namespace ThumbMachine

/-- A contiguous block of the address space. -/
structure Region where
  start : Word
  size : Word
deriving DecidableEq, Repr, Inhabited

namespace Region

/-- The first address past the block; one past the last address for a block at the top. -/
def stop (region : Region) : Nat := region.start.toNat + region.size.toNat

/-- Whether the `length` bytes from `address` on all lie in the block. No bytes lie in it wherever
they start between its two ends, both included. -/
def contains (region : Region) (address : Word) (length : Nat) : Bool :=
  region.start.toNat ≤ address.toNat && address.toNat + length ≤ region.stop

/-- Whether each block begins before the other ends. -/
def overlaps (region other : Region) : Bool :=
  region.start.toNat < other.stop && other.start.toNat < region.stop

end Region

end ThumbMachine
