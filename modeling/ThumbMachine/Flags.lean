/-
Module: ThumbMachine.Flags
Purpose: The five condition flags, and their places in the packed status word.
Main exports: Flags, Flags.ofStatus, Flags.toStatus, Flags.mergeInto
-/
import ThumbMachine.Word

namespace ThumbMachine

/-- The condition flags, unpacked. -/
structure Flags where
  /-- Negative: bit 31 of the last result. -/
  n : Bool
  /-- Zero: the last result was zero. -/
  z : Bool
  /-- Carry: unsigned carry out, or no borrow in a subtraction. -/
  c : Bool
  /-- Overflow of the signed reading. -/
  v : Bool
  /-- Sticky saturation: carried along, never produced by an instruction. -/
  q : Bool
deriving DecidableEq, Repr, Inhabited

namespace Flags

/-- Bits 31 to 27 of the status word: N, Z, C, V, Q from the top. -/
def mask : Word := 0xF8000000#32

/-- Unpacks the flags of a status word. -/
def ofStatus (status : Word) : Flags :=
  { n := status.getLsbD 31
    z := status.getLsbD 30
    c := status.getLsbD 29
    v := status.getLsbD 28
    q := status.getLsbD 27 }

/-- Packs the flags into a status word whose other bits are clear. -/
def toStatus (flags : Flags) : Word :=
  (BitVec.ofBool flags.n ++ BitVec.ofBool flags.z ++ BitVec.ofBool flags.c
    ++ BitVec.ofBool flags.v ++ BitVec.ofBool flags.q ++ 0#27)

/-- Packs the flags into an existing status word, whose bits 26 to 0 stay. -/
def mergeInto (flags : Flags) (status : Word) : Word :=
  (status &&& ~~~mask) ||| flags.toStatus

/-- N and Z from a result; C, V and Q stay. -/
def setSignZero (flags : Flags) (result : Word) : Flags :=
  { flags with n := result.getLsbD 31, z := result == 0 }

end Flags

end ThumbMachine
