/-
Module: ThumbMachine.Fault
Purpose: Why an access is refused, why an instruction faults, why a batch ends early, and the one
  wording of each.
Main exports: InvalidAccess, Fault, Halt, Halt.message, Halt.isSignal
-/
import ThumbMachine.Text.Hex

namespace ThumbMachine

/-- An access to memory that was refused: its first address and its length in bytes. -/
structure InvalidAccess where
  address : Word
  size : Word
deriving DecidableEq, Repr, Inhabited

namespace InvalidAccess

/-- The refusal of `length` bytes at `address`. A length past the largest word is reported as that
word. -/
def of (address : Word) (length : Nat) : InvalidAccess :=
  { address, size := BitVec.ofNat 32 (min length 0xFFFFFFFF) }

/-- The wording of a refusal. -/
def message (access : InvalidAccess) : String :=
  "invalid memory access of " ++ toString access.size.toNat ++ " byte(s) at 0x"
    ++ Hex.padded 8 access.address.toNat

end InvalidAccess

/-- Why an instruction could not be fetched, decoded or executed. -/
inductive Fault where
  /-- The word is reserved or unassigned. -/
  | unknownInstruction (opcode : Halfword) (address : Word)
  /-- The word is a valid encoding outside the implemented set. -/
  | unsupportedInstruction (opcode : Halfword) (address : Word)
  /-- Memory refused an access. -/
  | invalidAccess (access : InvalidAccess)
  /-- An indirect branch asked for the other instruction set. -/
  | invalidTarget (target : Word)
  /-- A software interrupt reached the executor, which has no host to hand it to. -/
  | internalLogic (opcode : Halfword)
deriving DecidableEq, Repr, Inhabited

namespace Fault

/-- The wording of a fault. -/
def message : Fault → String
  | unknownInstruction opcode address =>
      "unknown instruction 0x" ++ Hex.padded 4 opcode.toNat ++ " at 0x"
        ++ Hex.padded 8 address.toNat
  | unsupportedInstruction opcode address =>
      "unsupported instruction 0x" ++ Hex.padded 4 opcode.toNat ++ " at 0x"
        ++ Hex.padded 8 address.toNat
  | invalidAccess access => access.message
  | invalidTarget target => "branch target 0x" ++ Hex.padded 8 target.toNat ++ " requests ARM state"
  | internalLogic opcode => "internal logic error on instruction 0x" ++ Hex.padded 4 opcode.toNat

end Fault

/-- Why a batch ended before its budget did. -/
inductive Halt where
  /-- The host asked for a pause. -/
  | pause
  /-- The host asked for a stop. -/
  | stop
  /-- An instruction, or the host itself, met a fault. -/
  | fault (cause : Fault)
deriving DecidableEq, Repr, Inhabited

namespace Halt

/-- The wording of a halt. -/
def message : Halt → String
  | pause => "execution paused by the interrupt handler"
  | stop => "execution stopped by the interrupt handler"
  | fault cause => cause.message

/-- A pause or a stop is a signal of the host; everything else is a fault. -/
def isSignal : Halt → Bool
  | pause | stop => true
  | fault _ => false

end Halt

end ThumbMachine
