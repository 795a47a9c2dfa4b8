/-
Module: ThumbMachine.Host.Basic
Purpose: The host's side of a software interrupt: what it is handed, what it may change, and how it
  answers.
Main exports: Host, Handler, Handler.refuseAll
-/
import ThumbMachine.Memory.Basic
import ThumbMachine.RegisterFile

namespace ThumbMachine

/-- What the host owns: the register store, the memory, and a state of its own. -/
structure Host (σ : Type) where
  registers : RegisterFile
  memory : Memory
  state : σ

/-- The host's answer to an interrupt code. It may change all it owns; without a halt the batch goes
on from the registers it leaves in the store. -/
abbrev Handler (σ : Type) := Byte → Host σ → Host σ × Option Halt

namespace Handler

/-- Stops at every interrupt. -/
def refuseAll {σ : Type} : Handler σ := fun _ host => (host, some .stop)

end Handler

end ThumbMachine
