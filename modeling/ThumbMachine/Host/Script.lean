/-
Module: ThumbMachine.Host.Script
Purpose: A host that follows a script: for each interrupt code a list of actions on registers and
  memory, and the answers to give to its calls in turn. It keeps a log of its calls.
Main exports: ScriptAction, ScriptEntry, ScriptedHost, ScriptedHost.handler
-/
import ThumbMachine.Host.Basic
import ThumbMachine.Memory.Datum

namespace ThumbMachine

/-- One action of a scripted host. -/
inductive ScriptAction where
  /-- Set a register. -/
  | set (slot : Slot) (value : Word)
  /-- Add to a register, wrapping. -/
  | add (slot : Slot) (value : Word)
  /-- Read a datum into a register. -/
  | read (datum : Datum) (slot : Slot) (address : Word)
  /-- Write the low bytes of a word. -/
  | write (datum : Datum) (address value : Word)
  /-- Put the start of the region that holds a range into a register. -/
  | region (slot : Slot) (address : Word) (length : Nat)
deriving DecidableEq, Repr

/-- What the host does at one interrupt code. -/
structure ScriptEntry where
  actions : List ScriptAction
  /-- The answers to the calls in turn, `none` for going on; the last one repeats. -/
  answers : List (Option Halt)
deriving DecidableEq, Repr

namespace ScriptEntry

/-- The answer to a call, given how many were answered before it. -/
def answer (entry : ScriptEntry) (answered : Nat) : Option Halt :=
  ((entry.answers[answered]?).or entry.answers.getLast?).join

end ScriptEntry

/-- A call as the host found it: the code, the stored program counter and the stored status word. -/
structure HostCall where
  code : Byte
  pc : Word
  status : Word
deriving DecidableEq, Repr

/-- A scripted host: its script, the codes of the calls it has answered, and the log of all
calls, newest first. -/
structure ScriptedHost where
  script : List (Byte × ScriptEntry)
  answered : List Byte
  calls : List HostCall
deriving DecidableEq, Repr

namespace ScriptedHost

/-- A host that has not been called. -/
def create (script : List (Byte × ScriptEntry)) : ScriptedHost :=
  { script, answered := [], calls := [] }

/-- Carries out one action. -/
def act (host : Host ScriptedHost) : ScriptAction → Except InvalidAccess (Host ScriptedHost)
  | .set slot value => .ok { host with registers := host.registers.set slot value }
  | .add slot value =>
      .ok { host with registers := host.registers.set slot (host.registers.get slot + value) }
  | .read datum slot address => do
      let value ← datum.read host.memory address
      return { host with registers := host.registers.set slot value }
  | .write datum address value => do
      let memory ← datum.write host.memory address value
      return { host with memory }
  | .region slot address length => do
      let region ← host.memory.findRegion address length
      return { host with registers := host.registers.set slot region.start }

/-- Carries out actions in turn, up to the first refused access; those before it stay done. -/
def actAll (host : Host ScriptedHost) : List ScriptAction → Host ScriptedHost × Option InvalidAccess
  | [] => (host, none)
  | action :: rest =>
      match act host action with
      | .ok next => actAll next rest
      | .error access => (host, some access)

/-- Logs a call, follows the script for its code, and answers. A code without an entry is answered
by going on. A refused access is itself the answer, and such a call does not use up a scripted
one. -/
def handler : Handler ScriptedHost := fun code host =>
  let call : HostCall := { code, pc := host.registers.pc, status := host.registers.status }
  let host := { host with state := { host.state with calls := call :: host.state.calls } }
  match host.state.script.lookup code with
  | none => (host, none)
  | some entry =>
      match actAll host entry.actions with
      | (after, some access) => (after, some (.fault (.invalidAccess access)))
      | (after, none) =>
          let answered := after.state.answered
          ({ after with state := { after.state with answered := code :: answered } },
            entry.answer (answered.count code))

end ScriptedHost

end ThumbMachine
