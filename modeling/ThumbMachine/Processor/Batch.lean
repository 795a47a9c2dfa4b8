/-
Module: ThumbMachine.Processor.Batch
Purpose: The loop of a batch: fetch, decode, execute, account. Each turn of the loop is a total
  function; the loop ends because every turn either spends budget or uses up the one refund that may
  not follow another.
Main exports: Batch, Turn, Batch.turn, Ending, Batch.run
-/
import ThumbMachine.CodeImage
import ThumbMachine.Core.Execute
import ThumbMachine.History
import ThumbMachine.Host.Basic

namespace ThumbMachine

/-- A batch between two turns of its loop. -/
structure Batch (σ : Type) where
  core : Core
  host : Host σ
  history : History
  /-- How many more units may be spent. -/
  budget : Nat
  /-- Whether the last executed instruction was the first half of a BL that cost nothing. -/
  refunded : Bool
  /-- How many units the batch has been charged. -/
  retired : Nat

/-- What one turn came to. -/
inductive Turn (σ : Type) where
  /-- The batch goes on. -/
  | running (batch : Batch σ)
  /-- The host ended the batch. -/
  | interrupted (halt : Halt) (batch : Batch σ)
  /-- The instruction could not be fetched, decoded or executed. -/
  | faulted (cause : Fault) (batch : Batch σ)

namespace Batch

variable {σ : Type}

/-- Hands an interrupt to the host: the core is packed into the register store, and unpacked again
from what the host left there. A host that stops the batch leaves the program counter one
instruction further. The instruction counts in any case, and the refund mark stays as it is. -/
def interrupt (batch : Batch σ) (handler : Handler σ) (code : Byte) : Turn σ :=
  let (host, answer) := handler code { batch.host with registers := batch.core.toFile }
  let core := Core.ofFile host.registers
  let after := { batch with core, host, retired := batch.retired + 1 }
  match answer with
  | none => .running after
  | some .stop => .interrupted .stop { after with core := core.setPc core.nextPc }
  | some halt => .interrupted halt after

/-- Whether an instruction is the first half of a BL. -/
def isLongBranchHigh : Instruction → Bool
  | .longBranchHigh _ => true
  | _ => false

/-- Accounts for a completed instruction. The first half of a BL gets its unit back, so that the
pair costs one, but not directly after another refund. -/
def charge (batch : Batch σ) (instruction : Instruction) : Batch σ :=
  if isLongBranchHigh instruction && !batch.refunded then
    { batch with budget := batch.budget + 1, refunded := true }
  else
    { batch with refunded := false, retired := batch.retired + 1 }

/-- Executes a decoded instruction. -/
def step (batch : Batch σ) (word : Halfword) (instruction : Instruction) : Turn σ :=
  let step := execute word instruction { core := batch.core, memory := batch.host.memory }
  let after :=
    { batch with
      core := step.machine.core
      host := { batch.host with memory := step.machine.memory } }
  match step.fault with
  | none => .running (after.charge instruction)
  | some cause => .faulted cause after

/-- Decodes a fetched word and carries it out. -/
def dispatch (batch : Batch σ) (handler : Handler σ) (word : Halfword) : Turn σ :=
  match decode word with
  | .error error => .faulted (error.toFault word batch.core.pc) batch
  | .ok (.softwareInterrupt code) => batch.interrupt handler code
  | .ok instruction => batch.step word instruction

/-- Spends a unit. -/
def spend (batch : Batch σ) : Batch σ := { batch with budget := batch.budget - 1 }

/-- Notes a fetched word. -/
def note (batch : Batch σ) (word : Halfword) : Batch σ :=
  { batch with history := batch.history.push ⟨batch.core.pc, word⟩ }

/-- One turn of the loop. A word is noted as soon as it is fetched, whatever becomes of it. -/
def turn (batch : Batch σ) (image : CodeImage) (handler : Handler σ) : Turn σ :=
  match image.fetch batch.core.pc with
  | .error access => .faulted (.invalidAccess access) batch.spend
  | .ok word => (batch.spend.note word).dispatch handler word

/-- What bounds the number of turns: two for each unit left, and one more while a refund is open. -/
def measure (batch : Batch σ) : Nat := 2 * batch.budget + if batch.refunded then 0 else 1

theorem measure_charge_lt (batch : Batch σ) (instruction : Instruction) :
    (batch.charge instruction).measure < batch.measure + 2 := by
  unfold charge
  split
  · rename_i refund
    have closed : batch.refunded = false := by
      simp only [Bool.and_eq_true, Bool.not_eq_true'] at refund
      exact refund.2
    simp [measure, closed]
    omega
  · simp only [measure, Bool.false_eq_true, if_false]
    omega

theorem measure_interrupt {batch next : Batch σ} {handler : Handler σ} {code : Byte}
    (running : batch.interrupt handler code = .running next) : next.measure = batch.measure := by
  unfold interrupt at running
  simp only at running
  split at running
  · cases running
    rfl
  · cases running
  · cases running

theorem measure_step {batch next : Batch σ} {word : Halfword} {instruction : Instruction}
    (running : batch.step word instruction = .running next) :
    next.measure < batch.measure + 2 := by
  unfold step at running
  simp only at running
  split at running
  · cases running
    exact measure_charge_lt _ instruction
  · cases running

theorem measure_dispatch {batch next : Batch σ} {handler : Handler σ} {word : Halfword}
    (running : batch.dispatch handler word = .running next) :
    next.measure < batch.measure + 2 := by
  unfold dispatch at running
  split at running
  · cases running
  · rw [measure_interrupt running]
    omega
  · exact measure_step running

/-- Every turn that goes on brings the batch nearer to its end. -/
theorem measure_turn {batch next : Batch σ} {image : CodeImage} {handler : Handler σ}
    (funded : batch.budget ≠ 0) (running : batch.turn image handler = .running next) :
    next.measure < batch.measure := by
  unfold turn at running
  split at running
  · cases running
  · rename_i word fetched
    have bound := measure_dispatch running
    have spent : (batch.spend.note word).measure + 2 = batch.measure := by
      show 2 * (batch.budget - 1) + (if batch.refunded then 0 else 1) + 2 = batch.measure
      rw [measure]
      omega
    omega

end Batch

/-- Why a batch ended. -/
inductive Ending where
  /-- The budget was spent. -/
  | exhausted
  /-- The host ended it. -/
  | interrupted (halt : Halt)
  /-- An instruction could not be fetched, decoded or executed. -/
  | faulted (cause : Fault)
deriving DecidableEq, Repr, Inhabited

namespace Ending

/-- What the caller of a batch is told. -/
def halt? : Ending → Option Halt
  | exhausted => none
  | interrupted halt => some halt
  | faulted cause => some (.fault cause)

end Ending

namespace Batch

variable {σ : Type}

/-- Takes turns until the budget is spent or a turn ends the batch. -/
def run (batch : Batch σ) (image : CodeImage) (handler : Handler σ) : Batch σ × Ending :=
  if funded : batch.budget = 0 then (batch, .exhausted)
  else
    match taken : batch.turn image handler with
    | .running next =>
        have : next.measure < batch.measure := measure_turn funded taken
        next.run image handler
    | .interrupted halt last => (last, .interrupted halt)
    | .faulted cause last => (last, .faulted cause)
termination_by batch.measure

end Batch

end ThumbMachine
