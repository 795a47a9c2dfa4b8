/-
Module: ThumbMachine.Proofs.Noting
Purpose: A host that notes its calls. Noting changes nothing of a run, and the notes are the calls
  of the run in order, so that what is said of those calls is what the host sees.
Main exports: Handler.noting, Batch.run_noting, Processor.run_noting
-/
import ThumbMachine.Proofs.Runs

namespace ThumbMachine

variable {σ : Type}

/-- The calls that a host noted: the interrupt code, and what it was handed. -/
abbrev Notes (σ : Type) := List (Byte × Host σ)

/-- What a host owns that also keeps notes. -/
def Host.noting (host : Host σ) (notes : Notes σ) : Host (σ × Notes σ) :=
  { registers := host.registers, memory := host.memory, state := (host.state, notes) }

/-- What a host that keeps notes owns besides them. -/
def Host.plain (host : Host (σ × Notes σ)) : Host σ :=
  { registers := host.registers, memory := host.memory, state := host.state.1 }

/-- The host that notes each call and then answers it as before. -/
def Handler.noting (handler : Handler σ) : Handler (σ × Notes σ) := fun code host =>
  let (left, answer) := handler code host.plain
  (left.noting (host.state.2 ++ [(code, host.plain)]), answer)

namespace Batch

/-- The batch with a host that keeps notes. -/
def noting (batch : Batch σ) (notes : Notes σ) : Batch (σ × Notes σ) :=
  { core := batch.core
    host := batch.host.noting notes
    history := batch.history
    budget := batch.budget
    refunded := batch.refunded
    retired := batch.retired }

end Batch

/-- The turn with a host that keeps notes. -/
def Turn.noting (turn : Turn σ) (notes : Notes σ) : Turn (σ × Notes σ) :=
  match turn with
  | .running batch => .running (batch.noting notes)
  | .interrupted halt batch => .interrupted halt (batch.noting notes)
  | .faulted cause batch => .faulted cause (batch.noting notes)

namespace Turn

@[simp] theorem noting_batch (turn : Turn σ) (notes : Notes σ) :
    (turn.noting notes).batch = turn.batch.noting notes := by
  cases turn <;> rfl

@[simp] theorem noting_ending (turn : Turn σ) (notes : Notes σ) :
    (turn.noting notes).ending = turn.ending := by
  cases turn <;> rfl

@[simp] theorem noting_goesOn (turn : Turn σ) (notes : Notes σ) :
    (turn.noting notes).goesOn = turn.goesOn := by
  cases turn <;> rfl

end Turn

namespace Batch

variable {image : CodeImage} {handler : Handler σ}

/-- The call that a fetched word makes. -/
def callOf (batch : Batch σ) (word : Halfword) : Option (Byte × Host σ) :=
  match (decode word).toOption with
  | some (.softwareInterrupt code) => some (code, batch.handed)
  | _ => none

theorem interrupt_noting (batch : Batch σ) (handler : Handler σ) (code : Byte) (notes : Notes σ) :
    (batch.noting notes).interrupt handler.noting code =
      (batch.interrupt handler code).noting (notes ++ [(code, batch.handed)]) := by
  have same : (batch.noting notes).handed.plain = batch.handed := rfl
  rw [interrupt_eq, interrupt_eq, Handler.noting, same]
  rcases handler code batch.handed with ⟨host, answer⟩
  cases answer with
  | none => rfl
  | some halt => cases halt <;> rfl

theorem charge_noting (batch : Batch σ) (instruction : Instruction) (notes : Notes σ) :
    (batch.noting notes).charge instruction = (batch.charge instruction).noting notes := by
  rw [charge, charge]
  have mark : (batch.noting notes).refunded = batch.refunded := rfl
  rw [mark]
  split <;> rfl

theorem step_noting (batch : Batch σ) (word : Halfword) (instruction : Instruction)
    (notes : Notes σ) :
    (batch.noting notes).step word instruction = (batch.step word instruction).noting notes := by
  have same : (batch.noting notes).machine = batch.machine := rfl
  rw [step_eq, step_eq, same]
  rcases execute word instruction batch.machine with ⟨machine, fault⟩
  cases fault with
  | none => exact congrArg Turn.running (charge_noting (batch.enter machine) instruction notes)
  | some cause => rfl

theorem dispatch_noting (batch : Batch σ) (handler : Handler σ) (word : Halfword)
    (notes : Notes σ) :
    (batch.noting notes).dispatch handler.noting word =
      (batch.dispatch handler word).noting (notes ++ (batch.callOf word).toList) := by
  rw [dispatch, dispatch, callOf]
  split
  · rename_i error decoded
    rw [decoded]
    exact congrArg _ (congrArg _ (List.append_nil notes).symm)
  · rename_i code decoded
    rw [decoded]
    exact interrupt_noting batch handler code notes
  · rename_i instruction ordinary decoded
    rw [decoded]
    dsimp only [Except.toOption]
    split
    · rename_i code same
      cases same
      exact absurd rfl (ordinary code)
    · rw [step_noting, Option.toList_none, List.append_nil]

/-- A turn adds its own call, if it makes one, to the notes. -/
theorem turn_noting (batch : Batch σ) (image : CodeImage) (handler : Handler σ) (notes : Notes σ) :
    (batch.noting notes).turn image handler.noting =
      (batch.turn image handler).noting
        (notes ++ (batch.take image handler).call?.toList) := by
  have same : (batch.noting notes).core.pc = batch.core.pc := rfl
  rw [turn, turn, same]
  cases fetched : image.fetch batch.core.pc with
  | error access =>
      have none_ : (batch.take image handler).call? = none := by
        rw [Taken.call?, Taken.instruction?, take, fetched]
      rw [none_, Option.toList_none, List.append_nil]
      rfl
  | ok word =>
      have call : (batch.take image handler).call? = batch.callOf word := by
        rw [Taken.call?, Taken.instruction?, take, fetched]
        rfl
      rw [call]
      exact dispatch_noting (batch.fetch word) handler word notes

/-- Noting is not noticed: a run goes as it goes without, and adds its calls to the notes. -/
theorem run_noting (batch : Batch σ) (image : CodeImage) (handler : Handler σ) (notes : Notes σ) :
    (batch.noting notes).run image handler.noting =
      ((batch.run image handler).1.noting (notes ++ batch.calls image handler),
        (batch.run image handler).2) := by
  induction batch using run_induction image handler generalizing notes with
  | spent batch spent =>
      have notingSpent : (batch.noting notes).budget = 0 := spent
      rw [run_spent spent, run_spent notingSpent, calls_spent spent, List.append_nil]
  | running batch next funded running inductionHypothesis =>
      have notingFunded : (batch.noting notes).budget ≠ 0 := funded
      have notingRunning := batch.turn_noting image handler notes
      rw [running] at notingRunning
      rw [run_running funded running, run_running notingFunded notingRunning, inductionHypothesis,
        calls_running funded running, List.append_assoc]
  | ended batch funded ended =>
      have notingFunded : (batch.noting notes).budget ≠ 0 := funded
      have notingTurn := batch.turn_noting image handler notes
      have notingEnded : ((batch.noting notes).turn image handler.noting).goesOn = false := by
        rw [notingTurn, Turn.noting_goesOn, ended]
      rw [run_ended funded ended, run_ended notingFunded notingEnded, notingTurn,
        Turn.noting_batch, Turn.noting_ending, calls_ended funded ended]

end Batch

namespace Processor

/-- The processor with a host that keeps notes. -/
def noting (processor : Processor σ) (notes : Notes σ) : Processor (σ × Notes σ) :=
  { host := processor.host.noting notes
    image := processor.image
    executed := processor.executed
    history := processor.history }

/-- The calls of a run are what a host that keeps notes has noted after it; the run is otherwise as
it is without notes. -/
theorem run_noting (processor : Processor σ) (handler : Handler σ) (count : Nat)
    (notes : Notes σ) :
    (processor.noting notes).run handler.noting count =
      ((processor.run handler count).1.noting (notes ++ processor.calls handler count),
        (processor.run handler count).2) := by
  have sought : (processor.noting notes).imageAt ((processor.noting notes).batch count).core.pc =
      processor.imageAt (processor.batch count).core.pc := rfl
  by_cases none_ : count = 0
  · subst none_
    rw [run_zero, run_zero, calls_zero, List.append_nil]
    rfl
  · cases found : processor.imageAt (processor.batch count).core.pc with
    | error access =>
        have silent : processor.calls handler count = [] := by
          rw [calls, turns, found, List.filterMap_nil]
        rw [run_unfound none_ found, run_unfound none_ (sought.trans found), silent,
          List.append_nil]
        rfl
    | ok image =>
        have run := (processor.batch count).run_noting image handler notes
        have batch : (processor.noting notes).batch count = (processor.batch count).noting notes :=
          rfl
        rw [run_found none_ found, run_found none_ (sought.trans found), batch, run,
          calls_eq found]
        rfl

end Processor

end ThumbMachine
