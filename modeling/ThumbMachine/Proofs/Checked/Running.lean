/-
Module: ThumbMachine.Proofs.Checked.Running
Purpose: Batches and runs once more, with all checks: on the counters that a turn moves, and in
  everything it decodes and executes. On a memory that was built by requests, whatever is in the
  registers, no check of a run fails, and no run ends with an internal error.
Main exports: Checked.turn, Checked.run, Checked.runProcessor, Memory.Built, Handler.Orderly,
  Processor.Unfailing, Processor.run_unfailing
-/
import ThumbMachine.Proofs.Checked.Execution
import ThumbMachine.Proofs.Confinement

namespace ThumbMachine

variable {σ : Type}

/-! ## Memories and hosts -/

namespace Memory

/-- A memory that an empty one became by requests: mapping, loading, writing. -/
def Built (memory : Memory) : Prop :=
  ∃ (config : MemoryConfig) (commands : List Command), memory = (empty config).after commands

namespace Built

variable {memory next : Memory}

theorem filled (built : memory.Built) : memory.Filled := by
  obtain ⟨config, commands, rfl⟩ := built
  exact filled_after config commands

theorem written (built : memory.Built) (written : memory.Written next) : next.Built := by
  induction written with
  | same => exact built
  | @write reached next datum address value before granted inductionHypothesis =>
      obtain ⟨config, commands, rfl⟩ := inductionHypothesis
      have performed : ((empty config).after commands).perform (.write datum address value) =
          .ok (.done, next) := by
        rw [perform, granted]
        rfl
      refine ⟨config, commands ++ [.write datum address value], ?_⟩
      rw [after, List.foldl_append]
      exact (answer_of_granted performed).symm

end Built

end Memory

/-- A host that leaves built memories built, and does not itself answer with an internal error. -/
structure Handler.Orderly (handler : Handler σ) : Prop where
  built : handler.Keeps Memory.Built
  answers : ∀ (code : Byte) (host : Host σ) (word : Halfword),
    (handler code host).2 ≠ some (.fault (.internalLogic word))

/-- A move with an orderly host, or to a memory that was built. -/
def Move.Orderly : Move σ → Prop
  | .run handler _ => handler.Orderly
  | .setMemory memory => memory.Built
  | .setRegisters _ | .setState _ => True

theorem Move.Orderly.keeps {move : Move σ} (orderly : move.Orderly) : move.Keeps Memory.Built := by
  cases move with
  | run handler count => exact Handler.Orderly.built orderly
  | setRegisters registers => trivial
  | setMemory memory => exact orderly
  | setState state => trivial

/-! ## How a run ends -/

/-- Whether a caller is told of an internal error. -/
def Ending.Internal (ending : Ending) : Prop :=
  ∃ word, ending.halt? = some (.fault (.internalLogic word))

theorem Ending.not_internal_of_refusal {cause : Fault} (refusal : cause.isRefusal) :
    ¬ (Ending.faulted cause).Internal := by
  rintro ⟨word, told⟩
  cases told
  cases refusal

/-- A word that does not decode is no internal error. -/
theorem DecodeError.not_internal (error : DecodeError) (word : Halfword) (pc : Word) :
    ¬ (Ending.faulted (error.toFault word pc)).Internal := by
  rintro ⟨other, told⟩
  cases error with
  | unknown => cases told
  | unsupported => cases told

/-- A turn under an orderly host ends no run with an internal error. -/
theorem Taken.Faithful.not_internal {taken : Taken σ} {image : CodeImage} {handler : Handler σ}
    (faithful : taken.Faithful image handler) (orderly : handler.Orderly) :
    ¬ taken.turn.ending.Internal := by
  have course := faithful.course
  generalize taken.turn = turn at course ⊢
  cases course with
  | unfetched => exact Ending.not_internal_of_refusal rfl
  | undecoded => exact DecodeError.not_internal _ _ _
  | resumed =>
      rintro ⟨word, told⟩
      cases told
  | stopped =>
      rintro ⟨word, told⟩
      cases told
  | @halted _ code host halt _ _ _ answered =>
      rintro ⟨word, told⟩
      have answer := orderly.answers code taken.start.handed word
      rw [answered] at answer
      exact answer told
  | completed =>
      rintro ⟨word, told⟩
      cases told
  | @failed word instruction machine cause _ _ ordinary executed =>
      have yields := execute_yields ordinary word taken.start.machine
      rw [executed] at yields
      exact Ending.not_internal_of_refusal (yields.fault cause rfl)

/-- No run under an orderly host ends with an internal error. -/
theorem Processor.run_not_internal (processor : Processor σ) {handler : Handler σ}
    (orderly : handler.Orderly) (count : Nat) : ¬ (processor.run handler count).2.Internal := by
  rcases List.eq_nil_or_concat (processor.turns handler count) with none_ | ⟨earlier, taken, shape⟩
  · obtain ⟨image, ending, run, rfl | ⟨access, rfl⟩⟩ := run_of_nil none_
    · rw [run]
      rintro ⟨word, told⟩
      cases told
    · rw [run]
      exact Ending.not_internal_of_refusal rfl
  · rw [List.concat_eq_append] at shape
    obtain ⟨image, _, split, _⟩ := turns_split shape
    obtain ⟨_, run⟩ := run_eq_of_turns shape
    rw [run]
    exact (Batch.faithful_of_turns split).not_internal orderly

/-! ## Turns and runs with checks -/

/-- The fault that stands for a decoding error. -/
def WideError.toFault (error : WideError) (word : Halfword) (pc : Word) : Fault :=
  match error with
  | .unknown => .unknownInstruction word pc
  | .unsupported => .unsupportedInstruction word pc
  | .internalLogic => .internalLogic word

namespace Checked

/-- Whether a wide instruction is the first half of a BL. -/
def isLongBranchHigh : WideInstruction → Bool
  | .longBranch low _ => !low
  | _ => false

/-- Accounts for a completed instruction. -/
def charge (batch : Batch σ) (instruction : WideInstruction) : Checked (Batch σ) := do
  if isLongBranchHigh instruction && !batch.refunded then
    let budget ← sum32 batch.budget 1
    return { batch with budget, refunded := true }
  else
    let retired ← sum64 batch.retired 1
    return { batch with refunded := false, retired }

/-- Executes a decoded instruction. -/
def step (batch : Batch σ) (word : Halfword) (instruction : WideInstruction) :
    Checked (Turn σ) := do
  match ← execute word instruction batch.machine with
  | ⟨machine, none⟩ => return .running (← charge (batch.enter machine) instruction)
  | ⟨machine, some cause⟩ => return .faulted cause (batch.enter machine)

/-- Hands an interrupt to the host, which is counted first. -/
def interrupt (batch : Batch σ) (handler : Handler σ) (code : Byte) : Checked (Turn σ) := do
  let retired ← sum64 batch.retired 1
  let (host, answer) := handler code batch.handed
  let after := { batch with core := Core.ofFile host.registers, host, retired }
  match answer with
  | none => return .running after
  | some .stop => return .interrupted .stop after.skip
  | some halt => return .interrupted halt after

/-- Decodes a fetched word and carries it out. -/
def dispatch (batch : Batch σ) (handler : Handler σ) (word : Halfword) : Checked (Turn σ) := do
  match ← decode word with
  | .error error => return .faulted (error.toFault word batch.core.pc) batch
  | .ok (.softwareInterrupt code) => interrupt batch handler code
  | .ok instruction => step batch word instruction

/-- One turn of the loop. -/
def turn (batch : Batch σ) (image : CodeImage) (handler : Handler σ) : Checked (Turn σ) := do
  let budget ← difference batch.budget 1
  let spent := { batch with budget }
  match image.fetch batch.core.pc with
  | .error access => return .faulted (.invalidAccess access) spent
  | .ok word => dispatch (spent.note word) handler word

/-- Takes turns until the budget is spent or a turn ends the batch. -/
def run (batch : Batch σ) (image : CodeImage) (handler : Handler σ) :
    Checked (Batch σ × Ending) := do
  if batch.budget = 0 then
    return (batch, .exhausted)
  else
    match ← turn batch image handler with
    | .running next =>
        -- The loop itself checks nothing here; that it ends is a check of its own.
        if next.measure < batch.measure then run next image handler else .error .stalled
    | .interrupted halt last => return (last, .interrupted halt)
    | .faulted cause last => return (last, .faulted cause)
termination_by batch.measure

/-- The code snapshot for a batch at `pc`. -/
def imageAt (processor : Processor σ) (pc : Word) : Checked (Except InvalidAccess CodeImage) :=
  match processor.image with
  | some image => .ok (.ok image)
  | none => buildImage processor.host.memory pc

/-- Ends a batch. -/
def absorb (processor : Processor σ) (image : Option CodeImage) (batch : Batch σ) :
    Checked (Processor σ) := do
  let executed ← sum64 processor.executed batch.retired
  return { processor.absorb image batch with executed }

/-- Runs up to `count` instructions. -/
def runProcessor (processor : Processor σ) (handler : Handler σ) (count : Nat) :
    Checked (Processor σ × Ending) := do
  let batch := processor.batch count
  if count = 0 then
    return (← absorb processor processor.image batch, .exhausted)
  else
    match ← imageAt processor batch.core.pc with
    | .error access =>
        return (← absorb processor processor.image batch, .faulted (.invalidAccess access))
    | .ok image => do
        let (last, ending) ← run batch image handler
        return (← absorb processor (some image) last, ending)

section

variable {batch : Batch σ}

theorem isLongBranchHigh_widen (instruction : Instruction) :
    isLongBranchHigh instruction.widen = Batch.isLongBranchHigh instruction := by
  cases instruction with
  | transfer format => cases format <;> rfl
  | _ => rfl

theorem charge_eq (small : batch.budget + batch.retired + 1 < 0x100000000)
    (instruction : Instruction) :
    charge batch instruction.widen = .ok (batch.charge instruction) := by
  rw [charge, isLongBranchHigh_widen, Batch.charge]
  split
  · rw [sum32_eq (by omega)]
    rfl
  · rw [sum64_eq (by omega)]
    rfl

theorem step_eq (filled : batch.host.memory.Filled)
    (small : batch.budget + batch.retired + 1 < 0x100000000) (word : Halfword)
    (instruction : Instruction) :
    step batch word instruction.widen = .ok (batch.step word instruction) := by
  rw [step, execute_eq word instruction batch.machine filled, ok_bind, Batch.step_eq]
  rcases ThumbMachine.execute word instruction batch.machine with ⟨machine, _ | cause⟩
  · have entered : (batch.enter machine).budget + (batch.enter machine).retired + 1 < 0x100000000 :=
      small
    dsimp only
    rw [charge_eq entered]
    rfl
  · rfl

theorem interrupt_eq (small : batch.retired + 1 < 0x100000000) (handler : Handler σ) (code : Byte) :
    interrupt batch handler code = .ok (batch.interrupt handler code) := by
  rw [interrupt, sum64_eq (by omega), ok_bind, Batch.interrupt_eq]
  rcases handler code batch.handed with ⟨host, _ | halt⟩
  · rfl
  · cases halt <;> rfl

theorem dispatch_eq (filled : batch.host.memory.Filled)
    (small : batch.budget + batch.retired + 1 < 0x100000000) (handler : Handler σ)
    (word : Halfword) :
    dispatch batch handler word = .ok (batch.dispatch handler word) := by
  rw [dispatch, decode_eq, ok_bind, Batch.dispatch]
  cases ThumbMachine.decode word with
  | error error => cases error <;> rfl
  | ok instruction =>
      have stepped := step_eq filled small word instruction
      cases instruction with
      | softwareInterrupt code => exact interrupt_eq (by omega) handler code
      | transfer format => cases format <;> exact stepped
      | _ => exact stepped

theorem turn_eq (filled : batch.host.memory.Filled) (funded : batch.budget ≠ 0)
    (small : batch.budget + batch.retired < 0x100000000) (image : CodeImage) (handler : Handler σ) :
    turn batch image handler = .ok (batch.turn image handler) := by
  have some_ : 1 ≤ batch.budget := Nat.one_le_iff_ne_zero.2 funded
  rw [turn, difference_eq some_, ok_bind, Batch.turn]
  cases image.fetch batch.core.pc with
  | error access => rfl
  | ok word =>
      have spent : batch.budget - 1 + batch.retired + 1 < 0x100000000 := by omega
      have noted : (batch.spend.note word).host.memory.Filled := filled
      exact dispatch_eq noted spent handler word

/-- No turn of a batch fails a check. The budget left and the units charged add up to the same
number before every turn, so neither runs over. -/
theorem run_eq (image : CodeImage) {handler : Handler σ} (orderly : handler.Orderly)
    (batch : Batch σ) (built : batch.host.memory.Built)
    (small : batch.budget + batch.retired < 0x100000000) :
    run batch image handler = .ok (batch.run image handler) := by
  induction batch using Batch.run_induction image handler with
  | spent batch spent =>
      rw [run, if_pos spent, Batch.run_spent spent]
      rfl
  | running batch next funded running inductionHypothesis =>
      have faithful : (batch.take image handler).Faithful image handler := ⟨funded, rfl, rfl⟩
      have finish : (batch.take image handler).finish = next := congrArg Turn.batch running
      have completes : (batch.take image handler).turn.completes := congrArg Turn.completes running
      have kept := faithful.keeps Memory.Built.written orderly.built built
      have account := faithful.account_of_completes completes
      rw [finish] at kept account
      have account : next.budget + next.retired = batch.budget + batch.retired := account
      rw [run, if_neg funded, turn_eq built.filled funded small, ok_bind, running]
      dsimp only
      rw [if_pos (Batch.measure_turn funded running), Batch.run_running funded running]
      exact inductionHypothesis kept (by omega)
  | ended batch funded ended =>
      rw [run, if_neg funded, turn_eq built.filled funded small, ok_bind,
        Batch.run_ended funded ended]
      cases taken : batch.turn image handler with
      | running next =>
          rw [taken] at ended
          cases ended
      | interrupted halt last => rfl
      | faulted cause last => rfl

end

section

variable {processor : Processor σ}

theorem imageAt_eq (filled : processor.host.memory.Filled) (pc : Word) :
    imageAt processor pc = .ok (processor.imageAt pc) := by
  rw [imageAt, Processor.imageAt]
  cases processor.image with
  | some image => rfl
  | none => exact buildImage_eq filled pc

theorem absorb_eq (image : Option CodeImage) {batch : Batch σ}
    (total : (processor.absorb image batch).executed < 0x10000000000000000) :
    absorb processor image batch = .ok (processor.absorb image batch) := by
  rw [absorb, sum64_eq total]
  rfl

/-- No run of a processor with a built memory fails a check, while the counter of executed
instructions does not run over. -/
theorem runProcessor_eq (built : processor.host.memory.Built) {handler : Handler σ}
    (orderly : handler.Orderly) {count : Nat} (small : count < 0x100000000)
    (total : (processor.run handler count).1.executed < 0x10000000000000000) :
    runProcessor processor handler count = .ok (processor.run handler count) := by
  rw [runProcessor]
  dsimp only
  by_cases none_ : count = 0
  · subst none_
    rw [Processor.run_zero] at total ⊢
    rw [if_pos rfl, absorb_eq _ total]
    rfl
  · rw [if_neg none_, imageAt_eq built.filled, ok_bind]
    cases found : processor.imageAt (processor.batch count).core.pc with
    | error access =>
        rw [Processor.run_unfound none_ found] at total ⊢
        dsimp only
        rw [absorb_eq _ total]
        rfl
    | ok image =>
        rw [Processor.run_found none_ found] at total ⊢
        dsimp only
        rw [run_eq image orderly (processor.batch count) built small, ok_bind, absorb_eq _ total]
        rfl

end

end Checked

/-! ## Safety -/

namespace Processor

/-- A run on which nothing fails: with every check made it comes to what it comes to without; its
caller is not told of an internal error; and whatever a host writes when it is called, its accesses
fail no check either. -/
structure Unfailing (processor : Processor σ) (handler : Handler σ) (count : Nat) : Prop where
  checked : Checked.runProcessor processor handler count = .ok (processor.run handler count)
  ending : ¬ (processor.run handler count).2.Internal
  hosted : ∀ call ∈ processor.calls handler count, ∀ memory, call.2.memory.Written memory →
    memory.Accessible

/-- Whatever words are in the registers and whatever the guest executes: on built memories, and
under hosts that are orderly, every run of a session is unfailing, while the counter of executed
instructions does not run over. -/
theorem run_unfailing (host : Host σ) (moves : List (Move σ)) (handler : Handler σ) (count : Nat)
    (built : host.memory.Built) (session : ∀ move ∈ moves, move.Orderly) (orderly : handler.Orderly)
    (small : count < 0x100000000)
    (total : (((create host).after moves).run handler count).1.executed < 0x10000000000000000) :
    ((create host).after moves).Unfailing handler count := by
  have reached : ((create host).after moves).host.memory.Built :=
    after_keeps Memory.Built.written (fun move member => (session move member).keeps) built
  refine ⟨Checked.runProcessor_eq reached orderly small total, run_not_internal _ orderly count, ?_⟩
  intro call made memory written
  obtain ⟨taken, member, called⟩ := List.mem_filterMap.1 made
  obtain ⟨earlier, later, shape⟩ := List.append_of_mem member
  obtain ⟨code, _, rfl⟩ := Taken.instruction?_of_call? called
  have handed : taken.start.handed.memory.Built :=
    start_keeps Memory.Built.written orderly.built reached shape
  exact (handed.written written).filled.accessible

/-- A host that writes the interrupt code to the word at 8, where it may, and goes on after the
interrupt. -/
def storingCode : Handler Unit := fun code host =>
  match Datum.word.write host.memory 8 (code.setWidth 32) with
  | .ok memory =>
      ({ host with memory, registers := host.registers.setPc (host.registers.pc + 2) }, none)
  | .error access => (host, some (.fault (.invalidAccess access)))

theorem storingCode_orderly : storingCode.Orderly where
  built := by
    apply Handler.WritesOnly.keeps Memory.Built.written
    intro code host
    rw [storingCode]
    split
    · rename_i granted
      exact .single _ granted
    · exact .same
  answers code host word := by
    rw [storingCode]
    split
    · intro told
      cases told
    · intro told
      cases told

/-- Code at the very top of the address space, SWI 1 and PUSH {R0, R1}, four writable bytes at 8,
and every bit of every register set. -/
def topOfSpace : Host Unit :=
  { registers := ⟨Vector.replicate 17 0xFFFFFFFF⟩
    memory := (Memory.empty ⟨false⟩).after
      [.mapRom "code" 0xFFFFFFFC [0x01, 0xDF, 0x03, 0xB4], .mapRam "stack" 8 4]
    state := () }

/-- A run that is refused its PUSH, and then a stack with room for one of the two words. -/
def refusedPush : List (Move Unit) :=
  [.run storingCode 9, .setRegisters ((RegisterFile.zero.set Register.sp.slot 12).setPc 0xFFFFFFFC)]

theorem run_unfailing_topOfSpace :
    (((create topOfSpace).after refusedPush).run storingCode 9).2 =
      .faulted (.invalidAccess ⟨4, 4⟩) ∧
      ((create topOfSpace).after refusedPush).Unfailing storingCode 9 := by
  have built : topOfSpace.memory.Built := ⟨_, _, rfl⟩
  have session : ∀ move ∈ refusedPush, move.Orderly := by
    simp only [refusedPush, List.forall_mem_cons]
    exact ⟨storingCode_orderly, trivial, List.forall_mem_nil _⟩
  have partWay : (((create topOfSpace).after refusedPush).run storingCode 9).2 =
      .faulted (.invalidAccess ⟨4, 4⟩) := by decide +kernel
  exact ⟨partWay, run_unfailing topOfSpace refusedPush storingCode 9 built session
    storingCode_orderly (by decide) (by decide +kernel)⟩

end Processor

end ThumbMachine
