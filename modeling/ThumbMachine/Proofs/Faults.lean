/-
Module: ThumbMachine.Proofs.Faults
Purpose: Where a fault leaves a run. The stored program counter is the address of the instruction
  that could not be fetched, decoded or executed; that instruction is not charged, and unless it
  moves a list of registers, all else is as the last completed instruction left it.
Main exports: Instruction.movesList, Step.Atomic, Step.Held, execute_atomic, execute_held,
  Taken.Faithful.faultedOn, Processor.FaultedAt, Processor.fault_precise
-/
import ThumbMachine.Proofs.Accounting
import ThumbMachine.Proofs.Snapshot

namespace ThumbMachine

variable {σ : Type}

/-! ## One instruction -/

/-- PUSH, POP, LDMIA and STMIA: the instructions that move a list of registers. -/
def Instruction.movesList : Instruction → Bool
  | .stack .. | .block .. => true
  | _ => false

/-- Whether a fault can come of executing an instruction. The others name a word that does not
decode. -/
def Fault.ofExecution : Fault → Bool
  | .invalidAccess _ | .invalidTarget _ | .internalLogic _ => true
  | .unknownInstruction .. | .unsupportedInstruction .. => false

/-- A fault that comes of executing an instruction names no word that does not decode. -/
theorem Fault.not_named {cause : Fault} (ofExecution : cause.ofExecution) {opcode : Halfword}
    {address : Word} : ¬ (cause = .unknownInstruction opcode address ∨
      cause = .unsupportedInstruction opcode address) := by
  rintro (rfl | rfl)
  · cases ofExecution
  · cases ofExecution

/-- A word that does not decode is named with its address. -/
theorem DecodeError.eq_of_toFault (error : DecodeError) {word opcode : Halfword} {pc address : Word}
    (named : error.toFault word pc = .unknownInstruction opcode address ∨
      error.toFault word pc = .unsupportedInstruction opcode address) :
    address = pc ∧ opcode = word := by
  cases error with
  | unknown =>
      rcases named with same | same
      · cases same
        exact ⟨rfl, rfl⟩
      · cases same
  | unsupported =>
      rcases named with same | same
      · cases same
      · cases same
        exact ⟨rfl, rfl⟩

namespace Step

/-- All or nothing: the instruction completed, or the machine is as it was. -/
inductive Atomic (machine : Machine) : Step → Prop where
  | completed (left : Machine) : Atomic machine ⟨left, none⟩
  | refused {cause : Fault} (ofExecution : cause.ofExecution) :
      Atomic machine ⟨machine, some cause⟩

/-- The instruction completed, or the program counter still stands on it. -/
inductive Held (machine : Machine) : Step → Prop where
  | completed (left : Machine) : Held machine ⟨left, none⟩
  | refused {left : Machine} {cause : Fault} (pc : left.core.pc = machine.core.pc)
      (ofExecution : cause.ofExecution) : Held machine ⟨left, some cause⟩

theorem Atomic.held {machine : Machine} {step : Step} (atomic : step.Atomic machine) :
    step.Held machine := by
  cases atomic with
  | completed left => exact .completed left
  | refused ofExecution => exact .refused rfl ofExecution

end Step

namespace Machine

theorem high_atomic (machine : Machine) (op : HighOp) (source destination : Register) :
    (machine.high op source destination).Atomic machine := by
  have delivered (value : Word) :
      (if destination = Register.pc then machine.goto (halfwordAligned value)
        else machine.compute (machine.core.write destination value)).Atomic machine := by
    split
    · exact .completed _
    · exact .completed _
  cases op with
  | add => exact delivered _
  | mov => exact delivered _
  | cmp => exact .completed _

/-- The target is checked before the link register is written. -/
theorem branchExchange_atomic (machine : Machine) (source : Register) (link : Bool) :
    (machine.branchExchange source link).Atomic machine := by
  rw [branchExchange]
  simp only
  split
  · exact .completed _
  · exact .refused rfl

/-- A refused access leaves both the register and memory alone. -/
theorem perform_atomic (machine : Machine) (transfer : Transfer) :
    (transfer.perform machine).Atomic machine := by
  have delivered (loaded : Except InvalidAccess Word) :
      (transfer.deliver machine loaded).Atomic machine := by
    cases loaded with
    | ok value => exact .completed _
    | error access => exact .refused rfl
  rw [Transfer.perform]
  split
  · split
    · exact .completed _
    · exact .refused rfl
  · exact delivered _
  · exact delivered _

theorem writeBack_held {machine : Machine} {transfer : ListTransfer} (register : Register)
    (pc : transfer.machine.core.pc = machine.core.pc) :
    (transfer.writeBack register).Held machine := by
  rw [ListTransfer.writeBack]
  split
  · exact .completed _
  · exact .refused pc rfl

theorem blockTransfer_held (machine : Machine) (direction : Direction) (base : LowRegister)
    (list : Byte) : (machine.blockTransfer direction base list).Held machine := by
  cases direction with
  | store => exact writeBack_held _ (storeList_pc _ _ _)
  | load => exact writeBack_held _ (loadList_pc _ _ _)

theorem push_held (machine : Machine) (link : Bool) (list : Byte) :
    (machine.push link list).Held machine :=
  writeBack_held _ (pushList_pc _ _ _)

theorem pop_held (machine : Machine) (branch : Bool) (list : Byte) :
    (machine.pop branch list).Held machine := by
  have loaded := machine.loadList_pc (machine.core.read Register.sp) (listedRegisters list)
  rw [pop.eq_def]
  dsimp only
  split
  · split
    · exact .refused loaded rfl
    · split
      · exact .completed _
      · exact .refused loaded rfl
  · exact writeBack_held _ loaded

end Machine

open Machine in
/-- Every instruction but those that move a list is all or nothing. -/
theorem execute_atomic {instruction : Instruction} (single : instruction.movesList = false)
    (word : Halfword) (machine : Machine) :
    (execute word instruction machine).Atomic machine := by
  cases instruction with
  | shift => exact .completed _
  | addSubtract => exact .completed _
  | immediate => exact .completed _
  | alu => exact .completed _
  | high => exact high_atomic _ _ _ _
  | branchExchange => exact branchExchange_atomic _ _ _
  | transfer => exact perform_atomic _ _
  | loadAddress => exact .completed _
  | adjustStack => exact .completed _
  | compareBranch =>
      rw [execute]
      split
      · exact .completed _
      · exact .completed _
  | extend => exact .completed _
  | reverseBytes => exact .completed _
  | stack => cases single
  | block => cases single
  | branchIf =>
      rw [execute]
      split
      · exact .completed _
      · exact .completed _
  | branch => exact .completed _
  | longBranchHigh => exact .completed _
  | longBranchLow => exact .completed _
  | softwareInterrupt => exact .refused rfl

/-- Every instruction that faults keeps the program counter on itself. -/
theorem execute_held (word : Halfword) (instruction : Instruction) (machine : Machine) :
    (execute word instruction machine).Held machine := by
  cases several : instruction.movesList with
  | false => exact (execute_atomic several word machine).held
  | true =>
      cases instruction with
      | stack direction extra list =>
          cases direction with
          | store => exact machine.push_held extra list
          | load => exact machine.pop_held extra list
      | block direction base list => exact machine.blockTransfer_held direction base list
      | _ => cases several

/-! ## The turn of a fault -/

namespace Taken

/-- What a turn that meets a fault leaves: the program counter stands on its instruction, the fault
names that address where it names one, and unless the instruction moves a list, nothing has
changed. -/
structure FaultedOn (taken : Taken σ) (cause : Fault) : Prop where
  pc : taken.finish.core.pc = taken.start.core.pc
  unfetched : taken.fetches = false → cause = .invalidAccess ⟨taken.start.core.pc, 2⟩
  undecoded : ∀ opcode address, cause = .unknownInstruction opcode address ∨
    cause = .unsupportedInstruction opcode address →
      address = taken.start.core.pc ∧ taken.fetched = .ok opcode
  kept : (∀ instruction ∈ taken.instruction?, instruction.movesList = false) →
    taken.finish.core = taken.start.core ∧ taken.finish.host = taken.start.host

/-- A turn that came to nothing, under a cause that names it rightly. -/
theorem faultedOn_of_untouched {taken : Taken σ} {cause : Fault}
    (core : taken.finish.core = taken.start.core) (host : taken.finish.host = taken.start.host)
    (unfetched : taken.fetches = false → cause = .invalidAccess ⟨taken.start.core.pc, 2⟩)
    (undecoded : ∀ opcode address, cause = .unknownInstruction opcode address ∨
      cause = .unsupportedInstruction opcode address →
        address = taken.start.core.pc ∧ taken.fetched = .ok opcode) : taken.FaultedOn cause where
  pc := by rw [core]
  unfetched := unfetched
  undecoded := undecoded
  kept _ := ⟨core, host⟩

theorem Faithful.fetches_of_fetched {taken : Taken σ} {image : CodeImage} {handler : Handler σ}
    (faithful : taken.Faithful image handler) {word : Halfword}
    (fetched : image.fetch taken.start.core.pc = .ok word) : taken.fetches = true := by
  rw [fetches, faithful.fetched, fetched]
  rfl

theorem Faithful.faultedOn {taken : Taken σ} {image : CodeImage} {handler : Handler σ}
    (faithful : taken.Faithful image handler) {cause : Fault} {last : Batch σ}
    (faulted : taken.turn = .faulted cause last) : taken.FaultedOn cause := by
  have course := faithful.course
  have finish : taken.finish = last := by rw [Taken.finish, faulted, Turn.batch]
  rw [faulted] at course
  cases course with
  | unfetched fetched =>
      obtain rfl := CodeImage.eq_of_fetch_refused fetched
      apply faultedOn_of_untouched
      · rw [finish]
        rfl
      · rw [finish]
        rfl
      · intro _
        rfl
      · intro opcode address named
        exact (Fault.not_named rfl named).elim
  | @undecoded word error fetched decoded =>
      apply faultedOn_of_untouched
      · rw [finish]
        rfl
      · rw [finish]
        rfl
      · intro none_
        rw [faithful.fetches_of_fetched fetched] at none_
        cases none_
      · intro opcode address named
        obtain ⟨rfl, rfl⟩ := error.eq_of_toFault named
        exact ⟨rfl, faithful.fetched.trans fetched⟩
  | @failed word instruction machine _ fetched decoded ordinary executed =>
      have held := execute_held word instruction taken.start.machine
      rw [executed] at held
      cases held with
      | refused pc ofExecution =>
          constructor
          · rw [finish]
            exact pc
          · intro none_
            rw [faithful.fetches_of_fetched fetched] at none_
            cases none_
          · intro opcode address named
            exact (Fault.not_named ofExecution named).elim
          · intro single
            have atomic := execute_atomic
              (single instruction (faithful.instruction?_of_decoded fetched decoded)) word
              taken.start.machine
            rw [executed] at atomic
            rw [finish]
            cases atomic with
            | refused => exact ⟨rfl, rfl⟩

end Taken

/-! ## The run -/

/-- Each turn before another one completed, and was charged as usual. -/
theorem Batch.charged_of_turns {batch : Batch σ} {image : CodeImage} {handler : Handler σ}
    {earlier later : List (Taken σ)} {taken : Taken σ}
    (shape : batch.turns image handler = earlier ++ taken :: later) :
    ∀ previous ∈ earlier, previous.turn.completes ∧ (previous.Refunded ∨ previous.CostsOne) := by
  intro previous member
  have completes := Turn.completes_of_goesOn (goesOn_of_turns shape previous member)
  obtain ⟨before, after, split⟩ := List.append_of_mem member
  rw [split, List.append_assoc, List.cons_append] at shape
  exact ⟨completes, (faithful_of_turns shape).refunded_or_costsOne completes⟩

namespace Processor

open Taken

variable {processor : Processor σ} {handler : Handler σ} {count : Nat}

/-- A run that met a fault. Its turns are the completed ones, which took it to `reached`, and the
failing one, unless no code was found for any turn. -/
structure FaultedAt (processor : Processor σ) (handler : Handler σ) (count : Nat) (cause : Fault)
    (completed : List (Taken σ)) (reached : Batch σ) (failing : Option (Taken σ)) : Prop where
  turns : processor.turns handler count = completed ++ failing.toList
  /-- Each completed turn is charged as usual. -/
  charged : ∀ taken ∈ completed, taken.turn.completes ∧ (taken.Refunded ∨ taken.CostsOne)
  first : completed = [] → reached = processor.batch count
  last : ∀ previous ∈ completed.getLast?, previous.turn = .running reached
  start : ∀ taken ∈ failing, taken.start = reached
  /-- The store holds the address of the failing instruction. -/
  pc : (processor.run handler count).1.host.registers.pc = reached.core.pc
  /-- A refused fetch, and a refused snapshot, name that address. -/
  unfetched : (∀ taken ∈ failing, taken.fetches = false) →
    cause = .invalidAccess ⟨reached.core.pc, 2⟩
  /-- A word that does not decode is named with that address. -/
  undecoded : ∀ opcode address, cause = .unknownInstruction opcode address ∨
    cause = .unsupportedInstruction opcode address → address = reached.core.pc
  /-- The failing instruction is not counted. -/
  executed : (processor.run handler count).1.executed +
      completed.countP (fun taken => taken.Refunded) = processor.executed + completed.length
  /-- Unless it moves a list, all that the host owns is as the last completed instruction left
  it. -/
  kept : (∀ taken ∈ failing, ∀ instruction ∈ taken.instruction?, instruction.movesList = false) →
    (processor.run handler count).1.host =
      { reached.host with registers := reached.core.toFile }

/-- A snapshot is refused only where no region holds the two bytes at the program counter. -/
theorem eq_of_imageAt_refused (valid : processor.host.memory.Valid) {pc : Word}
    (even : odd pc = false) {access : InvalidAccess}
    (refused : processor.imageAt pc = .error access) : access = ⟨pc, 2⟩ := by
  rw [imageAt] at refused
  split at refused
  · cases refused
  · by_cases mapped : ∃ mapped ∈ processor.host.memory.regions, mapped.holds pc 2
    · obtain ⟨mapped, member, holds⟩ := mapped
      obtain ⟨image, built, _⟩ := CodeImage.build_shows valid member even holds
      rw [built] at refused
      cases refused
    · have unmapped : ∀ mapped ∈ processor.host.memory.regions, mapped.holds pc 2 = false := by
        intro region member
        rw [Bool.eq_false_iff]
        intro holds
        exact mapped ⟨region, member, holds⟩
      rw [CodeImage.build_refused unmapped] at refused
      cases refused
      rfl

/-- Without code nothing is executed. -/
theorem faultedAt_of_unfound (some_ : count ≠ 0)
    (refused : processor.imageAt (processor.batch count).core.pc =
      .error ⟨(processor.batch count).core.pc, 2⟩) :
    FaultedAt processor handler count (.invalidAccess ⟨(processor.batch count).core.pc, 2⟩) []
      (processor.batch count) none where
  turns := by rw [Processor.turns, refused]; rfl
  charged _ member := nomatch member
  first _ := rfl
  last _ member := nomatch member
  start _ member := nomatch member
  pc := by
    rw [run_unfound some_ refused]
    exact Core.pc_toFile _
  unfetched _ := rfl
  undecoded _ _ named := by rcases named with named | named <;> cases named
  executed := by rw [run_unfound some_ refused]; rfl
  kept _ := by rw [run_unfound some_ refused]; rfl

/-- With code found, the last turn is the failing one. -/
theorem faultedAt_of_turns {image : CodeImage}
    (found : processor.imageAt (processor.batch count).core.pc = .ok image)
    {completed : List (Taken σ)} {taken : Taken σ}
    (shape : (processor.batch count).turns image handler = completed ++ [taken]) {cause : Fault}
    (faulted : taken.turn.ending = .faulted cause) :
    FaultedAt processor handler count cause completed taken.start (some taken) := by
  have turns : processor.turns handler count = completed ++ [taken] := (turns_eq found).trans shape
  have faithful := Batch.faithful_of_turns shape
  have failed := Turn.eq_faulted faulted
  have left := faithful.faultedOn failed
  have incomplete : taken.turn.completes = false := by rw [failed]; rfl
  obtain ⟨_, uncounted⟩ := faithful.spent_of_incomplete incomplete
  have counted := Batch.start_retired shape
  obtain ⟨first, previous⟩ := start_of_turns turns
  obtain ⟨_, run⟩ := run_eq_of_turns turns
  constructor
  case turns => exact turns
  case charged => exact Batch.charged_of_turns shape
  case first => exact first
  case last => exact previous
  case start =>
    rintro _ ⟨⟩
    rfl
  case pc =>
    rw [run]
    exact (Core.pc_toFile _).trans left.pc
  case unfetched => exact fun none_ => left.unfetched (none_ taken rfl)
  case undecoded => exact fun opcode address named => (left.undecoded opcode address named).1
  case executed =>
    rw [run]
    have total : (processor.batch count).retired = 0 := rfl
    show processor.executed + taken.finish.retired + _ = _
    omega
  case kept =>
    intro single
    obtain ⟨core, host⟩ := left.kept (single taken rfl)
    rw [run, absorb, core, host]

/-- A fault is precise. Whatever fault a run meets, its store holds the address of the instruction
that could not be fetched, decoded or executed, a refused fetch or a word that does not decode is
named with that address, that instruction is not counted while every earlier one is charged, and
unless it moves a list of registers, all the host owns is as the last completed instruction left
it. -/
theorem fault_precise (processor : Processor σ) (handler : Handler σ) (count : Nat) {cause : Fault}
    (assembled : processor.host.memory.Assembled)
    (faulted : (processor.run handler count).2 = .faulted cause) :
    ∃ completed reached failing,
      FaultedAt processor handler count cause completed reached failing := by
  have some_ : count ≠ 0 := by
    rintro rfl
    rw [run_zero] at faulted
    cases faulted
  cases found : processor.imageAt (processor.batch count).core.pc with
  | error access =>
      obtain rfl := eq_of_imageAt_refused assembled.valid (odd_halfwordAligned _) found
      rw [run_unfound some_ found] at faulted
      cases faulted
      exact ⟨[], _, none, faultedAt_of_unfound some_ found⟩
  | ok image =>
      rw [run_found some_ found] at faulted
      rcases List.eq_nil_or_concat ((processor.batch count).turns image handler) with
        empty | ⟨completed, taken, shape⟩
      · rw [Batch.run_spent (Batch.turns_eq_nil_iff.1 empty)] at faulted
        cases faulted
      · rw [List.concat_eq_append] at shape
        rw [Batch.run_eq_of_turns shape] at faulted
        exact ⟨completed, taken.start, some taken, faultedAt_of_turns found shape faulted⟩

/-- The first half of a BL, a comparison, and a store into the code itself, which is read-only. -/
def storingIntoCode : Processor Unit := ofWords [0xF000, 0x2805, 0x6000]

theorem fault_precise_storingIntoCode :
    storingIntoCode.host.memory.Assembled ∧
      (storingIntoCode.run .refuseAll 9).2 = .faulted (.invalidAccess ⟨0, 4⟩) ∧
      ∃ completed reached failing,
        FaultedAt storingIntoCode .refuseAll 9 (.invalidAccess ⟨0, 4⟩)
          completed reached failing := by
  have mapped : (Memory.empty ⟨false⟩).mapRom "code" 0 [0x00, 0xF0, 0x05, 0x28, 0x00, 0x60] =
      .ok (⟨0, 6⟩, storingIntoCode.host.memory) :=
    Memory.map_eq_ok_iff.2 ⟨by decide, rfl, rfl⟩
  have assembled : storingIntoCode.host.memory.Assembled := .map (.empty ⟨false⟩) mapped
  have faulted : (storingIntoCode.run .refuseAll 9).2 = .faulted (.invalidAccess ⟨0, 4⟩) := by
    decide +kernel
  exact ⟨assembled, faulted, fault_precise storingIntoCode .refuseAll 9 assembled faulted⟩

end Processor

end ThumbMachine
