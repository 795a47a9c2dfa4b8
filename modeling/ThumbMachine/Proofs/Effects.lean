/-
Module: ThumbMachine.Proofs.Effects
Purpose: All that an instruction can do. A core changes by writes to general registers, by flags
  that keep Q, and by the program counter; memory changes by writes that it grants; a fault tells of
  something refused. A turn does that, or leaves what the host makes of what it is handed.
Main exports: Memory.Written, Core.Changes, Machine.Yields, execute_yields, Batch.Affects,
  Taken.Faithful.host_of_interrupt, Taken.Faithful.effect_of_ordinary
-/
import ThumbMachine.Proofs.Gateway
import ThumbMachine.Proofs.Indifference

namespace ThumbMachine

variable {σ : Type}

/-! ## Memory and core -/

/-- What a memory becomes by writes that it grants, one after the other. -/
inductive Memory.Written (memory : Memory) : Memory → Prop where
  | same : Written memory memory
  | write {reached next : Memory} {datum : Datum} {address value : Word}
      (before : Written memory reached) (granted : datum.write reached address value = .ok next) :
      Written memory next

namespace Memory.Written

variable {memory reached next : Memory}

theorem single (datum : Datum) {address value : Word}
    (granted : datum.write memory address value = .ok next) : memory.Written next :=
  .write .same granted

theorem trans (first : memory.Written reached) (second : reached.Written next) :
    memory.Written next := by
  induction second with
  | same => exact first
  | write before granted inductionHypothesis => exact .write inductionHypothesis granted

end Memory.Written

/-- What a core becomes in an instruction: general registers are written, the flags but Q are
replaced, the program counter is moved. -/
inductive Core.Changes (core : Core) : Core → Prop where
  | same : Changes core core
  | write {reached : Core} (before : Changes core reached) (register : Register) (value : Word) :
      Changes core (reached.write register value)
  | setFlags {reached : Core} {flags : Flags} (before : Changes core reached)
      (q : flags.q = reached.flags.q) : Changes core (reached.setFlags flags)
  | setPc {reached : Core} (before : Changes core reached) (pc : Word) :
      Changes core (reached.setPc pc)

/-- No operation produces Q. -/
theorem AluOp.apply_q (op : AluOp) (left right : Word) (flags : Flags) :
    (op.apply left right flags).2.q = flags.q := by
  cases op <;> rfl

namespace Core

variable {core reached next : Core}

theorem Changes.trans (first : core.Changes reached) (second : reached.Changes next) :
    core.Changes next := by
  induction second with
  | same => exact first
  | write before register value inductionHypothesis =>
      exact .write inductionHypothesis register value
  | setFlags before q inductionHypothesis => exact .setFlags inductionHypothesis q
  | setPc before pc inductionHypothesis => exact .setPc inductionHypothesis pc

/-- Q is not touched. -/
theorem Changes.q (changes : core.Changes next) : next.flags.q = core.flags.q := by
  induction changes with
  | same => rfl
  | write before register value inductionHypothesis => exact inductionHypothesis
  | setFlags before q inductionHypothesis => exact q.trans inductionHypothesis
  | setPc before pc inductionHypothesis => exact inductionHypothesis

/-- The stored status word is not touched: no register field names it. -/
theorem Changes.status (changes : core.Changes next) :
    next.registers.status = core.registers.status := by
  induction changes with
  | same => rfl
  | @write reached before register value inductionHypothesis =>
      rw [Core.write, RegisterFile.status, RegisterFile.get_set, if_neg register.slot_ne_statusSlot]
      exact inductionHypothesis
  | setFlags before q inductionHypothesis => exact inductionHypothesis
  | setPc before pc inductionHypothesis => exact inductionHypothesis

theorem changes_writeArithmetic (core : Core) (destination : LowRegister) (outcome : AluResult) :
    core.Changes (core.writeArithmetic destination outcome) :=
  .setFlags (.write .same destination.wide outcome.value) rfl

theorem changes_shift (core : Core) (kind : ShiftKind) (amount : BitVec 5)
    (source destination : LowRegister) : core.Changes (core.shift kind amount source destination) :=
  .setFlags (.write .same destination.wide _) rfl

theorem changes_immediate (core : Core) (op : ImmediateOp) (destination : LowRegister)
    (value : Byte) : core.Changes (core.immediate op destination value) := by
  cases op with
  | mov => exact .setFlags (.write .same destination.wide _) rfl
  | cmp => exact .setFlags .same rfl
  | add => exact changes_writeArithmetic core destination _
  | sub => exact changes_writeArithmetic core destination _

theorem changes_alu (core : Core) (op : AluOp) (source destination : LowRegister) :
    core.Changes (core.alu op source destination) := by
  rw [alu]
  have flagged := Changes.setFlags .same
    (op.apply_q (core.read destination.wide) (core.read source.wide) core.flags)
  dsimp only
  split
  · exact flagged.write destination.wide _
  · exact flagged

end Core

/-! ## Instructions -/

/-- A refused access or a refused branch target. -/
def Fault.isRefusal : Fault → Bool
  | .invalidAccess _ | .invalidTarget _ => true
  | .unknownInstruction .. | .unsupportedInstruction .. | .internalLogic _ => false

namespace Machine

/-- All that a step can come to from a machine. -/
structure Yields (machine : Machine) (step : Step) : Prop where
  core : machine.core.Changes step.machine.core
  memory : machine.memory.Written step.machine.memory
  fault : ∀ cause ∈ step.fault, cause.isRefusal

theorem goto_yields {machine : Machine} {core : Core} (changes : machine.core.Changes core)
    (target : Word) : machine.Yields ((machine.setCore core).goto target) where
  core := changes.setPc target
  memory := .same
  fault cause told := by cases told

theorem compute_yields {machine : Machine} {core : Core} (changes : machine.core.Changes core) :
    machine.Yields (machine.compute core) :=
  goto_yields changes core.nextPc

theorem fail_yields {machine : Machine} {core : Core} (changes : machine.core.Changes core)
    {cause : Fault} (refusal : cause.isRefusal) :
    machine.Yields ((machine.setCore core).fail cause) where
  core := changes
  memory := .same
  fault other told := by
    cases told
    exact refusal

theorem branchBy_yields (machine : Machine) (distance : Word) :
    machine.Yields (machine.branchBy distance) :=
  goto_yields .same _

theorem high_yields (machine : Machine) (op : HighOp) (source destination : Register) :
    machine.Yields (machine.high op source destination) := by
  have delivered (value : Word) : machine.Yields
      (if destination = Register.pc then machine.goto (halfwordAligned value)
        else machine.compute (machine.core.write destination value)) := by
    split
    · exact goto_yields .same _
    · exact compute_yields (.write .same destination value)
  cases op with
  | add => exact delivered _
  | mov => exact delivered _
  | cmp => exact compute_yields (.setFlags .same rfl)

theorem branchExchange_yields (machine : Machine) (source : Register) (link : Bool) :
    machine.Yields (machine.branchExchange source link) := by
  rw [branchExchange]
  simp only
  split
  · apply goto_yields
    split
    · exact .write .same Register.lr _
    · exact .same
  · exact fail_yields .same rfl

/-- A transfer of one datum writes memory once, or not at all. -/
theorem perform_yields (machine : Machine) (transfer : Transfer) :
    machine.Yields (transfer.perform machine) := by
  have delivered (loaded : Except InvalidAccess Word) :
      machine.Yields (transfer.deliver machine loaded) := by
    cases loaded with
    | ok value => exact compute_yields (.write .same transfer.register.wide value)
    | error access => exact fail_yields .same rfl
  rw [Transfer.perform]
  split
  · split
    · rename_i granted
      exact ⟨.setPc .same _, .single _ granted, fun cause told => by cases told⟩
    · exact fail_yields .same rfl
  · exact delivered _
  · exact delivered _

/-- A list transfer that was reached from a machine. -/
structure Moves (machine : Machine) (transfer : ListTransfer) : Prop where
  core : machine.core.Changes transfer.machine.core
  memory : machine.memory.Written transfer.machine.memory

theorem loadList_memory (machine : Machine) (address : Word) (list : List LowRegister) :
    (machine.loadList address list).machine.memory = machine.memory := by
  induction list generalizing machine address with
  | nil => rfl
  | cons register rest inductionHypothesis =>
      rw [loadList]
      split
      · rw [inductionHypothesis]
        rfl
      · rfl

theorem loadList_moves (machine : Machine) (address : Word) (list : List LowRegister) :
    machine.Moves (machine.loadList address list) := by
  induction list generalizing machine address with
  | nil => exact ⟨.same, .same⟩
  | cons register rest inductionHypothesis =>
      rw [loadList]
      split
      · rename_i value loaded
        have later := inductionHypothesis (machine.write register.wide value) (address + 4)
        exact ⟨(Core.Changes.write .same register.wide value).trans later.core, later.memory⟩
      · exact ⟨.same, .same⟩

/-- The words stored before a refused one were granted one by one. -/
theorem storeList_moves (machine : Machine) (address : Word) (list : List LowRegister) :
    machine.Moves (machine.storeList address list) := by
  induction list generalizing machine address with
  | nil => exact ⟨.same, .same⟩
  | cons register rest inductionHypothesis =>
      rw [storeList]
      split
      · rename_i memory granted
        have later := inductionHypothesis { machine with memory } (address + 4)
        have first : machine.memory.Written memory := .single .word granted
        exact ⟨later.core, first.trans later.memory⟩
      · exact ⟨.same, .same⟩

theorem pushList_moves (machine : Machine) (address : Word) (list : List Register) :
    machine.Moves (machine.pushList address list) := by
  induction list generalizing machine address with
  | nil => exact ⟨.same, .same⟩
  | cons register rest inductionHypothesis =>
      rw [pushList]
      split
      · rename_i memory granted
        have later := inductionHypothesis { machine with memory } (address - 4)
        have first : machine.memory.Written memory := .single .word granted
        exact ⟨later.core, first.trans later.memory⟩
      · exact ⟨.same, .same⟩

theorem Moves.writeBack {machine : Machine} {transfer : ListTransfer}
    (moves : machine.Moves transfer) (register : Register) :
    machine.Yields (transfer.writeBack register) := by
  have written := moves.core.write register transfer.address
  rw [ListTransfer.writeBack]
  split
  · exact ⟨written.setPc _, moves.memory, fun cause told => by cases told⟩
  · exact ⟨written, moves.memory, fun cause told => by cases told; rfl⟩

theorem blockTransfer_yields (machine : Machine) (direction : Direction) (base : LowRegister)
    (list : Byte) : machine.Yields (machine.blockTransfer direction base list) := by
  cases direction with
  | store => exact (storeList_moves _ _ _).writeBack _
  | load => exact (loadList_moves _ _ _).writeBack _

theorem push_yields (machine : Machine) (link : Bool) (list : Byte) :
    machine.Yields (machine.push link list) :=
  (pushList_moves _ _ _).writeBack _

theorem pop_yields (machine : Machine) (branch : Bool) (list : Byte) :
    machine.Yields (machine.pop branch list) := by
  have moves := machine.loadList_moves (machine.core.read Register.sp) (listedRegisters list)
  rw [pop.eq_def]
  dsimp only
  split
  · split
    · exact ⟨moves.core.write _ _, moves.memory, fun cause told => by cases told; rfl⟩
    · split
      · exact ⟨(moves.core.write _ _).setPc _, moves.memory, fun cause told => by cases told⟩
      · exact ⟨moves.core.write _ _, moves.memory, fun cause told => by cases told; rfl⟩
  · exact moves.writeBack _

end Machine

open Machine in
/-- No instruction that the processor executes itself does anything else. -/
theorem execute_yields {instruction : Instruction}
    (ordinary : ∀ code, instruction ≠ .softwareInterrupt code) (word : Halfword)
    (machine : Machine) :
    machine.Yields (execute word instruction machine) := by
  cases instruction with
  | shift => exact compute_yields (Core.changes_shift _ _ _ _ _)
  | addSubtract => exact compute_yields (Core.changes_writeArithmetic _ _ _)
  | immediate => exact compute_yields (Core.changes_immediate _ _ _ _)
  | alu => exact compute_yields (Core.changes_alu _ _ _ _)
  | high => exact high_yields _ _ _ _
  | branchExchange => exact branchExchange_yields _ _ _
  | transfer => exact perform_yields _ _
  | loadAddress => exact compute_yields (.write .same _ _)
  | adjustStack => exact compute_yields (.write .same _ _)
  | compareBranch =>
      rw [execute]
      split
      · exact branchBy_yields _ _
      · exact compute_yields .same
  | extend => exact compute_yields (.write .same _ _)
  | reverseBytes => exact compute_yields (.write .same _ _)
  | stack direction extra list =>
      cases direction with
      | store => exact push_yields _ _ _
      | load => exact pop_yields _ _ _
  | block => exact blockTransfer_yields _ _ _ _
  | branchIf =>
      rw [execute]
      split
      · exact branchBy_yields _ _
      · exact compute_yields .same
  | branch => exact branchBy_yields _ _
  | longBranchHigh => exact compute_yields (.write .same _ _)
  | longBranchLow => exact goto_yields (.write .same _ _) _
  | softwareInterrupt code => exact absurd rfl (ordinary code)

/-! ## Turns -/

/-- What a turn that calls nobody does to a batch: the core changes and memory is written as
instructions do it, and of what else the host owns, nothing is touched. -/
structure Batch.Affects (batch next : Batch σ) : Prop where
  core : batch.core.Changes next.core
  memory : batch.host.memory.Written next.host.memory
  registers : next.host.registers = batch.host.registers
  state : next.host.state = batch.host.state

namespace Taken

theorem exists_of_isInterrupt {taken : Taken σ} (interrupt : taken.isInterrupt) :
    ∃ code, taken.instruction? = some (.softwareInterrupt code) := by
  rw [isInterrupt] at interrupt
  split at interrupt
  · rename_i code executed
    exact ⟨code, executed⟩
  · cases interrupt

namespace Faithful

variable {taken : Taken σ} {image : CodeImage} {handler : Handler σ}

/-- A turn that calls the host leaves what the host leaves. -/
theorem host_of_interrupt (faithful : taken.Faithful image handler)
    (interrupt : taken.isInterrupt) :
    ∃ code, taken.finish.host = (handler code taken.start.handed).1 := by
  obtain ⟨code, executed⟩ := exists_of_isInterrupt interrupt
  obtain ⟨word, turn⟩ := faithful.turn_of_interrupt executed
  refine ⟨code, ?_⟩
  rw [finish, turn]
  rcases handler code taken.start.handed with ⟨left, _ | halt⟩
  · rfl
  · cases halt <;> rfl

/-- A turn that calls nobody does what instructions do. -/
theorem effect_of_ordinary (faithful : taken.Faithful image handler)
    (ordinary : taken.isInterrupt = false) : taken.start.Affects taken.finish := by
  have course := faithful.course
  rw [finish]
  generalize taken.turn = turn at course ⊢
  cases course with
  | unfetched => exact ⟨.same, .same, rfl, rfl⟩
  | undecoded => exact ⟨.same, .same, rfl, rfl⟩
  | resumed fetched decoded => simp [faithful.isInterrupt_of_decoded fetched decoded] at ordinary
  | stopped fetched decoded => simp [faithful.isInterrupt_of_decoded fetched decoded] at ordinary
  | halted fetched decoded => simp [faithful.isInterrupt_of_decoded fetched decoded] at ordinary
  | @completed word _ _ _ _ executes executed =>
      have yields := execute_yields executes word taken.start.machine
      rw [executed] at yields
      rw [Turn.batch]
      constructor
      · rw [Batch.charge_core]
        exact yields.core
      · rw [Batch.charge_host]
        exact yields.memory
      · rw [Batch.charge_host]
        rfl
      · rw [Batch.charge_host]
        rfl
  | @failed word _ _ _ _ _ executes executed =>
      have yields := execute_yields executes word taken.start.machine
      rw [executed] at yields
      exact ⟨yields.core, yields.memory, rfl, rfl⟩

end Faithful

end Taken

end ThumbMachine
