/-
Module: ThumbMachine.Proofs.Footprint
Purpose: What an instruction may touch: registers, flags, bytes and the program counter. Each
  instruction keeps to its footprint, whatever the machine is and whether or not it completes.
Main exports: Instruction.written, Instruction.addressed, Instruction.branches, Footprint,
  Core.StaysIn, Machine.StaysIn, execute_staysIn, Machine.Frames, Machine.execute_frames
-/
import ThumbMachine.Proofs.AddressSpace
import ThumbMachine.Proofs.Faults
import ThumbMachine.Proofs.ListTransfers
import ThumbMachine.Proofs.TransferFormats

namespace ThumbMachine

/-! ## What an instruction names -/

/-- So many addresses from one on. -/
def Word.onward (address : Word) (count : Nat) : List Word :=
  (List.range count).map fun index => address + BitVec.ofNat 32 index

theorem Word.mem_onward {address other : Word} {count : Nat} :
    other ∈ address.onward count ↔ ∃ index < count, other = address + BitVec.ofNat 32 index := by
  simp [onward, eq_comm]

/-- A word among others is a part of their range. -/
theorem Word.onward_above_subset {address : Word} {index count : Nat} (inside : index < count) :
    (address.above index).onward 4 ⊆ address.onward (4 * count) := by
  intro other member
  obtain ⟨byte, small, rfl⟩ := mem_onward.1 member
  refine mem_onward.2 ⟨4 * index + byte, by omega, ?_⟩
  rw [above, BitVec.ofNat_add, BitVec.add_assoc]

theorem Word.onward_below_subset {address : Word} {index count : Nat} (inside : index < count) :
    (address.below (index + 1)).onward 4 ⊆ (address.below count).onward (4 * count) := by
  -- the words go down from the address, and their range up from the last of them
  have upward := address.above_below (Nat.sub_le count (index + 1))
  rw [Nat.sub_sub_self inside] at upward
  rw [← upward]
  exact onward_above_subset (by omega)

namespace AluOp

/-- The operations that produce no carry. -/
def isLogical : AluOp → Bool
  | and | eor | orr | bic | mvn | tst => true
  | _ => false

/-- The operations that shift. -/
def isShift : AluOp → Bool
  | lsl | lsr | asr | ror => true
  | _ => false

/-- The operations that only compare. -/
def isComparison : AluOp → Bool
  | cmp | cmn | tst => true
  | _ => false

end AluOp

namespace TransferKind

/-- Whether the register of a transfer is loaded. -/
def loads : TransferKind → Bool
  | store _ => false
  | load _ | loadSigned _ => true

/-- How many bytes are stored. -/
def stored : TransferKind → Nat
  | store datum => datum.bytes
  | load _ | loadSigned _ => 0

end TransferKind

namespace Instruction

/-- The register that the result of an instruction goes to. A result for R15 is a branch target. -/
def result? : Instruction → Option Register
  | shift _ _ _ destination | addSubtract _ _ _ _ destination | loadAddress _ destination _
  | extend _ _ destination | reverseBytes _ destination => some destination.wide
  | immediate op destination _ => if op = .cmp then none else some destination.wide
  | alu op _ destination => if op.isComparison then none else some destination.wide
  | high op _ destination =>
      if op = .cmp ∨ destination = Register.pc then none else some destination
  | transfer format => if format.kind.loads then some format.register.wide else none
  | _ => none

/-- The low registers that a POP or LDMIA may load. -/
def loadedList : Instruction → List LowRegister
  | stack .load _ list | block .load _ list => listedRegisters list
  | _ => []

/-- The base that an LDMIA or STMIA writes back. -/
def updatedBase? : Instruction → Option LowRegister
  | block _ base _ => some base
  | _ => none

/-- The instructions that move the stack pointer by themselves. -/
def movesStack : Instruction → Bool
  | adjustStack .. | stack .. => true
  | _ => false

/-- The instructions that leave something in the link register by themselves. -/
def links : Instruction → Bool
  | branchExchange _ link => link
  | longBranchHigh _ | longBranchLow _ => true
  | _ => false

/-- All registers that an instruction may write. -/
def written (instruction : Instruction) : List Register :=
  instruction.result?.toList ++
    (instruction.loadedList ++ instruction.updatedBase?.toList).map LowRegister.wide ++
    (if instruction.movesStack then [Register.sp] else []) ++
    if instruction.links then [Register.lr] else []

/-- Shifts, additions and subtractions, the immediate format, the low-register operations and CMP of
any two registers. -/
def calculates : Instruction → Bool
  | shift .. | addSubtract .. | immediate .. | alu .. | high .cmp .. => true
  | _ => false

/-- The calculations that leave the carry alone. -/
def isLogical : Instruction → Bool
  | immediate .mov .. => true
  | alu op .. => op.isLogical
  | _ => false

/-- The shifts of both formats. -/
def isShift : Instruction → Bool
  | shift .. => true
  | alu op .. => op.isShift
  | _ => false

/-- CMP, CMN and TST in all their encodings. -/
def compares : Instruction → Bool
  | immediate .cmp .. | high .cmp .. => true
  | alu op .. => op.isComparison
  | _ => false

/-- The store formats, PUSH and STMIA. -/
def stores : Instruction → Bool
  | transfer format => !format.kind.loads
  | stack .store .. | block .store .. => true
  | _ => false

/-- The addresses of the bytes that an instruction stores to: from the effective address on, the
words under the stack pointer, or those from the base on. -/
def addressed (instruction : Instruction) (core : Core) : List Word :=
  match instruction with
  | transfer format => (format.address core).onward format.kind.stored
  | stack .store link list =>
      let count := (listedRegisters list).length + link.toNat
      ((core.read Register.sp).below count).onward (4 * count)
  | block .store base list => (core.read base.wide).onward (4 * (listedRegisters list).length)
  | _ => []

/-- Whether an instruction that completes goes on at a target of its own: a branch that is taken, BX
and BLX, the second half of BL, ADD and MOV to R15, and POP with R15. -/
def branches (instruction : Instruction) (core : Core) : Bool :=
  match instruction with
  | compareBranch nonZero register _ => (core.read register.wide != 0) == nonZero
  | branchIf condition _ => condition.holds core.flags
  | branch _ | branchExchange .. | longBranchLow _ => true
  | high op _ destination => op != .cmp && destination == Register.pc
  | stack .load extra _ => extra
  | _ => false

variable {instruction : Instruction} {register : Register}

theorem mem_written : register ∈ instruction.written ↔
    instruction.result? = some register ∨
      (∃ low ∈ instruction.loadedList, low.wide = register) ∨
      (∃ low, instruction.updatedBase? = some low ∧ low.wide = register) ∨
      (instruction.movesStack = true ∧ register = Register.sp) ∨
      (instruction.links = true ∧ register = Register.lr) := by
  simp [written]

theorem result_mem_written (result : instruction.result? = some register) :
    register ∈ instruction.written :=
  mem_written.2 (.inl result)

theorem listed_mem_written {low : LowRegister} (listed : low ∈ instruction.loadedList) :
    low.wide ∈ instruction.written :=
  mem_written.2 (.inr (.inl ⟨low, listed, rfl⟩))

theorem base_mem_written {base : LowRegister} (updated : instruction.updatedBase? = some base) :
    base.wide ∈ instruction.written :=
  mem_written.2 (.inr (.inr (.inl ⟨base, updated, rfl⟩)))

theorem sp_mem_written (moves : instruction.movesStack = true) :
    Register.sp ∈ instruction.written :=
  mem_written.2 (.inr (.inr (.inr (.inl ⟨moves, rfl⟩))))

theorem lr_mem_written (links : instruction.links = true) : Register.lr ∈ instruction.written :=
  mem_written.2 (.inr (.inr (.inr (.inr ⟨links, rfl⟩))))

end Instruction

/-! ## Keeping to a footprint -/

/-- What may change: some registers, some flags and some bytes, and where to go on. -/
structure Footprint where
  registers : List Register
  signZero : Bool
  carry : Bool
  overflow : Bool
  stores : Bool
  bytes : List Word
  branches : Bool

/-- The footprint of an instruction. -/
def Instruction.footprint (instruction : Instruction) (core : Core) : Footprint where
  registers := instruction.written
  signZero := instruction.calculates
  carry := instruction.calculates && !instruction.isLogical
  overflow := instruction.calculates && !instruction.isLogical && !instruction.isShift
  stores := instruction.stores
  bytes := instruction.addressed core
  branches := instruction.branches core

/-- Flags of which only those of a footprint may have changed. -/
structure Flags.StaysIn (flags : Flags) (footprint : Footprint) (next : Flags) : Prop where
  sign : footprint.signZero = false → next.n = flags.n
  zero : footprint.signZero = false → next.z = flags.z
  carry : footprint.carry = false → next.c = flags.c
  overflow : footprint.overflow = false → next.v = flags.v
  q : next.q = flags.q

/-- A core of which only registers and flags of a footprint may have changed. -/
structure Core.StaysIn (core : Core) (footprint : Footprint) (next : Core) : Prop where
  registers : ∀ slot, (∀ register ∈ footprint.registers, slot ≠ register.slot) →
    next.registers.get slot = core.registers.get slot
  flags : core.flags.StaysIn footprint next.flags

/-- A memory of which only bytes of a footprint may have changed. -/
structure Memory.StaysIn (memory : Memory) (footprint : Footprint) (next : Memory) : Prop where
  unwritten : footprint.stores = false → next = memory
  others : ∀ address, address ∉ footprint.bytes → next.byte? address = memory.byte? address
  table : next.table = memory.table
  config : next.config = memory.config

/-- A step that keeps to a footprint, and goes on where it says. -/
structure Machine.StaysIn (machine : Machine) (footprint : Footprint) (step : Step) : Prop where
  core : machine.core.StaysIn footprint step.machine.core
  memory : machine.memory.StaysIn footprint step.machine.memory
  pc : step.fault = none → footprint.branches = false → step.machine.core.pc = machine.core.nextPc

variable {footprint : Footprint}

namespace Flags.StaysIn

variable {flags : Flags}

theorem same : flags.StaysIn footprint flags :=
  ⟨fun _ => rfl, fun _ => rfl, fun _ => rfl, fun _ => rfl, rfl⟩

theorem setSignZero (signZero : footprint.signZero = true) (result : Word) :
    flags.StaysIn footprint (flags.setSignZero result) where
  sign none_ := by cases signZero.symm.trans none_
  zero none_ := by cases signZero.symm.trans none_
  carry _ := rfl
  overflow _ := rfl
  q := rfl

theorem setShift (signZero : footprint.signZero = true) (carry : footprint.carry = true)
    (outcome : AluResult) :
    flags.StaysIn footprint (flags.setShift outcome) where
  sign none_ := by cases signZero.symm.trans none_
  zero none_ := by cases signZero.symm.trans none_
  carry none_ := by cases carry.symm.trans none_
  overflow _ := rfl
  q := rfl

theorem setArithmetic (signZero : footprint.signZero = true) (carry : footprint.carry = true)
    (overflow : footprint.overflow = true) (outcome : AluResult) :
    flags.StaysIn footprint (flags.setArithmetic outcome) where
  sign none_ := by cases signZero.symm.trans none_
  zero none_ := by cases signZero.symm.trans none_
  carry none_ := by cases carry.symm.trans none_
  overflow none_ := by cases overflow.symm.trans none_
  q := rfl

end Flags.StaysIn

namespace Core

variable {core next : Core}

theorem staysIn_same : core.StaysIn footprint core :=
  ⟨fun _ _ => rfl, .same⟩

theorem StaysIn.write (before : core.StaysIn footprint next) {register : Register}
    (member : register ∈ footprint.registers) (value : Word) :
    core.StaysIn footprint (next.write register value) where
  registers slot other := by
    rw [Core.write, RegisterFile.get_set, if_neg (other register member).symm]
    exact before.registers slot other
  flags := before.flags

theorem StaysIn.setPc (before : core.StaysIn footprint next) (pc : Word) :
    core.StaysIn footprint (next.setPc pc) :=
  ⟨before.registers, before.flags⟩

theorem staysIn_setFlags {flags : Flags} (kept : core.flags.StaysIn footprint flags) :
    core.StaysIn footprint (core.setFlags flags) :=
  ⟨fun _ _ => rfl, kept⟩

/-- A list transfer touches its pointer and the registers it loads. -/
theorem Sets.staysIn {registers : List LowRegister} {values : List Word} {pointer : Register}
    {reached pc : Word} (sets : core.Sets registers values pointer reached pc next)
    (moved : pointer ∈ footprint.registers)
    (listed : ∀ register ∈ registers, register.wide ∈ footprint.registers) :
    core.StaysIn footprint next where
  registers slot other := sets.others slot (other pointer moved) fun register member =>
    other register.wide (listed register (List.mem_of_mem_take member))
  flags := by
    rw [sets.flags]
    exact .same

end Core

namespace Memory

variable {memory next : Memory}

theorem staysIn_same : memory.StaysIn footprint memory :=
  ⟨fun _ => rfl, fun _ _ => rfl, rfl, rfl⟩

theorem Overwritten.staysIn {address : Word} {bytes : List Byte}
    (overwritten : memory.Overwritten address bytes next) (stores : footprint.stores = true)
    (ranged : address.onward bytes.length ⊆ footprint.bytes) :
    memory.StaysIn footprint next where
  unwritten none_ := by cases stores.symm.trans none_
  others other outside := by
    apply overwritten.others
    rintro index inside rfl
    exact outside (ranged (Word.mem_onward.2 ⟨index, inside, rfl⟩))
  table := overwritten.table
  config := overwritten.config

theorem Stored.staysIn {place : Nat → Word} {values : List Word}
    (stored : memory.Stored place values next) (stores : footprint.stores = true)
    (ranged : ∀ index < values.length, (place index).onward 4 ⊆ footprint.bytes) :
    memory.StaysIn footprint next where
  unwritten none_ := by cases stores.symm.trans none_
  others other outside := by
    apply stored.others
    rintro index inside byte small rfl
    exact outside (ranged index inside (Word.mem_onward.2 ⟨byte, small, rfl⟩))
  table := stored.table
  config := stored.config

end Memory

namespace Machine

variable {machine : Machine}

theorem goto_staysIn {core : Core} (kept : machine.core.StaysIn footprint core)
    (branches : footprint.branches = true) (target : Word) :
    machine.StaysIn footprint ((machine.setCore core).goto target) where
  core := kept.setPc target
  memory := Memory.staysIn_same
  pc _ none_ := by cases branches.symm.trans none_

theorem compute_staysIn {core : Core} (kept : machine.core.StaysIn footprint core)
    (pc : core.pc = machine.core.pc) : machine.StaysIn footprint (machine.compute core) where
  core := kept.setPc core.nextPc
  memory := Memory.staysIn_same
  pc _ _ := congrArg (· + 2) pc

theorem fail_staysIn {core : Core} (kept : machine.core.StaysIn footprint core) (cause : Fault) :
    machine.StaysIn footprint ((machine.setCore core).fail cause) where
  core := kept
  memory := Memory.staysIn_same
  pc completes := by cases completes

/-- A step that loaded a list of registers keeps to a footprint that has them all. -/
theorem LoadsList.staysIn {registers : List LowRegister} {values : List Word} {pointer : Register}
    {reached pc : Word} {fault : Option Fault} {step : Step}
    (loads : machine.LoadsList registers values pointer reached pc fault step)
    (moved : pointer ∈ footprint.registers)
    (listed : ∀ register ∈ registers, register.wide ∈ footprint.registers)
    (ends : fault = none → footprint.branches = false → pc = machine.core.nextPc) :
    machine.StaysIn footprint step where
  core := loads.core.staysIn moved listed
  memory := by
    rw [loads.memory]
    exact Memory.staysIn_same
  pc completes straight := by
    rw [loads.core.pc]
    exact ends (loads.fault.symm.trans completes) straight

theorem LoadsGranted.staysIn {registers : List LowRegister} {pointer : Register} {step : Step}
    (loads : machine.LoadsGranted registers pointer step) (moved : pointer ∈ footprint.registers)
    (listed : ∀ register ∈ registers, register.wide ∈ footprint.registers) :
    machine.StaysIn footprint step := by
  obtain ⟨values, _, loaded⟩ := loads
  apply loaded.staysIn moved listed
  intro completes _
  rw [Option.map_eq_none_iff, refusedAt_eq_none_iff] at completes
  exact if_neg (Nat.not_lt_of_le completes)

/-- A step that stored a list of registers keeps to a footprint that has all its places. -/
theorem StoresList.staysIn {place : Nat → Word} {registers : List Register} {reached : Nat}
    {pointer : Register} {address : Word} {step : Step}
    (stores : machine.StoresList place registers reached pointer address step)
    (moved : pointer ∈ footprint.registers) (storing : footprint.stores = true)
    (ranged : ∀ index < registers.length, (place index).onward 4 ⊆ footprint.bytes) :
    machine.StaysIn footprint step where
  core := stores.core.staysIn moved fun register member => nomatch member
  memory := by
    apply stores.stored.stored.staysIn storing
    intro index inside
    have within := Nat.lt_of_lt_of_le inside (List.length_take_le' _ _)
    rw [List.length_map] at within
    exact ranged index within
  pc completes _ := by
    rw [stores.fault, Option.map_eq_none_iff, refusedAt_eq_none_iff] at completes
    rw [stores.core.pc, if_neg (Nat.not_lt_of_le completes)]

end Machine

/-! ## Every instruction -/

namespace Core

/-- A result goes to its register, and the flags to those that the instruction may change. -/
theorem staysIn_writeFlags {core : Core} {destination : LowRegister} {flags : Flags}
    (member : destination.wide ∈ footprint.registers) (kept : core.flags.StaysIn footprint flags)
    (value : Word) :
    core.StaysIn footprint ((core.write destination.wide value).setFlags flags) :=
  ⟨(staysIn_same.write member value).registers, kept⟩

end Core

/-- What the flags of a low-register operation are set by, its kind tells. -/
theorem AluOp.apply_staysIn (op : AluOp) (left right : Word) (flags : Flags)
    (signZero : footprint.signZero = true) (carry : footprint.carry = !op.isLogical)
    (overflow : footprint.overflow = (!op.isLogical && !op.isShift)) :
    flags.StaysIn footprint (op.apply left right flags).2 := by
  cases op with
  | and | eor | orr | bic | mvn | tst => exact .setSignZero signZero _
  | lsl | lsr | asr | ror => exact .setShift signZero carry _
  | adc | sbc | neg | cmp | cmn | mul => exact .setArithmetic signZero carry overflow _

theorem AluOp.writesResult_eq (op : AluOp) : op.writesResult = !op.isComparison := by
  cases op <;> rfl

namespace Machine

variable {machine : Machine}

theorem immediate_staysIn (op : ImmediateOp) (destination : LowRegister) (value : Byte) :
    machine.StaysIn ((Instruction.immediate op destination value).footprint machine.core)
      (machine.compute (machine.core.immediate op destination value)) := by
  apply compute_staysIn _ (Core.immediate_pc _ _ _ _)
  cases op with
  | mov => exact Core.staysIn_writeFlags (Instruction.result_mem_written rfl) (.setSignZero rfl _) _
  | cmp => exact Core.staysIn_setFlags (.setArithmetic rfl rfl rfl _)
  | add =>
      exact Core.staysIn_writeFlags (Instruction.result_mem_written rfl)
        (.setArithmetic rfl rfl rfl _) _
  | sub =>
      exact Core.staysIn_writeFlags (Instruction.result_mem_written rfl)
        (.setArithmetic rfl rfl rfl _) _

theorem alu_staysIn (op : AluOp) (source destination : LowRegister) :
    machine.StaysIn ((Instruction.alu op source destination).footprint machine.core)
      (machine.compute (machine.core.alu op source destination)) := by
  apply compute_staysIn _ (Core.alu_pc _ _ _ _)
  rw [Core.alu, op.writesResult_eq]
  have flagged :
      machine.core.StaysIn ((Instruction.alu op source destination).footprint machine.core)
        (machine.core.setFlags (op.apply (machine.core.read destination.wide)
          (machine.core.read source.wide) machine.core.flags).2) :=
    Core.staysIn_setFlags (op.apply_staysIn _ _ _ rfl rfl rfl)
  cases comparison : op.isComparison with
  | true => exact flagged
  | false =>
      have result : (Instruction.alu op source destination).result? = some destination.wide := by
        rw [Instruction.result?, comparison]
        rfl
      exact flagged.write (Instruction.result_mem_written result) _

theorem high_staysIn (op : HighOp) (source destination : Register) :
    machine.StaysIn ((Instruction.high op source destination).footprint machine.core)
      (machine.high op source destination) := by
  have delivered (moves : op ≠ .cmp) (value : Word) :
      machine.StaysIn ((Instruction.high op source destination).footprint machine.core)
        (if destination = Register.pc then machine.goto (halfwordAligned value)
          else machine.compute (machine.core.write destination value)) := by
    split
    · rename_i counter
      apply goto_staysIn Core.staysIn_same
      simp [Instruction.footprint, Instruction.branches, moves, counter]
    · rename_i general
      apply compute_staysIn _ (Core.write_pc _ _ _)
      have result : (Instruction.high op source destination).result? = some destination := by
        simp [Instruction.result?, moves, general]
      exact Core.staysIn_same.write (Instruction.result_mem_written result) value
  cases op with
  | add => exact delivered HighOp.noConfusion _
  | mov => exact delivered HighOp.noConfusion _
  | cmp => exact compute_staysIn (Core.staysIn_setFlags (.setArithmetic rfl rfl rfl _)) rfl

theorem branchExchange_staysIn (source : Register) (link : Bool) :
    machine.StaysIn ((Instruction.branchExchange source link).footprint machine.core)
      (machine.branchExchange source link) := by
  rw [branchExchange]
  dsimp only
  split
  · refine goto_staysIn ?_ rfl _
    cases link with
    | false => exact Core.staysIn_same
    | true => exact Core.staysIn_same.write (Instruction.lr_mem_written rfl) _
  · exact fail_staysIn Core.staysIn_same _

theorem transfer_staysIn (valid : machine.memory.Valid) (format : TransferFormat) :
    machine.StaysIn ((Instruction.transfer format).footprint machine.core)
      ((format.resolve machine.core).perform machine) := by
  have delivered (loads : format.kind.loads = true) (loaded : Except InvalidAccess Word) :
      machine.StaysIn ((Instruction.transfer format).footprint machine.core)
        ((format.resolve machine.core).deliver machine loaded) := by
    rw [format.resolve_eq]
    cases loaded with
    | error access => exact fail_staysIn Core.staysIn_same _
    | ok value =>
        have result : (Instruction.transfer format).result? = some format.register.wide :=
          if_pos loads
        exact compute_staysIn
          (Core.staysIn_same.write (Instruction.result_mem_written result) value) rfl
  have kind : (format.resolve machine.core).kind = format.kind := by rw [format.resolve_eq]
  rw [Transfer.perform, kind]
  cases same : format.kind with
  | load datum => exact delivered (congrArg TransferKind.loads same) _
  | loadSigned datum => exact delivered (congrArg TransferKind.loads same) _
  | store datum =>
      dsimp only
      split
      · rename_i next written
        rw [format.resolve_eq] at written
        have puts := Memory.write_puts valid datum (format.address machine.core)
          (machine.core.read format.register.wide)
        rw [written] at puts
        obtain ⟨_, overwritten⟩ := puts.of_ok
        have bytes : format.kind.stored = datum.bytes := congrArg TransferKind.stored same
        refine ⟨Core.staysIn_same.setPc _, overwritten.staysIn ?_ ?_, fun _ _ => rfl⟩
        · exact congrArg (fun kind => !TransferKind.loads kind) same
        · rw [datum.length_split, ← bytes]
          exact List.Subset.refl _
      · exact fail_staysIn Core.staysIn_same _

theorem blockTransfer_staysIn (valid : machine.memory.Valid) (direction : Direction)
    (base : LowRegister) (list : Byte) :
    machine.StaysIn ((Instruction.block direction base list).footprint machine.core)
      (machine.blockTransfer direction base list) := by
  have moved : base.wide ∈ (Instruction.block direction base list).written :=
    Instruction.base_mem_written rfl
  cases direction with
  | load =>
      apply (blockTransfer_loads valid list base).staysIn moved
      intro register member
      exact Instruction.listed_mem_written member
  | store =>
      obtain ⟨reached, stores⟩ := blockTransfer_stores valid list base
      apply stores.staysIn moved rfl
      intro index inside
      rw [List.length_map] at inside
      exact Word.onward_above_subset inside

theorem push_staysIn (valid : machine.memory.Valid) (link : Bool) (list : Byte) :
    machine.StaysIn ((Instruction.stack .store link list).footprint machine.core)
      (machine.push link list) := by
  have moved : Register.sp ∈ (Instruction.stack .store link list).written :=
    Instruction.sp_mem_written rfl
  obtain ⟨reached, stores⟩ := push_stores valid link list
  apply stores.staysIn moved rfl
  intro index inside
  rw [length_pushedRegisters] at inside
  exact Word.onward_below_subset inside

theorem pop_staysIn (valid : machine.memory.Valid) (branch : Bool) (list : Byte) :
    machine.StaysIn ((Instruction.stack .load branch list).footprint machine.core)
      (machine.pop branch list) := by
  have moved : Register.sp ∈ (Instruction.stack .load branch list).written :=
    Instruction.sp_mem_written rfl
  have listed : ∀ register ∈ listedRegisters list,
      register.wide ∈ (Instruction.stack .load branch list).written := fun register member =>
    Instruction.listed_mem_written member
  cases branch with
  | false => exact (pop_loads valid list).staysIn moved listed
  | true =>
      obtain ⟨values, _, pops⟩ := pop_branches valid list
      cases last : values[(listedRegisters list).length]? with
      | none => exact (pops.refused last).staysIn moved listed fun completes => by cases completes
      | some target =>
          cases taken : odd target with
          | true =>
              exact (pops.branches target last taken).staysIn moved listed fun _ straight => by
                cases straight
          | false =>
              exact (pops.declines target last taken).staysIn moved listed fun completes => by
                cases completes

end Machine

open Machine in
/-- Every instruction keeps to its footprint. -/
theorem execute_staysIn {machine : Machine} (valid : machine.memory.Valid) (word : Halfword)
    (instruction : Instruction) :
    machine.StaysIn (instruction.footprint machine.core) (execute word instruction machine) := by
  cases instruction with
  | shift kind amount source destination =>
      exact compute_staysIn
        (Core.staysIn_writeFlags (Instruction.result_mem_written rfl) (.setShift rfl rfl _) _) rfl
  | addSubtract kind subtract operand source destination =>
      exact compute_staysIn
        (Core.staysIn_writeFlags (Instruction.result_mem_written rfl)
          (.setArithmetic rfl rfl rfl _) _) rfl
  | immediate op destination value => exact immediate_staysIn op destination value
  | alu op source destination => exact alu_staysIn op source destination
  | high op source destination => exact high_staysIn op source destination
  | branchExchange source link => exact branchExchange_staysIn source link
  | transfer format => exact transfer_staysIn valid format
  | loadAddress base destination words =>
      exact compute_staysIn (Core.staysIn_same.write (Instruction.result_mem_written rfl) _) rfl
  | adjustStack negative words =>
      exact compute_staysIn
        (Core.staysIn_same.write (Instruction.sp_mem_written rfl) _) rfl
  | compareBranch nonZero register halfwords =>
      rw [execute]
      split
      · rename_i taken
        exact goto_staysIn Core.staysIn_same taken _
      · exact compute_staysIn Core.staysIn_same rfl
  | extend kind source destination =>
      exact compute_staysIn (Core.staysIn_same.write (Instruction.result_mem_written rfl) _) rfl
  | reverseBytes source destination =>
      exact compute_staysIn (Core.staysIn_same.write (Instruction.result_mem_written rfl) _) rfl
  | stack direction extra list =>
      cases direction with
      | store => exact push_staysIn valid extra list
      | load => exact pop_staysIn valid extra list
  | block direction base list => exact blockTransfer_staysIn valid direction base list
  | branchIf condition halfwords =>
      rw [execute]
      split
      · rename_i taken
        exact goto_staysIn Core.staysIn_same taken _
      · exact compute_staysIn Core.staysIn_same rfl
  | softwareInterrupt code => exact fail_staysIn Core.staysIn_same _
  | branch halfwords => exact goto_staysIn Core.staysIn_same rfl _
  | longBranchHigh offset =>
      exact compute_staysIn
        (Core.staysIn_same.write (Instruction.lr_mem_written rfl) _) rfl
  | longBranchLow offset =>
      exact goto_staysIn
        (Core.staysIn_same.write (Instruction.lr_mem_written rfl) _) rfl _

/-! ## What may change -/

theorem LowRegister.toNat_wide_lt (register : LowRegister) : register.wide.toNat < 8 := by
  decide +revert

namespace Instruction

variable {instruction : Instruction} {register : Register}

/-- A result goes to a low register, or it is one of ADD or MOV between any two registers. -/
theorem cases_of_result (result : instruction.result? = some register) :
    (∃ low : LowRegister, low.wide = register) ∨
      register ≠ Register.pc ∧ ∃ op source, op ≠ .cmp ∧ instruction = .high op source register := by
  cases instruction with
  | high op source destination =>
      rw [result?] at result
      split at result
      · cases result
      · rename_i kept
        cases result
        obtain ⟨moves, general⟩ := not_or.1 kept
        exact .inr ⟨general, op, source, moves, rfl⟩
  | shift | addSubtract | loadAddress | extend | reverseBytes =>
      cases result
      exact .inl ⟨_, rfl⟩
  | immediate | alu | transfer =>
      rw [result?] at result
      split at result
      all_goals cases result
      exact .inl ⟨_, rfl⟩
  | _ => cases result

theorem ne_pc_of_mem_written (member : register ∈ instruction.written) :
    register ≠ Register.pc := by
  rcases mem_written.1 member with result | ⟨low, _, rfl⟩ | ⟨low, _, rfl⟩ | ⟨_, rfl⟩ | ⟨_, rfl⟩
  · rcases cases_of_result result with ⟨low, rfl⟩ | ⟨general, _⟩
    · exact low.wide_ne_pc
    · exact general
  · exact low.wide_ne_pc
  · exact low.wide_ne_pc
  · decide
  · decide

/-- Why a low register may be written. -/
theorem low_of_mem_written {low : LowRegister} (member : low.wide ∈ instruction.written) :
    instruction.result? = some low.wide ∨ low ∈ instruction.loadedList ∨
      instruction.updatedBase? = some low := by
  have small := low.toNat_wide_lt
  rcases mem_written.1 member with
    result | ⟨other, listed, same⟩ | ⟨other, updated, same⟩ | ⟨_, same⟩ | ⟨_, same⟩
  · exact .inl result
  · exact .inr (.inl (LowRegister.wide_inj.1 same ▸ listed))
  · exact .inr (.inr (LowRegister.wide_inj.1 same ▸ updated))
  · rw [same] at small
    cases (by decide : ¬ Register.sp.toNat < 8) small
  · rw [same] at small
    cases (by decide : ¬ Register.lr.toNat < 8) small

/-- Why another register may be written. -/
theorem high_of_mem_written (above : 8 ≤ register.toNat) (member : register ∈ instruction.written) :
    (∃ op source, op ≠ .cmp ∧ instruction = .high op source register) ∨
      (instruction.movesStack = true ∧ register = Register.sp) ∨
      (instruction.links = true ∧ register = Register.lr) := by
  rcases mem_written.1 member with result | ⟨low, _, rfl⟩ | ⟨low, _, rfl⟩ | stack | link
  · rcases cases_of_result result with ⟨low, rfl⟩ | ⟨_, high⟩
    · cases Nat.not_lt_of_le above low.toNat_wide_lt
    · exact .inl high
  · cases Nat.not_lt_of_le above low.toNat_wide_lt
  · cases Nat.not_lt_of_le above low.toNat_wide_lt
  · exact .inr (.inl stack)
  · exact .inr (.inr link)

theorem written_of_compares (compares : instruction.compares = true) :
    instruction.written = [] := by
  cases instruction with
  | immediate op => cases op <;> first | rfl | cases compares
  | high op => cases op <;> first | rfl | cases compares
  | alu op source destination =>
      have none_ : (alu op source destination).result? = none := if_pos compares
      rw [written, none_]
      rfl
  | _ => cases compares

end Instruction

namespace Machine

/-- What a step of an instruction may have changed. A register only where the instruction names it
as one to write, a flag only where it calculates that flag, a byte only where it stores; and the
program counter stands behind the instruction unless that branches, or on it if it could not
complete. -/
structure Frames (machine : Machine) (instruction : Instruction) (step : Step) : Prop where
  low : ∀ register : LowRegister,
    step.machine.core.read register.wide ≠ machine.core.read register.wide →
    instruction.result? = some register.wide ∨ register ∈ instruction.loadedList ∨
      instruction.updatedBase? = some register
  high : ∀ register : Register, 8 ≤ register.toNat → register.toNat ≤ 12 →
    step.machine.core.read register ≠ machine.core.read register →
      ∃ op source, op ≠ .cmp ∧ instruction = .high op source register
  sp : step.machine.core.read Register.sp ≠ machine.core.read Register.sp →
    (∃ op source, op ≠ .cmp ∧ instruction = .high op source Register.sp) ∨
      instruction.movesStack = true
  lr : step.machine.core.read Register.lr ≠ machine.core.read Register.lr →
    (∃ op source, op ≠ .cmp ∧ instruction = .high op source Register.lr) ∨ instruction.links = true
  pcSlot : step.machine.core.registers.pc = machine.core.registers.pc
  status : step.machine.core.registers.status = machine.core.registers.status
  sign : step.machine.core.flags.n ≠ machine.core.flags.n → instruction.calculates = true
  zero : step.machine.core.flags.z ≠ machine.core.flags.z → instruction.calculates = true
  carry : step.machine.core.flags.c ≠ machine.core.flags.c →
    instruction.calculates = true ∧ instruction.isLogical = false
  overflow : step.machine.core.flags.v ≠ machine.core.flags.v →
    instruction.calculates = true ∧ instruction.isLogical = false ∧ instruction.isShift = false
  q : step.machine.core.flags.q = machine.core.flags.q
  memory : instruction.stores = false → step.machine.memory = machine.memory
  bytes : ∀ address, step.machine.memory.byte? address ≠ machine.memory.byte? address →
    address ∈ instruction.addressed machine.core
  table : step.machine.memory.table = machine.memory.table
  config : step.machine.memory.config = machine.memory.config
  comparisons : instruction.compares = true → step.machine.core.registers = machine.core.registers
  completes : step.fault = none → instruction.branches machine.core = false →
    step.machine.core.pc = machine.core.pc + 2
  fails : step.fault ≠ none → step.machine.core.pc = machine.core.pc

end Machine

namespace Core.StaysIn

variable {core next : Core}

/-- A register that has changed is one of the footprint. -/
theorem mem_of_changed (kept : core.StaysIn footprint next) {register : Register}
    (general : register ≠ Register.pc) (changed : next.read register ≠ core.read register) :
    register ∈ footprint.registers := by
  by_contra outside
  apply changed
  rw [next.read_eq_get general, core.read_eq_get general]
  apply kept.registers
  rintro other member same
  rw [Register.slot_inj] at same
  exact outside (same ▸ member)

end Core.StaysIn

namespace Machine

variable {machine : Machine} {instruction : Instruction} {step : Step}

/-- What a footprint says, instruction by instruction. -/
theorem StaysIn.frames (stays : machine.StaysIn (instruction.footprint machine.core) step)
    (held : step.Held machine) : machine.Frames instruction step where
  low register changed :=
    Instruction.low_of_mem_written (stays.core.mem_of_changed register.wide_ne_pc changed)
  high register above below changed := by
    have general : register ≠ Register.pc := by
      rintro rfl
      cases (by decide : ¬ Register.pc.toNat ≤ 12) below
    rcases Instruction.high_of_mem_written above (stays.core.mem_of_changed general changed) with
      high | ⟨_, rfl⟩ | ⟨_, rfl⟩
    · exact high
    · cases (by decide : ¬ Register.sp.toNat ≤ 12) below
    · cases (by decide : ¬ Register.lr.toNat ≤ 12) below
  sp changed := by
    rcases Instruction.high_of_mem_written (by decide)
      (stays.core.mem_of_changed (by decide) changed) with
      high | ⟨moves, _⟩ | ⟨_, same⟩
    · exact .inl high
    · exact .inr moves
    · cases same
  lr changed := by
    rcases Instruction.high_of_mem_written (by decide)
      (stays.core.mem_of_changed (by decide) changed) with
      high | ⟨_, same⟩ | ⟨links, _⟩
    · exact .inl high
    · cases same
    · exact .inr links
  pcSlot := stays.core.registers _ fun register member same =>
    Instruction.ne_pc_of_mem_written member (register.slot_eq_pcSlot_iff.1 same.symm)
  status := stays.core.registers _ fun register _ same => register.slot_ne_statusSlot same.symm
  sign changed := by
    by_contra none_
    exact changed (stays.core.flags.sign (Bool.eq_false_iff.2 none_))
  zero changed := by
    by_contra none_
    exact changed (stays.core.flags.zero (Bool.eq_false_iff.2 none_))
  carry changed := by
    by_contra none_
    apply changed
    apply stays.core.flags.carry
    simpa [Instruction.footprint] using none_
  overflow changed := by
    by_contra none_
    apply changed
    apply stays.core.flags.overflow
    simpa [Instruction.footprint, and_assoc] using none_
  q := stays.core.flags.q
  memory := stays.memory.unwritten
  bytes address changed := by
    by_contra outside
    exact changed (stays.memory.others address outside)
  table := stays.memory.table
  config := stays.memory.config
  comparisons compares := by
    apply RegisterFile.ext
    intro slot
    apply stays.core.registers
    intro register member
    change register ∈ instruction.written at member
    rw [Instruction.written_of_compares compares] at member
    cases member
  completes := stays.pc
  fails fault := by
    cases held with
    | completed left => exact absurd rfl fault
    | refused pc _ => exact pc

/-- Whatever a word decodes to, executing it changes no more than the instruction says. -/
theorem execute_frames (assembled : machine.memory.Assembled) {word : Halfword}
    (decoded : decode word = .ok instruction) :
    ∃ step, machine.perform word = .ok step ∧ machine.Frames instruction step := by
  have stays := execute_staysIn assembled.valid word instruction
  refine ⟨execute word instruction machine, ?_,
    stays.frames (execute_held word instruction machine)⟩
  rw [perform, decoded]
  rfl

/-- LDMIA of R1, R2 and R3 from R2 on, refused after its first word, may change these three and
nothing else. -/
theorem execute_frames_atLastWord :
    atLastWord.memory.Assembled ∧ decode 0xCA0E = .ok (.block .load 2 0x0E) ∧
      ∃ step, atLastWord.perform 0xCA0E = .ok step ∧
        atLastWord.Frames (.block .load 2 0x0E) step := by
  have mapped : (Memory.empty ⟨false⟩).map "ram" 0x100 (.zeros 8) .readWrite =
      .ok (⟨0x100, 8⟩, atLastWord.memory) :=
    Memory.map_eq_ok_iff.2 ⟨by decide, rfl, rfl⟩
  have assembled : atLastWord.memory.Assembled := .map (.empty ⟨false⟩) mapped
  have decoded : decode 0xCA0E = .ok (.block .load 2 0x0E) := rfl
  exact ⟨assembled, decoded, execute_frames assembled decoded⟩

end Machine

end ThumbMachine
