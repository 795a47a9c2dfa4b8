/-
Module: ThumbMachine.Proofs.ListTransfers
Purpose: The instructions that move a list of registers. Each moves its words one after the other up
  to the first refused one, commits what it moved and the pointer it reached, and leaves everything
  else alone.
Main exports: Core.Sets, Machine.loadList_eq, Machine.storeList_eq, Machine.pushList_eq,
  Machine.blockTransfer_loads, Machine.blockTransfer_stores, Machine.push_stores, Machine.pop_loads,
  Machine.pop_branches, Machine.list_transfers_commit
-/
import ThumbMachine.Core.Execute
import ThumbMachine.Proofs.Packing
import ThumbMachine.Proofs.WordMap

namespace ThumbMachine

/-! ## The registers of a list -/

theorem LowRegister.wide_inj {register other : LowRegister} :
    register.wide = other.wide ↔ register = other := by
  decide +revert

/-- A list names the registers whose bits are set. -/
theorem mem_listedRegisters {list : Byte} {register : LowRegister} :
    register ∈ listedRegisters list ↔ list.getLsbD register.toNat = true := by
  have every : register ∈ ([0, 1, 2, 3, 4, 5, 6, 7] : List LowRegister) := by decide +revert
  rw [listedRegisters, List.mem_filter]
  exact and_iff_right every

/-- It names them in ascending order. -/
theorem pairwise_listedRegisters (list : Byte) : (listedRegisters list).Pairwise (· < ·) :=
  List.Pairwise.filter _ (by decide)

theorem nodup_listedRegisters (list : Byte) : (listedRegisters list).Nodup :=
  (pairwise_listedRegisters list).imp fun order => BitVec.ne_of_lt order

theorem length_listedRegisters_le (list : Byte) : (listedRegisters list).length ≤ 8 :=
  List.length_filter_le _ _

namespace Core

/-- Writes loaded words to the registers of a list, the first to the first. -/
def deliver (core : Core) : List LowRegister → List Word → Core
  | register :: registers, value :: values =>
      (core.write register.wide value).deliver registers values
  | _, _ => core

theorem deliver_flags (core : Core) (registers : List LowRegister) (values : List Word) :
    (core.deliver registers values).flags = core.flags := by
  fun_induction deliver core registers values with
  | case1 core register registers value values inductionHypothesis => exact inductionHypothesis
  | case2 => rfl

theorem deliver_pc (core : Core) (registers : List LowRegister) (values : List Word) :
    (core.deliver registers values).pc = core.pc := by
  fun_induction deliver core registers values with
  | case1 core register registers value values inductionHypothesis => exact inductionHypothesis
  | case2 => rfl

/-- Only the registers that get a word change. -/
theorem get_deliver (core : Core) {registers : List LowRegister} {values : List Word} {slot : Slot}
    (other : ∀ register ∈ registers.take values.length, slot ≠ register.wide.slot) :
    (core.deliver registers values).registers.get slot = core.registers.get slot := by
  fun_induction deliver core registers values with
  | case1 core register registers value values inductionHypothesis =>
      rw [List.length_cons, List.take_succ_cons] at other
      have first := other register List.mem_cons_self
      have later := inductionHypothesis fun register member =>
        other register (List.mem_cons_of_mem _ member)
      rw [later, write, RegisterFile.get_set, if_neg first.symm]
  | case2 => rfl

/-- Each register gets its word. -/
theorem read_deliver (core : Core) {registers : List LowRegister} (distinct : registers.Nodup)
    {values : List Word} {index : Nat} {register : LowRegister} {value : Word}
    (listed : registers[index]? = some register) (loaded : values[index]? = some value) :
    (core.deliver registers values).read register.wide = value := by
  rw [read_eq_get _ register.wide_ne_pc]
  induction registers generalizing core values index with
  | nil => cases listed
  | cons first registers inductionHypothesis =>
      obtain ⟨fresh, rest⟩ := List.nodup_cons.1 distinct
      cases values with
      | nil => cases loaded
      | cons firstValue values =>
          rw [deliver]
          cases index with
          | succ index => exact inductionHypothesis _ rest listed loaded
          | zero =>
              cases listed
              cases loaded
              -- no later register of the list is the first one again
              have other : ∀ later ∈ registers.take values.length,
                  register.wide.slot ≠ later.wide.slot := by
                intro later member same
                rw [Register.slot_inj, LowRegister.wide_inj] at same
                exact fresh (same ▸ List.mem_of_mem_take member)
              rw [get_deliver _ other, write, RegisterFile.get_set, if_pos rfl]

/-- Words that no register is left for go nowhere. -/
theorem deliver_append (core : Core) {registers : List LowRegister} {values : List Word}
    (enough : registers.length ≤ values.length) (more : List Word) :
    core.deliver registers (values ++ more) = core.deliver registers values := by
  induction registers generalizing core values with
  | nil =>
      rw [deliver, deliver]
      all_goals
        intro register rest value values none_
        cases none_
  | cons register registers inductionHypothesis =>
      cases values with
      | nil => cases enough
      | cons value values => exact inductionHypothesis _ (Nat.le_of_succ_le_succ enough)

/-- What a list transfer makes of a core. The registers of the list get the words that were loaded,
the pointer gets the address reached, whether or not it was loaded as well, and all else stays but
for the program counter. -/
structure Sets (core : Core) (registers : List LowRegister) (values : List Word)
    (pointer : Register) (reached pc : Word) (next : Core) : Prop where
  loaded : ∀ (index : Nat) (register : LowRegister) (value : Word),
    registers[index]? = some register →
    values[index]? = some value → register.wide ≠ pointer → next.read register.wide = value
  moved : next.read pointer = reached
  others : ∀ slot, slot ≠ pointer.slot →
    (∀ register ∈ registers.take values.length, slot ≠ register.wide.slot) →
      next.registers.get slot = core.registers.get slot
  flags : next.flags = core.flags
  pc : next.pc = pc

theorem sets_deliver (core : Core) {registers : List LowRegister} (distinct : registers.Nodup)
    (values : List Word) {pointer : Register} (general : pointer ≠ Register.pc)
    (reached pc : Word) :
    core.Sets registers values pointer reached pc
      (((core.deliver registers values).write pointer reached).setPc pc) where
  loaded index register value listed loaded other := by
    rw [read_setPc _ _ register.wide_ne_pc, read_write _ general, if_neg other]
    exact core.read_deliver distinct listed loaded
  moved := by
    rw [read_setPc _ _ general, read_write _ general, if_pos rfl]
  others slot apart unlisted := by
    rw [setPc_registers, write, RegisterFile.get_set, if_neg apart.symm]
    exact core.get_deliver unlisted
  flags := core.deliver_flags registers values
  pc := rfl

end Core

/-! ## How far a list goes -/

/-- The refused access of a list transfer, where there is one. -/
def refusedAt (place : Nat → Word) (count reached : Nat) : Option InvalidAccess :=
  if reached < count then some ⟨place reached, 4⟩ else none

theorem refusedAt_succ (place : Nat → Word) (count reached : Nat) :
    refusedAt place (count + 1) (reached + 1) =
      refusedAt (fun index => place (index + 1)) count reached := by
  simp only [refusedAt, Nat.succ_lt_succ_iff]

theorem refusedAt_eq_none_iff {place : Nat → Word} {count reached : Nat} :
    refusedAt place count reached = none ↔ count ≤ reached := by
  simp [refusedAt]

namespace Machine

variable {machine : Machine}

/-- Loading a list is reading its words and writing them to its registers. -/
theorem loadList_eq (valid : machine.memory.Valid) (address : Word) (registers : List LowRegister) :
    machine.loadList address registers =
      let values := machine.memory.loadEach address.above registers.length
      { machine := machine.setCore (machine.core.deliver registers values)
        address := address.above values.length
        refused := refusedAt address.above registers.length values.length } := by
  induction registers generalizing machine address with
  | nil =>
      simp only [loadList, List.length_nil, Memory.loadEach, Word.above_zero]
      rfl
  | cons register rest inductionHypothesis =>
      rw [loadList, List.length_cons, Memory.loadEach, Word.above_zero, Word.shift_above]
      by_cases granted : machine.memory.Grants .load address
      · obtain ⟨value, read, _⟩ := Memory.readWord_of_granted valid granted
        have same : (machine.write register.wide value).memory.Valid := valid
        simp only [read, inductionHypothesis same, List.length_cons, refusedAt_succ,
          Word.shift_above]
        rw [address.above_succ]
        rfl
      · simp only [Memory.readWord_of_refused valid granted, List.length_nil]
        rw [refusedAt, if_pos (Nat.succ_pos _), Word.above_zero]
        rfl

/-- Storing a list is storing the words of its registers. -/
theorem storeList_eq (valid : machine.memory.Valid) (address : Word)
    (registers : List LowRegister) :
    machine.storeList address registers =
      let stored := machine.memory.storeEach address.above
        ((registers.map LowRegister.wide).map machine.core.read)
      { machine := { machine with memory := stored.2 }
        address := address.above stored.1
        refused := refusedAt address.above registers.length stored.1 } := by
  induction registers generalizing machine address with
  | nil =>
      simp only [storeList, List.map_nil, Memory.storeEach, List.length_nil, Word.above_zero]
      rfl
  | cons register rest inductionHypothesis =>
      rw [storeList, List.length_cons, List.map_cons, List.map_cons, Memory.storeEach,
        Word.above_zero, Word.shift_above]
      by_cases granted : machine.memory.Grants .store address
      · obtain ⟨memory, written, overwritten⟩ :=
          Memory.writeWord_of_granted valid granted (machine.core.read register.wide)
        have same : Memory.Valid { machine with memory }.memory := valid.of_table overwritten.table
        simp only [written, inductionHypothesis same, refusedAt_succ, Word.shift_above]
        rw [address.above_succ]
      · simp only [Memory.writeWord_of_refused valid granted]
        rw [refusedAt, if_pos (Nat.succ_pos _), Word.above_zero]

/-- Pushing a list is storing the words of its registers downward. A refused word moves the address
as well. -/
theorem pushList_eq (valid : machine.memory.Valid) (address : Word) (registers : List Register) :
    machine.pushList address registers =
      let stored := machine.memory.storeEach (fun index => address.below (index + 1))
        (registers.map machine.core.read)
      { machine := { machine with memory := stored.2 }
        address := address.below (if stored.1 < registers.length then stored.1 + 1 else stored.1)
        refused :=
          refusedAt (fun index => address.below (index + 1)) registers.length stored.1 } := by
  induction registers generalizing machine address with
  | nil =>
      simp only [pushList, List.map_nil, Memory.storeEach, List.length_nil, Nat.lt_irrefl, if_false,
        Word.below_zero]
      rfl
  | cons register rest inductionHypothesis =>
      have further : (fun index => address.below (index + 1 + 1)) =
          fun index => (address - 4).below (index + 1) :=
        funext fun index => address.below_succ (index + 1)
      have first : address.below 1 = address - 4 := by
        rw [address.below_succ, Word.below_zero]
      rw [pushList, List.length_cons, List.map_cons, Memory.storeEach, first, further]
      by_cases granted : machine.memory.Grants .store (address - 4)
      · obtain ⟨memory, written, overwritten⟩ :=
          Memory.writeWord_of_granted valid granted (machine.core.read register)
        have same : Memory.Valid { machine with memory }.memory := valid.of_table overwritten.table
        simp only [written, inductionHypothesis same, refusedAt_succ, further, Nat.succ_lt_succ_iff]
        rw [← apply_ite (· + 1), address.below_succ]
      · simp only [Memory.writeWord_of_refused valid granted]
        rw [refusedAt, if_pos (Nat.succ_pos _), if_pos (Nat.succ_pos _), first]

end Machine

/-! ## What the pointer and the fault say -/

/-- Ending a list transfer: the pointer gets the address reached, and a refused access keeps the
instruction from completing. -/
theorem ListTransfer.writeBack_eq (machine : Machine) (address : Word) (place : Nat → Word)
    (count reached : Nat) (pointer : Register) :
    ({ machine, address, refused := refusedAt place count reached } :
      ListTransfer).writeBack pointer =
      { machine := machine.setCore ((machine.core.write pointer address).setPc
          (if reached < count then machine.core.pc else machine.core.nextPc))
        fault := (refusedAt place count reached).map .invalidAccess } := by
  rw [refusedAt]
  split
  · rfl
  · rfl

namespace Machine

/-- A step that loaded some words into a list of registers: where it left the pointer and the
program counter, and what fault it met. Memory is as before. -/
structure LoadsList (machine : Machine) (registers : List LowRegister) (values : List Word)
    (pointer : Register) (reached pc : Word) (fault : Option Fault) (step : Step) : Prop where
  core : machine.core.Sets registers values pointer reached pc step.machine.core
  memory : step.machine.memory = machine.memory
  fault : step.fault = fault

/-- A step that stored a list of registers up to the first refused place: where it left the pointer,
and the fault that names that place. No other register and no other byte changes. -/
structure StoresList (machine : Machine) (place : Nat → Word) (registers : List Register)
    (reached : Nat) (pointer : Register) (address : Word) (step : Step) : Prop where
  stored : machine.memory.StoresUpTo place (registers.map machine.core.read) reached
    step.machine.memory
  core : machine.core.Sets [] [] pointer address
    (if reached < registers.length then machine.core.pc else machine.core.nextPc) step.machine.core
  fault : step.fault = (refusedAt place registers.length reached).map .invalidAccess

/-- A step that loads a list of registers from a pointer upward, up to the first refused word. It
leaves the pointer at that word or after the last one, and completes in the latter case only. -/
def LoadsGranted (machine : Machine) (registers : List LowRegister) (pointer : Register)
    (step : Step) : Prop :=
  let start := machine.core.read pointer
  ∃ values, machine.memory.ReadsUpTo start.above registers.length values ∧
    machine.LoadsList registers values pointer (start.above values.length)
      (if values.length < registers.length then machine.core.pc else machine.core.nextPc)
      ((refusedAt start.above registers.length values.length).map .invalidAccess) step

variable {machine : Machine}

/-! ## The four instructions -/

theorem loadList_writeBack (valid : machine.memory.Valid) (list : Byte) {pointer : Register}
    (general : pointer ≠ Register.pc) :
    machine.LoadsGranted (listedRegisters list) pointer
      ((machine.loadList (machine.core.read pointer)
        (listedRegisters list)).writeBack pointer) := by
  have kept := machine.core.deliver_pc (listedRegisters list)
    (machine.memory.loadEach (machine.core.read pointer).above (listedRegisters list).length)
  refine ⟨_, Memory.loadEach_reads valid _ _, ?_⟩
  rw [loadList_eq valid, ListTransfer.writeBack_eq]
  refine ⟨?_, rfl, rfl⟩
  simp only [setCore, Core.nextPc, kept]
  exact machine.core.sets_deliver (nodup_listedRegisters list) _ general _ _

/-- What ends after its stores: the machine has stored as many registers as it was granted. -/
theorem storesList_writeBack (valid : machine.memory.Valid) (place address : Nat → Word)
    {registers : List Register} {pointer : Register} (general : pointer ≠ Register.pc)
    (apart : ∀ first later, first < later → later < registers.length →
      (place first).Apart (place later)) :
    let stored := machine.memory.storeEach place (registers.map machine.core.read)
    machine.StoresList place registers stored.1 pointer (address stored.1)
      (({ machine := { machine with memory := stored.2 }
          address := address stored.1
          refused := refusedAt place registers.length stored.1 } :
          ListTransfer).writeBack pointer) := by
  intro stored
  rw [ListTransfer.writeBack_eq]
  refine ⟨Memory.storeEach_stores valid _ ?_, ?_, rfl⟩
  · rw [List.length_map]
    exact apart
  · exact machine.core.sets_deliver List.nodup_nil [] general _ _

/-- The registers that a PUSH stores, in its order. -/
def pushedRegisters (link : Bool) (list : Byte) : List Register :=
  (if link then [Register.lr] else []) ++ ((listedRegisters list).map LowRegister.wide).reverse

theorem length_pushedRegisters (link : Bool) (list : Byte) :
    (pushedRegisters link list).length = (listedRegisters list).length + link.toNat := by
  cases link with
  | false => simp [pushedRegisters]
  | true => simp [pushedRegisters, Nat.add_comm]

theorem blockTransfer_loads (valid : machine.memory.Valid) (list : Byte) (base : LowRegister) :
    machine.LoadsGranted (listedRegisters list) base.wide (machine.blockTransfer .load base list) :=
  loadList_writeBack valid list base.wide_ne_pc

theorem blockTransfer_stores (valid : machine.memory.Valid) (list : Byte) (base : LowRegister) :
    let registers := (listedRegisters list).map LowRegister.wide
    let start := machine.core.read base.wide
    ∃ reached, machine.StoresList start.above registers reached base.wide (start.above reached)
      (machine.blockTransfer .store base list) := by
  intro registers start
  have short : registers.length ≤ 8 := by
    rw [List.length_map]
    exact length_listedRegisters_le list
  refine ⟨(machine.memory.storeEach start.above (registers.map machine.core.read)).1, ?_⟩
  rw [blockTransfer, storeList_eq valid, ← List.length_map LowRegister.wide]
  apply storesList_writeBack valid start.above start.above base.wide_ne_pc
  intro first later order inside
  exact start.above_apart order (by omega)

theorem push_stores (valid : machine.memory.Valid) (link : Bool) (list : Byte) :
    let registers := pushedRegisters link list
    let top := machine.core.read Register.sp
    ∃ reached, machine.StoresList (fun index => top.below (index + 1)) registers reached Register.sp
      (top.below (if reached < registers.length then reached + 1 else reached))
      (machine.push link list) := by
  intro registers top
  have short : registers.length ≤ 9 := by
    rw [length_pushedRegisters]
    exact Nat.add_le_add (length_listedRegisters_le list) link.toNat_le
  let place := fun index => top.below (index + 1)
  refine ⟨(machine.memory.storeEach place (registers.map machine.core.read)).1, ?_⟩
  rw [push, pushList_eq valid]
  apply storesList_writeBack valid place
    (fun reached => top.below (if reached < registers.length then reached + 1 else reached))
    (by decide)
  intro first later order inside
  exact top.below_apart (Nat.succ_lt_succ order) (by omega)

/-- A step that popped some words into a list of registers and, where there is one more, into the
program counter. A branch target is taken off the stack if it has bit 0 set, and is refused
otherwise. -/
structure PopsBranch (machine : Machine) (registers : List LowRegister) (values : List Word)
    (step : Step) : Prop where
  refused : values[registers.length]? = none →
    machine.LoadsList registers values Register.sp
      ((machine.core.read Register.sp).above values.length)
      machine.core.pc
      (some (.invalidAccess ⟨(machine.core.read Register.sp).above values.length, 4⟩)) step
  branches : ∀ target, values[registers.length]? = some target → odd target = true →
    machine.LoadsList registers values Register.sp
      ((machine.core.read Register.sp).above (registers.length + 1)) (halfwordAligned target)
      none step
  declines : ∀ target, values[registers.length]? = some target → odd target = false →
    machine.LoadsList registers values Register.sp
      ((machine.core.read Register.sp).above registers.length) machine.core.pc
      (some (.invalidTarget target)) step

theorem pop_loads (valid : machine.memory.Valid) (list : Byte) :
    machine.LoadsGranted (listedRegisters list) Register.sp (machine.pop false list) := by
  have same : machine.pop false list = (machine.loadList (machine.core.read Register.sp)
      (listedRegisters list)).writeBack Register.sp := by
    dsimp only [pop]
    split
    · contradiction
    · rfl
  rw [same]
  exact loadList_writeBack valid list (by decide)

/-- What a POP into the program counter does, by the words that were loaded. -/
theorem pop_true_eq (valid : machine.memory.Valid) (list : Byte) :
    let registers := listedRegisters list
    let top := machine.core.read Register.sp
    let values := machine.memory.loadEach top.above registers.length
    let loaded (reached : Nat) :=
      machine.setCore ((machine.core.deliver registers values).write Register.sp
        (top.above reached))
    machine.pop true list =
      if values.length < registers.length then
        (loaded values.length).fail (.invalidAccess ⟨top.above values.length, 4⟩)
      else
        match machine.memory.readWord (top.above values.length) with
        | .error access => (loaded values.length).fail (.invalidAccess access)
        | .ok target =>
            if odd target then (loaded (values.length + 1)).goto (halfwordAligned target)
            else (loaded values.length).fail (.invalidTarget target) := by
  have kept (core : Core) : (machine.setCore core).memory = machine.memory := rfl
  dsimp only [pop]
  rw [loadList_eq valid]
  dsimp only [refusedAt]
  generalize machine.memory.loadEach (machine.core.read Register.sp).above
    (listedRegisters list).length = values
  split_ifs
  · rfl
  · rw [kept]
    cases machine.memory.readWord ((machine.core.read Register.sp).above values.length) with
    | error access => rfl
    | ok target =>
        dsimp only
        rw [Word.above_add_four]
        rfl

/-- What a step that ends with a fault has loaded. -/
theorem loadsList_fail {registers : List LowRegister} (distinct : registers.Nodup)
    (values : List Word) {pointer : Register} (general : pointer ≠ Register.pc) (reached : Word)
    (cause : Fault) :
    machine.LoadsList registers values pointer reached machine.core.pc (some cause)
      ((machine.setCore
        ((machine.core.deliver registers values).write pointer reached)).fail cause) := by
  refine ⟨?_, rfl, rfl⟩
  rw [← machine.core.deliver_pc registers values]
  exact machine.core.sets_deliver distinct values general reached _

theorem loadsList_goto {registers : List LowRegister} (distinct : registers.Nodup)
    (values : List Word) {pointer : Register} (general : pointer ≠ Register.pc)
    (reached target : Word) :
    machine.LoadsList registers values pointer reached target none
      ((machine.setCore
        ((machine.core.deliver registers values).write pointer reached)).goto target) :=
  ⟨machine.core.sets_deliver distinct values general reached target, rfl, rfl⟩

theorem pop_branches (valid : machine.memory.Valid) (list : Byte) :
    let registers := listedRegisters list
    ∃ values,
      machine.memory.ReadsUpTo (machine.core.read Register.sp).above (registers.length + 1)
        values ∧
      machine.PopsBranch registers values (machine.pop true list) := by
  intro registers
  have distinct : registers.Nodup := nodup_listedRegisters list
  have general : Register.sp ≠ Register.pc := by decide
  have reads := Memory.loadEach_reads valid (machine.core.read Register.sp).above registers.length
  rw [pop_true_eq valid]
  generalize machine.memory.loadEach (machine.core.read Register.sp).above registers.length =
    values at reads
  rcases Nat.lt_or_eq_of_le reads.upTo.within with fewer | full
  · have missing : values[registers.length]? = none := List.getElem?_eq_none (Nat.le_of_lt fewer)
    rw [if_pos fewer]
    refine ⟨values, reads.widen (reads.upTo.refused fewer), ?_, by simp [missing],
      by simp [missing]⟩
    intro _
    exact loadsList_fail distinct values general _ _
  · rw [if_neg (Nat.not_lt_of_ge full.ge)]
    by_cases granted : machine.memory.Grants .load
      ((machine.core.read Register.sp).above registers.length)
    · obtain ⟨target, read, shown⟩ := Memory.readWord_of_granted valid granted
      have last : (values ++ [target])[registers.length]? = some target := by
        rw [← full, List.getElem?_concat_length]
      refine ⟨values ++ [target], reads.concat full granted shown, ?_, ?_, ?_⟩
      all_goals
        rw [last, full, read, ← machine.core.deliver_append full.ge [target]]
        dsimp only
      · intro missing
        cases missing
      · rintro _ ⟨⟩ branch
        rw [if_pos branch]
        exact loadsList_goto distinct _ general _ _
      · rintro _ ⟨⟩ decline
        rw [decline, if_neg Bool.false_ne_true]
        exact loadsList_fail distinct _ general _ _
    · have missing : values[registers.length]? = none := List.getElem?_eq_none full.le
      have cut := reads.widen (full.symm ▸ granted)
      rw [full, Memory.readWord_of_refused valid granted]
      refine ⟨values, cut, ?_, by simp [missing], by simp [missing]⟩
      intro _
      rw [full]
      exact loadsList_fail distinct values general _ _

/-! ## What a list transfer commits -/

/-- All that the list transfers of one list do. Each goes as far as its places are granted, in the
order of its registers, and commits exactly what it reached. -/
structure CommitsLists (machine : Machine) (word : Halfword) (list : Byte) : Prop where
  readable : ∀ address, machine.memory.Grants .load address ↔
    ∃ value, machine.memory.readWord address = .ok value
  writable : ∀ address value, machine.memory.Grants .store address ↔
    ∃ next, machine.memory.writeWord address value = .ok next
  listed : ∀ register, register ∈ listedRegisters list ↔ list.getLsbD register.toNat = true
  ascending : (listedRegisters list).Pairwise (· < ·)
  load : ∀ base : LowRegister,
    machine.LoadsGranted (listedRegisters list) base.wide
      (execute word (.block .load base list) machine)
  store : ∀ base : LowRegister,
    let start := machine.core.read base.wide
    ∃ reached, machine.StoresList start.above ((listedRegisters list).map LowRegister.wide)
      reached base.wide (start.above reached) (execute word (.block .store base list) machine)
  push : ∀ link,
    let registers := pushedRegisters link list
    let top := machine.core.read Register.sp
    ∃ reached, machine.StoresList (fun index => top.below (index + 1)) registers reached Register.sp
      (top.below (if reached < registers.length then reached + 1 else reached))
      (execute word (.stack .store link list) machine)
  pop : machine.LoadsGranted (listedRegisters list) Register.sp
    (execute word (.stack .load false list) machine)
  popBranch :
    let registers := listedRegisters list
    let top := machine.core.read Register.sp
    ∃ values, machine.memory.ReadsUpTo top.above (registers.length + 1) values ∧
      machine.PopsBranch registers values (execute word (.stack .load true list) machine)

/-- Block transfers and stack transfers commit exactly what they reached, at any cut: the words
before the first refused one are transferred, the refused one is named, the pointer shows how far
the transfer came, and nothing else changes. -/
theorem list_transfers_commit (machine : Machine) (assembled : machine.memory.Assembled)
    (word : Halfword) (list : Byte) : machine.CommitsLists word list where
  readable _ := Memory.grants_load_iff assembled.valid
  writable _ := Memory.grants_store_iff assembled.valid
  listed _ := mem_listedRegisters
  ascending := pairwise_listedRegisters list
  load := blockTransfer_loads assembled.valid list
  store := blockTransfer_stores assembled.valid list
  push link := push_stores assembled.valid link list
  pop := pop_loads assembled.valid list
  popBranch := pop_branches assembled.valid list

/-- Eight writable bytes, and R2 at the upper four of them. -/
def atLastWord : Machine :=
  { core :=
      { registers := RegisterFile.zero.set (Register.slot 2) 0x104
        flags := default
        pc := 0x40 }
    memory := (Memory.empty ⟨false⟩).extend
      { name := "ram", region := ⟨0x100, 8⟩, access := .readWrite, contents := .zeros 8 } }

/-- LDMIA of R1, R2 and R3 from R2 on loads R1 there, and is refused the word for R2. -/
theorem list_transfers_commit_atLastWord :
    atLastWord.memory.Assembled ∧
      (execute 0xCA0E (.block .load 2 0x0E) atLastWord).fault = some (.invalidAccess ⟨0x108, 4⟩) ∧
      atLastWord.CommitsLists 0xCA0E 0x0E := by
  have mapped : (Memory.empty ⟨false⟩).map "ram" 0x100 (.zeros 8) .readWrite =
      .ok (⟨0x100, 8⟩, atLastWord.memory) :=
    Memory.map_eq_ok_iff.2 ⟨by decide, rfl, rfl⟩
  have assembled : atLastWord.memory.Assembled := .map (.empty ⟨false⟩) mapped
  exact ⟨assembled, by decide +kernel, list_transfers_commit atLastWord assembled 0xCA0E 0x0E⟩

end Machine

end ThumbMachine
