/-
Module: ThumbMachine.Proofs.StackFrames
Purpose: A PUSH that completes builds a frame, and the POP of the same list takes it apart again,
  whatever the other registers hold by then and wherever the stack lies.
Main exports: Machine.frame, Machine.Builds, Machine.Restores, Machine.RoundTrips,
  Machine.push_builds, Machine.pop_restores, Machine.push_pop_round_trip
-/
import ThumbMachine.Proofs.ListTransfers

namespace ThumbMachine

namespace LowRegister

theorem wide_ne_sp (register : LowRegister) : register.wide ≠ Register.sp := by
  decide +revert

end LowRegister

namespace Machine

variable {machine later : Machine} {link : Bool} {list : Byte}

/-! ## What a PUSH builds -/

/-- The registers in the frame of a PUSH, upward. -/
def framedRegisters (link : Bool) (list : Byte) : List Register :=
  (listedRegisters list).map LowRegister.wide ++ if link then [Register.lr] else []

/-- The words in the frame of a PUSH, upward: the listed registers, then the link register. -/
def frame (machine : Machine) (link : Bool) (list : Byte) : List Word :=
  (framedRegisters link list).map machine.core.read

theorem frame_eq (machine : Machine) (link : Bool) (list : Byte) :
    machine.frame link list = ((pushedRegisters link list).map machine.core.read).reverse := by
  rw [← List.map_reverse, pushedRegisters, List.reverse_append, List.reverse_reverse, frame,
    framedRegisters]
  cases link with
  | false => rfl
  | true => rfl

theorem length_frame (machine : Machine) (link : Bool) (list : Byte) :
    (machine.frame link list).length = (pushedRegisters link list).length := by
  rw [frame_eq, List.length_reverse, List.length_map]

/-- A machine whose stack got a frame. The words of the frame stand from the new stack pointer
upward, where they can be loaded from, and no other byte and no other register has changed. -/
structure Builds (machine : Machine) (link : Bool) (list : Byte) (pushed : Machine) : Prop where
  stored : machine.memory.Stored
    ((machine.core.read Register.sp).below (machine.frame link list).length).above
      (machine.frame link list)
    pushed.memory
  granted : ∀ index < (machine.frame link list).length, pushed.memory.Grants .load
    (((machine.core.read Register.sp).below (machine.frame link list).length).above index)
  core : machine.core.Sets [] [] Register.sp
    ((machine.core.read Register.sp).below (machine.frame link list).length)
    machine.core.nextPc pushed.core

/-- A PUSH that completes has stored every word. -/
theorem push_stores_all (valid : machine.memory.Valid)
    (completes : (machine.push link list).fault = none) :
    let registers := pushedRegisters link list
    let top := machine.core.read Register.sp
    machine.StoresList (fun index => top.below (index + 1)) registers registers.length Register.sp
      (top.below registers.length) (machine.push link list) := by
  intro registers top
  obtain ⟨reached, stores⟩ := push_stores valid link list
  have full : reached = registers.length := by
    have within := stores.stored.upTo.within
    have all := stores.fault.symm.trans completes
    rw [Option.map_eq_none_iff, refusedAt_eq_none_iff] at all
    rw [List.length_map] at within
    exact Nat.le_antisymm within all
  rw [full, if_neg (Nat.lt_irrefl _)] at stores
  exact stores

theorem push_builds (valid : machine.memory.Valid)
    (completes : (machine.push link list).fault = none) :
    machine.Builds link list (machine.push link list).machine := by
  obtain ⟨stored, core, _⟩ := push_stores_all valid completes
  rw [← List.length_map machine.core.read] at stored
  obtain ⟨upward, granted⟩ := stored.upward
  rw [← List.length_reverse, ← frame_eq] at granted upward
  refine ⟨upward, granted, ?_⟩
  rw [if_neg (Nat.lt_irrefl _), ← length_frame] at core
  exact core

/-! ## What a POP takes off -/

/-- A later step that took a frame off the stack. The listed registers are as they were when the
frame was built, every other register that an instruction can write to is as the step found it, and
so is memory. -/
structure Restores (machine later : Machine) (list : Byte) (reached pc : Word)
    (fault : Option Fault) (step : Step) : Prop where
  restored : ∀ register : LowRegister, list.getLsbD register.toNat = true →
    step.machine.core.read register.wide = machine.core.read register.wide
  others : ∀ register : Register, register ≠ Register.sp → register ≠ Register.pc →
    (∀ low : LowRegister, low.wide = register → list.getLsbD low.toNat = false) →
      step.machine.core.read register = later.core.read register
  pointer : step.machine.core.read Register.sp = reached
  pc : step.machine.core.pc = pc
  flags : step.machine.core.flags = later.core.flags
  memory : step.machine.memory = later.memory
  fault : step.fault = fault

/-- Loading the words that the listed registers had restores them. -/
theorem restores_of_loads {more : List Word} {reached pc : Word} {fault : Option Fault}
    {step : Step}
    (loads : later.LoadsList (listedRegisters list)
      (((listedRegisters list).map LowRegister.wide).map machine.core.read ++ more)
      Register.sp reached pc fault step) :
    machine.Restores later list reached pc fault step where
  restored register listed := by
    obtain ⟨index, found⟩ := List.getElem?_of_mem (mem_listedRegisters.2 listed)
    have inside := (List.getElem?_eq_some_iff.1 found).1
    refine loads.core.loaded index register _ found ?_ register.wide_ne_sp
    rw [List.getElem?_append_left (by simpa using inside), List.getElem?_map, List.getElem?_map,
      found]
    rfl
  others register general pc unlisted := by
    rw [Core.read_eq_get _ pc, Core.read_eq_get _ pc]
    apply loads.core.others
    · exact mt Register.slot_inj.1 general
    · intro low member same
      have listed := mem_listedRegisters.1 (List.mem_of_mem_take member)
      rw [unlisted low (Register.slot_inj.1 same).symm] at listed
      cases listed
  pointer := loads.core.moved
  pc := loads.core.pc
  flags := loads.core.flags
  memory := loads.memory
  fault := loads.fault

/-- A later machine with the same stack: its stack pointer and its memory are as they were, and
nothing else has to be. -/
structure SameStack (pushed later : Machine) : Prop where
  pointer : later.core.read Register.sp = pushed.core.read Register.sp
  memory : later.memory = pushed.memory

/-- What a POP reads where a frame was built is the frame. -/
theorem Builds.eq_frame {pushed : Machine} (builds : machine.Builds link list pushed)
    (same : pushed.SameStack later) {values : List Word}
    (reads : later.memory.ReadsUpTo (later.core.read Register.sp).above
      (machine.frame link list).length values) :
    values = machine.frame link list := by
  rw [same.pointer, same.memory, builds.core.moved] at reads
  exact reads.eq_of_shows builds.stored.placed builds.granted

/-- The word after a frame is where the stack pointer was. -/
theorem Builds.top {pushed : Machine} (builds : machine.Builds link list pushed)
    (same : pushed.SameStack later) {index : Nat}
    (within : index ≤ (machine.frame link list).length) :
    (later.core.read Register.sp).above index =
      (machine.core.read Register.sp).below ((machine.frame link list).length - index) := by
  rw [same.pointer, builds.core.moved, Word.above_below _ within]

theorem frame_false (machine : Machine) (list : Byte) :
    machine.frame false list =
      ((listedRegisters list).map LowRegister.wide).map machine.core.read := by
  rw [frame, framedRegisters, if_neg Bool.false_ne_true, List.append_nil]

theorem frame_true (machine : Machine) (list : Byte) :
    machine.frame true list = ((listedRegisters list).map LowRegister.wide).map machine.core.read ++
      [machine.core.read Register.lr] := by
  rw [frame, framedRegisters, if_pos rfl, List.map_append]
  rfl

theorem pop_restores {pushed : Machine} (builds : machine.Builds false list pushed)
    (same : pushed.SameStack later) (valid : later.memory.Valid) :
    machine.Restores later list (machine.core.read Register.sp) later.core.nextPc none
      (later.pop false list) := by
  have count : (machine.frame false list).length = (listedRegisters list).length := by
    rw [frame_false, List.length_map, List.length_map]
  obtain ⟨values, reads, loads⟩ := pop_loads valid list
  rw [← count] at reads loads
  obtain rfl := builds.eq_frame same reads
  rw [builds.top same (Nat.le_refl _), Nat.sub_self, Word.below_zero, if_neg (Nat.lt_irrefl _),
    refusedAt_eq_none_iff.2 (Nat.le_refl _), frame_false, ← List.append_nil (List.map _ _)] at loads
  exact restores_of_loads loads

theorem pop_returns {pushed : Machine} (builds : machine.Builds true list pushed)
    (same : pushed.SameStack later) (valid : later.memory.Valid) :
    let target := machine.core.read Register.lr
    (odd target = true → machine.Restores later list (machine.core.read Register.sp)
      (halfwordAligned target) none (later.pop true list)) ∧
    (odd target = false → machine.Restores later list (machine.core.read Register.sp - 4)
      later.core.pc (some (.invalidTarget target)) (later.pop true list)) := by
  intro target
  have count : (machine.frame true list).length = (listedRegisters list).length + 1 := by
    rw [frame_true, List.length_append, List.length_map, List.length_map, List.length_singleton]
  obtain ⟨values, reads, pops⟩ := pop_branches valid list
  rw [← count] at reads
  obtain rfl := builds.eq_frame same reads
  have last : (machine.frame true list)[(listedRegisters list).length]? = some target := by
    rw [frame_true, List.getElem?_append_right (by simp)]
    simp [target]
  constructor
  · intro branch
    have loads := pops.branches target last branch
    rw [← count, builds.top same (Nat.le_refl _), Nat.sub_self, Word.below_zero,
      frame_true] at loads
    exact restores_of_loads loads
  · intro decline
    have loads := pops.declines target last decline
    rw [builds.top same (by omega), count, Nat.add_sub_cancel_left, Word.below_succ,
      Word.below_zero, frame_true] at loads
    exact restores_of_loads loads

/-! ## There and back -/

/-- What the POPs of a list do to every later machine with the stack that a PUSH of it left. -/
structure RoundTrips (machine : Machine) (link : Bool) (list : Byte) (word : Halfword)
    (pushed : Machine) : Prop where
  builds : machine.Builds link list pushed
  restores : link = false → ∀ later, pushed.SameStack later →
    machine.Restores later list (machine.core.read Register.sp) later.core.nextPc none
      (execute word (.stack .load link list) later)
  returns : link = true → odd (machine.core.read Register.lr) = true →
    ∀ later, pushed.SameStack later →
    machine.Restores later list (machine.core.read Register.sp)
      (halfwordAligned (machine.core.read Register.lr)) none
        (execute word (.stack .load link list) later)
  declines : link = true → odd (machine.core.read Register.lr) = false →
    ∀ later, pushed.SameStack later →
    machine.Restores later list (machine.core.read Register.sp - 4) later.core.pc
      (some (.invalidTarget (machine.core.read Register.lr)))
        (execute word (.stack .load link list) later)

/-- PUSH and POP of one list undo each other, wherever the stack pointer stands. A PUSH that
completes builds a frame, and in every later machine with that stack the POP restores the listed
registers and the stack pointer and goes on or returns, unless the frame holds a link register
without bit 0: that stays on the stack. -/
theorem push_pop_round_trip (machine : Machine) (assembled : machine.memory.Assembled)
    (pushWord popWord : Halfword) (link : Bool) (list : Byte)
    (completes : (execute pushWord (.stack .store link list) machine).fault = none) :
    machine.RoundTrips link list popWord
      (execute pushWord (.stack .store link list) machine).machine := by
  have builds : machine.Builds link list (machine.push link list).machine :=
    push_builds assembled.valid completes
  have valid (later : Machine) (same : (machine.push link list).machine.SameStack later) :
      later.memory.Valid :=
    same.memory ▸ assembled.valid.of_table builds.stored.table
  refine ⟨builds, ?_, ?_, ?_⟩
  · rintro rfl later same
    exact pop_restores builds same (valid later same)
  · rintro rfl branch later same
    exact (pop_returns builds same (valid later same)).1 branch
  · rintro rfl decline later same
    exact (pop_returns builds same (valid later same)).2 decline

/-- A stack pointer of zero, and sixteen writable bytes at the top of the address space. -/
def stackAtTop : Machine :=
  { core :=
      { registers := ((RegisterFile.zero.set (Register.slot 0) 0xA).set (Register.slot 1) 0xB).set
          Register.lr.slot 0x201
        flags := default
        pc := 0x40 }
    memory := (Memory.empty ⟨false⟩).extend
      { name := "ram", region := ⟨0xFFFFFFF0, 16⟩, access := .readWrite, contents := .zeros 16 } }

/-- PUSH and POP of R0, R1 and the link register, with a stack pointer that wraps. -/
theorem push_pop_round_trip_stackAtTop :
    stackAtTop.memory.Assembled ∧ (execute 0xB503 (.stack .store true 3) stackAtTop).fault = none ∧
      stackAtTop.RoundTrips true 3 0xBD03
        (execute 0xB503 (.stack .store true 3) stackAtTop).machine := by
  have mapped : (Memory.empty ⟨false⟩).map "ram" 0xFFFFFFF0 (.zeros 16) .readWrite =
      .ok (⟨0xFFFFFFF0, 16⟩, stackAtTop.memory) :=
    Memory.map_eq_ok_iff.2 ⟨by decide, rfl, rfl⟩
  have assembled : stackAtTop.memory.Assembled := .map (.empty ⟨false⟩) mapped
  have completes : (execute 0xB503 (.stack .store true 3) stackAtTop).fault = none := by
    decide +kernel
  exact ⟨assembled, completes,
    push_pop_round_trip stackAtTop assembled 0xB503 0xBD03 true 3 completes⟩

end Machine

end ThumbMachine
