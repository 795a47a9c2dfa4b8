/-
Module: ThumbMachine.Proofs.Noninterference
Purpose: The words that go stale while a batch runs have no influence on it. An instruction neither
  reads nor writes the slot of R15 or the flag bits of the stored status word: from two cores that
  agree everywhere else it comes to the same, and it leaves in both slots what was there.
Main exports: Slot.Hidden, Core.Keeps, execute_keeps, Core.Agrees, Core.agrees_iff_alike,
  Step.Matches, Machine.perform_unobserved
-/
import ThumbMachine.Proofs.Footprint
import ThumbMachine.Proofs.Gateway
import ThumbMachine.Proofs.StaleSlots

namespace ThumbMachine

/-! ## Slots that no instruction writes -/

/-- A slot in which no register but R15 has its place. -/
def Slot.Hidden (slot : Slot) : Prop := ∀ register, register ≠ Register.pc → register.slot ≠ slot

theorem Slot.hidden_pcSlot : Slot.Hidden RegisterFile.pcSlot :=
  fun register general => mt register.slot_eq_pcSlot_iff.1 general

theorem Slot.hidden_statusSlot : Slot.Hidden RegisterFile.statusSlot :=
  fun register _ => register.slot_ne_statusSlot

/-- The word in a slot has stayed. -/
def Core.Keeps (core : Core) (slot : Slot) (next : Core) : Prop :=
  next.registers.get slot = core.registers.get slot

variable {slot : Slot}

namespace Core

variable (core : Core)

theorem Keeps.trans {core reached next : Core} (first : core.Keeps slot reached)
    (second : reached.Keeps slot next) : core.Keeps slot next :=
  Eq.trans second first

theorem keeps_write (hidden : slot.Hidden) {register : Register} (general : register ≠ Register.pc)
    (value : Word) : core.Keeps slot (core.write register value) := by
  rw [Keeps, write, RegisterFile.get_set, if_neg (hidden register general)]

theorem keeps_writeLow (hidden : slot.Hidden) (register : LowRegister) (value : Word) :
    core.Keeps slot (core.write register.wide value) :=
  core.keeps_write hidden register.wide_ne_pc value

theorem keeps_immediate (hidden : slot.Hidden) (op : ImmediateOp) (destination : LowRegister)
    (value : Byte) :
    core.Keeps slot (core.immediate op destination value) := by
  cases op with
  | mov | add | sub => exact core.keeps_writeLow hidden destination _
  | cmp => rfl

theorem keeps_alu (hidden : slot.Hidden) (op : AluOp) (source destination : LowRegister) :
    core.Keeps slot (core.alu op source destination) := by
  rw [alu]
  dsimp only
  split
  · exact (core.setFlags _).keeps_writeLow hidden destination _
  · rfl

end Core

namespace Machine

variable (machine : Machine)

theorem keeps_goto {core : Core} (kept : machine.core.Keeps slot core) (target : Word) :
    machine.core.Keeps slot ((machine.setCore core).goto target).machine.core := kept

theorem keeps_compute {core : Core} (kept : machine.core.Keeps slot core) :
    machine.core.Keeps slot (machine.compute core).machine.core :=
  machine.keeps_goto kept core.nextPc

theorem keeps_branchBy (distance : Word) :
    machine.core.Keeps slot (machine.branchBy distance).machine.core := rfl

/-- A result for R15 moves the program counter and goes to no slot. -/
theorem keeps_high (hidden : slot.Hidden) (op : HighOp) (source destination : Register) :
    machine.core.Keeps slot (machine.high op source destination).machine.core := by
  have delivered (value : Word) : machine.core.Keeps slot
      (if destination = Register.pc then machine.goto (halfwordAligned value)
        else machine.compute (machine.core.write destination value)).machine.core := by
    split
    · rfl
    · rename_i general
      exact machine.keeps_compute (machine.core.keeps_write hidden general value)
  cases op with
  | add | mov => exact delivered _
  | cmp => rfl

theorem keeps_branchExchange (hidden : slot.Hidden) (source : Register) (link : Bool) :
    machine.core.Keeps slot (machine.branchExchange source link).machine.core := by
  rw [branchExchange]
  dsimp only
  split
  · apply machine.keeps_goto
    split
    · exact machine.core.keeps_write hidden (by decide) _
    · rfl
  · rfl

theorem keeps_perform (hidden : slot.Hidden) (transfer : Transfer) :
    machine.core.Keeps slot (transfer.perform machine).machine.core := by
  have delivered (loaded : Except InvalidAccess Word) :
      machine.core.Keeps slot (transfer.deliver machine loaded).machine.core := by
    cases loaded with
    | ok value => exact machine.core.keeps_writeLow hidden transfer.register value
    | error access => rfl
  rw [Transfer.perform]
  split
  · split <;> rfl
  · exact delivered _
  · exact delivered _

theorem keeps_loadList (hidden : slot.Hidden) (address : Word) (list : List LowRegister) :
    machine.core.Keeps slot (machine.loadList address list).machine.core := by
  induction list generalizing machine address with
  | nil => rfl
  | cons register rest inductionHypothesis =>
      rw [loadList]
      split
      · exact (machine.core.keeps_writeLow hidden register _).trans (inductionHypothesis _ _)
      · rfl

theorem keeps_storeList (address : Word) (list : List LowRegister) :
    machine.core.Keeps slot (machine.storeList address list).machine.core := by
  induction list generalizing machine address with
  | nil => rfl
  | cons register rest inductionHypothesis =>
      rw [storeList]
      split
      · exact inductionHypothesis _ _
      · rfl

theorem keeps_pushList (address : Word) (list : List Register) :
    machine.core.Keeps slot (machine.pushList address list).machine.core := by
  induction list generalizing machine address with
  | nil => rfl
  | cons register rest inductionHypothesis =>
      rw [pushList]
      split
      · exact inductionHypothesis _ _
      · rfl

end Machine

theorem ListTransfer.keeps_writeBack (hidden : slot.Hidden) (transfer : ListTransfer)
    {register : Register} (general : register ≠ Register.pc) :
    transfer.machine.core.Keeps slot (transfer.writeBack register).machine.core := by
  have written := transfer.machine.core.keeps_write hidden general transfer.address
  rw [writeBack]
  split
  · exact written
  · exact written

namespace Machine

variable (machine : Machine)

theorem keeps_blockTransfer (hidden : slot.Hidden) (direction : Direction) (base : LowRegister)
    (list : Byte) :
    machine.core.Keeps slot (machine.blockTransfer direction base list).machine.core := by
  cases direction with
  | store =>
      exact (machine.keeps_storeList _ _).trans
        (ListTransfer.keeps_writeBack hidden _ base.wide_ne_pc)
  | load =>
      exact (machine.keeps_loadList hidden _ _).trans
        (ListTransfer.keeps_writeBack hidden _ base.wide_ne_pc)

theorem keeps_push (hidden : slot.Hidden) (link : Bool) (list : Byte) :
    machine.core.Keeps slot (machine.push link list).machine.core :=
  (machine.keeps_pushList _ _).trans (ListTransfer.keeps_writeBack hidden _ (by decide))

theorem keeps_pop (hidden : slot.Hidden) (branch : Bool) (list : Byte) :
    machine.core.Keeps slot (machine.pop branch list).machine.core := by
  have general : Register.sp ≠ Register.pc := by decide
  have loaded := machine.keeps_loadList hidden (machine.core.read Register.sp)
    (listedRegisters list)
  have pointed (address : Word) := loaded.trans (Core.keeps_write _ hidden general address)
  rw [pop.eq_def]
  dsimp only
  split
  · split
    · exact pointed _
    · split
      · exact pointed _
      · exact pointed _
  · exact loaded.trans (ListTransfer.keeps_writeBack hidden _ general)

end Machine

/-- Whatever an instruction comes to, a slot that is no general register's keeps its word. -/
theorem execute_keeps (hidden : slot.Hidden) (word : Halfword) (instruction : Instruction)
    (machine : Machine) :
    machine.core.Keeps slot (execute word instruction machine).machine.core := by
  cases instruction with
  | shift | addSubtract | loadAddress | extend | reverseBytes =>
      exact machine.keeps_compute (machine.core.keeps_writeLow hidden _ _)
  | immediate => exact machine.keeps_compute (machine.core.keeps_immediate hidden _ _ _)
  | alu => exact machine.keeps_compute (machine.core.keeps_alu hidden _ _ _)
  | high => exact machine.keeps_high hidden _ _ _
  | branchExchange => exact machine.keeps_branchExchange hidden _ _
  | transfer => exact machine.keeps_perform hidden _
  | adjustStack | longBranchHigh =>
      exact machine.keeps_compute (machine.core.keeps_write hidden (by decide) _)
  | compareBranch =>
      rw [execute]
      split
      · exact machine.keeps_branchBy _
      · exact machine.keeps_compute rfl
  | stack direction =>
      cases direction with
      | store => exact machine.keeps_push hidden _ _
      | load => exact machine.keeps_pop hidden _ _
  | block => exact machine.keeps_blockTransfer hidden _ _ _
  | branchIf =>
      rw [execute]
      split
      · exact machine.keeps_branchBy _
      · exact machine.keeps_compute rfl
  | branch => exact machine.keeps_branchBy _
  | longBranchLow => exact machine.keeps_goto (machine.core.keeps_write hidden (by decide) _) _
  | softwareInterrupt => rfl

/-! ## Cores that differ in stale words -/

/-- Cores that agree on the program counter, the flags, R0 to R14 and bits 26 to 0 of the stored
status word. In the slot of R15 and in the other bits of the status word either may hold
anything. -/
structure Core.Agrees (left right : Core) : Prop where
  pc : left.pc = right.pc
  flags : left.flags = right.flags
  general : ∀ register, register ≠ Register.pc →
    left.registers.get register.slot = right.registers.get register.slot
  rest : ∀ position < 27,
    left.registers.status.getLsbD position = right.registers.status.getLsbD position

/-- Nothing else of a core goes into the file that it packs to. -/
theorem Core.agrees_iff_alike {left right : Core} : left.Agrees right ↔ left.Alike right := by
  have held : right.HeldBy right.toFile := heldBy_iff.2 rfl
  constructor
  · intro agree
    refine (heldBy_iff.1 ⟨fun register general => ?_, ?_, ?_, fun position low => ?_⟩).symm
    · rw [held.general register general, right.read_eq_get general, left.read_eq_get general,
        agree.general register general]
    · rw [held.pc, agree.pc]
    · rw [held.flags, agree.flags]
    · rw [held.rest position low, agree.rest position low]
  · intro alike
    have same : left.HeldBy right.toFile := heldBy_iff.2 alike.symm
    refine ⟨alike.pc, alike.flags, fun register general => ?_, fun position low => ?_⟩
    · rw [← left.read_eq_get general, ← right.read_eq_get general, alike.read]
    · rw [← same.rest position low, held.rest position low]

/-- Whether an instruction goes on at a target of its own depends on the flags and on what it
reads. -/
theorem Instruction.branches_alike {left right : Core} (alike : left.Alike right)
    (instruction : Instruction) :
    instruction.branches left = instruction.branches right := by
  cases instruction with
  | compareBranch => simp only [branches, alike.read]
  | branchIf => simp only [branches, alike.flags]
  | stack direction => cases direction <;> rfl
  | _ => rfl

/-! ## Two runs of an instruction -/

/-- Steps with the same outcome: the same fault or none, memories that are the same, cores that
agree, and one register file that both pack to. -/
structure Step.Matches (one two : Step) : Prop where
  fault : one.fault = two.fault
  memory : one.machine.memory = two.machine.memory
  core : one.machine.core.Agrees two.machine.core
  packed : one.machine.core.toFile = two.machine.core.toFile

/-- Both stale words are as they were. -/
structure Core.KeepsStale (core next : Core) : Prop where
  pcSlot : next.registers.pc = core.registers.pc
  status : next.registers.status = core.registers.status

theorem Step.Alike.matches {one two : Step} (alike : one.Alike two) : one.Matches two where
  fault := alike.fault
  memory := alike.machine.memory
  core := Core.agrees_iff_alike.2 alike.machine.core
  packed := alike.machine.core

theorem execute_keepsStale (word : Halfword) (instruction : Instruction) (machine : Machine) :
    machine.core.KeepsStale (execute word instruction machine).machine.core where
  pcSlot := execute_keeps Slot.hidden_pcSlot word instruction machine
  status := execute_keeps Slot.hidden_statusSlot word instruction machine

namespace Machine

/-- Whatever a word decodes to and whatever the memory is, two cores that agree come to the same by
it, and it goes on at a target of its own from both or from neither. Each core keeps the stale words
that it had. -/
theorem perform_unobserved {word : Halfword} {instruction : Instruction}
    (decoded : decode word = .ok instruction) (memory : Memory) {left right : Core}
    (agree : left.Agrees right) :
    ∃ one two, perform ⟨left, memory⟩ word = .ok one ∧ perform ⟨right, memory⟩ word = .ok two ∧
      one.Matches two ∧ instruction.branches left = instruction.branches right ∧
      left.KeepsStale one.machine.core ∧ right.KeepsStale two.machine.core := by
  have alike := Core.agrees_iff_alike.1 agree
  have machines : Alike ⟨left, memory⟩ ⟨right, memory⟩ := ⟨alike, rfl⟩
  exact ⟨_, _, perform_of_decoded decoded _, perform_of_decoded decoded _,
    (execute_alike machines word instruction).matches, instruction.branches_alike alike,
    execute_keepsStale word instruction ⟨left, memory⟩,
    execute_keepsStale word instruction ⟨right, memory⟩⟩

/-- A core at 0x100 with zeros in its registers. -/
def freshCore : Core :=
  { registers := .zero, flags := ⟨true, false, true, false, false⟩, pc := 0x100 }

/-- The same core with other words where they are stale. -/
def staleCore : Core :=
  { freshCore with registers := (RegisterFile.zero.setPc 0xFFFFFFFF).setStatus 0x58000000 }

/-- ADD of R15 to R8. -/
theorem perform_unobserved_addPc :
    decode 0x44F8 = .ok (.high .add 15 8) ∧ freshCore.Agrees staleCore ∧
      freshCore.registers.pc ≠ staleCore.registers.pc ∧
        freshCore.registers.flags ≠ staleCore.registers.flags ∧
      ∃ one two, perform ⟨freshCore, .empty ⟨false⟩⟩ 0x44F8 = .ok one ∧
        perform ⟨staleCore, .empty ⟨false⟩⟩ 0x44F8 = .ok two ∧
        one.Matches two ∧ (Instruction.high .add 15 8).branches freshCore =
          (Instruction.high .add 15 8).branches staleCore ∧
        freshCore.KeepsStale one.machine.core ∧ staleCore.KeepsStale two.machine.core := by
  have decoded : decode 0x44F8 = .ok (.high .add 15 8) := rfl
  have agree : freshCore.Agrees staleCore := ⟨rfl, rfl, by decide, by decide⟩
  exact ⟨decoded, agree, by decide, by decide, perform_unobserved decoded (.empty ⟨false⟩) agree⟩

end Machine

end ThumbMachine
