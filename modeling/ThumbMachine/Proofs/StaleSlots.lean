/-
Module: ThumbMachine.Proofs.StaleSlots
Purpose: No instruction observes the stale slots of a working core. Cores that pack to the same file
  are alike, and executing any instruction on alike machines has the same outcome and leaves them
  alike.
Main exports: Core.Alike, Machine.Alike, Step.Alike, execute_alike
-/
import ThumbMachine.Core.Execute
import ThumbMachine.Proofs.Packing

namespace ThumbMachine

/-- Two cores that pack to the same file: they may differ in the slot of R15 and in the flag bits of
the status word, and nowhere else. -/
def Core.Alike (left right : Core) : Prop := left.toFile = right.toFile

/-- Alike cores over the same memory. -/
structure Machine.Alike (left right : Machine) : Prop where
  core : left.core.Alike right.core
  memory : left.memory = right.memory

/-- The same outcome on alike machines. -/
structure Step.Alike (left right : Step) : Prop where
  machine : left.machine.Alike right.machine
  fault : left.fault = right.fault

/-- List transfers that reached the same address with the same outcome, on alike machines. -/
structure ListTransfer.Alike (left right : ListTransfer) : Prop where
  machine : left.machine.Alike right.machine
  address : left.address = right.address
  refused : left.refused = right.refused

/-! ## Cores -/

namespace Core.Alike

variable {left right : Core}

theorem pc (alike : left.Alike right) : left.pc = right.pc := by
  rw [← left.pc_toFile, ← right.pc_toFile, alike]

theorem nextPc (alike : left.Alike right) : left.nextPc = right.nextPc := by
  rw [Core.nextPc, Core.nextPc, alike.pc]

theorem flags (alike : left.Alike right) : left.flags = right.flags := by
  rw [← left.flags_toFile, ← right.flags_toFile, alike]

/-- R15 reads through the program counter, so no operand comes from a stale slot. -/
theorem read (alike : left.Alike right) (register : Register) :
    left.read register = right.read register := by
  rw [left.read_eq_toFile, right.read_eq_toFile, alike]

theorem write (alike : left.Alike right) {register : Register} (general : register ≠ Register.pc)
    (value : Word) : (left.write register value).Alike (right.write register value) := by
  rw [Core.Alike, toFile_write _ general, toFile_write _ general, alike]

theorem writeLow (alike : left.Alike right) (register : LowRegister) (value : Word) :
    (left.write register.wide value).Alike (right.write register.wide value) :=
  alike.write register.wide_ne_pc value

theorem writeLr (alike : left.Alike right) (value : Word) :
    (left.write Register.lr value).Alike (right.write Register.lr value) :=
  alike.write (by decide) value

theorem writeSp (alike : left.Alike right) (value : Word) :
    (left.write Register.sp value).Alike (right.write Register.sp value) :=
  alike.write (by decide) value

theorem setFlags (alike : left.Alike right) (flags : Flags) :
    (left.setFlags flags).Alike (right.setFlags flags) := by
  rw [Core.Alike, toFile_setFlags, toFile_setFlags, alike]

theorem setPc (alike : left.Alike right) (pc : Word) :
    (left.setPc pc).Alike (right.setPc pc) := by
  rw [Core.Alike, toFile_setPc, toFile_setPc, alike]

theorem writeArithmetic (alike : left.Alike right) (destination : LowRegister)
    (outcome : AluResult) :
    (left.writeArithmetic destination outcome).Alike
      (right.writeArithmetic destination outcome) := by
  rw [Core.writeArithmetic, Core.writeArithmetic, alike.flags]
  exact (alike.writeLow destination outcome.value).setFlags _

theorem shift (alike : left.Alike right) (kind : ShiftKind) (amount : BitVec 5)
    (source destination : LowRegister) :
    (left.shift kind amount source destination).Alike
      (right.shift kind amount source destination) := by
  simp only [Core.shift, alike.read, alike.flags]
  exact (alike.writeLow destination _).setFlags _

theorem addSubtract (alike : left.Alike right) (kind : OperandKind) (subtract : Bool)
    (operand : BitVec 3) (source destination : LowRegister) :
    (left.addSubtract kind subtract operand source destination).Alike
      (right.addSubtract kind subtract operand source destination) := by
  have operands : left.smallOperand kind operand = right.smallOperand kind operand := by
    cases kind with
    | immediate => rfl
    | register => exact alike.read _
  simp only [Core.addSubtract, alike.read, operands]
  exact alike.writeArithmetic destination _

theorem immediate (alike : left.Alike right) (op : ImmediateOp) (destination : LowRegister)
    (value : Byte) :
    (left.immediate op destination value).Alike (right.immediate op destination value) := by
  simp only [Core.immediate, alike.read, alike.flags]
  cases op with
  | mov => exact (alike.writeLow destination _).setFlags _
  | cmp => exact alike.setFlags _
  | add => exact alike.writeArithmetic destination _
  | sub => exact alike.writeArithmetic destination _

theorem alu (alike : left.Alike right) (op : AluOp) (source destination : LowRegister) :
    (left.alu op source destination).Alike (right.alu op source destination) := by
  simp only [Core.alu, alike.read, alike.flags]
  split
  · exact (alike.setFlags _).writeLow destination _
  · exact alike.setFlags _

theorem compareHigh (alike : left.Alike right) (source destination : Register) :
    (left.compareHigh source destination).Alike (right.compareHigh source destination) := by
  simp only [Core.compareHigh, alike.read, alike.flags]
  exact alike.setFlags _

theorem computedAddress (alike : left.Alike right) (base : AddressBase) (words : Byte) :
    left.computedAddress base words = right.computedAddress base words := by
  simp only [Core.computedAddress, alike.read]

theorem adjustStack (alike : left.Alike right) (negative : Bool) (words : BitVec 7) :
    (left.adjustStack negative words).Alike (right.adjustStack negative words) := by
  simp only [Core.adjustStack, alike.read]
  exact alike.writeSp _

end Core.Alike

/-- Packing a core and unpacking it again is harmless where the program counter is even: unpacking
clears its bit 0. -/
theorem Core.ofFile_toFile_alike {core : Core} (even : odd core.pc = false) :
    (Core.ofFile core.toFile).Alike core := by
  rw [Core.Alike, toFile_ofFile, pc_toFile, halfwordAligned_eq_self even, ← core.pc_toFile,
    RegisterFile.setPc_pc]

theorem TransferFormat.resolve_alike {left right : Core} (alike : left.Alike right)
    (format : TransferFormat) : format.resolve left = format.resolve right := by
  cases format <;> simp only [resolve, alike.read, alike.computedAddress]

/-! ## Machines -/

namespace Machine.Alike

variable {left right : Machine}

theorem setCore (alike : left.Alike right) {one two : Core} (cores : one.Alike two) :
    (left.setCore one).Alike (right.setCore two) :=
  ⟨cores, alike.memory⟩

theorem write (alike : left.Alike right) {register : Register} (general : register ≠ Register.pc)
    (value : Word) : (left.write register value).Alike (right.write register value) :=
  alike.setCore (alike.core.write general value)

theorem setMemory (alike : left.Alike right) (memory : Memory) :
    Machine.Alike { left with memory } { right with memory } :=
  ⟨alike.core, rfl⟩

theorem goto (alike : left.Alike right) (target : Word) :
    (left.goto target).Alike (right.goto target) :=
  ⟨⟨alike.core.setPc target, alike.memory⟩, rfl⟩

theorem next (alike : left.Alike right) : left.next.Alike right.next := by
  rw [Machine.next, Machine.next, alike.core.nextPc]
  exact alike.goto _

theorem fail (alike : left.Alike right) (cause : Fault) :
    (left.fail cause).Alike (right.fail cause) :=
  ⟨alike, rfl⟩

theorem compute (alike : left.Alike right) {one two : Core} (cores : one.Alike two) :
    (left.compute one).Alike (right.compute two) :=
  (alike.setCore cores).next

theorem high (alike : left.Alike right) (op : HighOp) (source destination : Register) :
    (left.high op source destination).Alike (right.high op source destination) := by
  have deliver (value : Word) :
      (if destination = Register.pc then left.goto (halfwordAligned value)
        else left.compute (left.core.write destination value)).Alike
      (if destination = Register.pc then right.goto (halfwordAligned value)
        else right.compute (right.core.write destination value)) := by
    split
    · exact alike.goto _
    · rename_i general
      exact alike.compute (alike.core.write general value)
  simp only [Machine.high, alike.core.read]
  cases op with
  | add => exact deliver _
  | mov => exact deliver _
  | cmp => exact alike.compute (alike.core.compareHigh source destination)

theorem branchExchange (alike : left.Alike right) (source : Register) (link : Bool) :
    (left.branchExchange source link).Alike (right.branchExchange source link) := by
  simp only [Machine.branchExchange, alike.core.read, alike.core.nextPc]
  split
  · refine (alike.setCore ?_).goto _
    cases link with
    | true => exact alike.core.writeLr _
    | false => exact alike.core
  · exact alike.fail _

theorem branchBy (alike : left.Alike right) (distance : Word) :
    (left.branchBy distance).Alike (right.branchBy distance) := by
  rw [Machine.branchBy, Machine.branchBy, alike.core.read]
  exact alike.goto _

theorem longBranch (alike : left.Alike right) (offset : BitVec 11) :
    (left.longBranch offset).Alike (right.longBranch offset) := by
  simp only [Machine.longBranch, alike.core.read, alike.core.nextPc]
  exact (alike.setCore (alike.core.writeLr _)).goto _

/-! ## Transfers -/

theorem deliver (alike : left.Alike right) (transfer : Transfer)
    (loaded : Except InvalidAccess Word) :
    (transfer.deliver left loaded).Alike (transfer.deliver right loaded) := by
  cases loaded with
  | ok value => exact (alike.write transfer.register.wide_ne_pc value).next
  | error access => exact alike.fail _

theorem perform (alike : left.Alike right) (transfer : Transfer) :
    (transfer.perform left).Alike (transfer.perform right) := by
  obtain ⟨kind, address, register⟩ := transfer
  cases kind with
  | store datum =>
      simp only [Transfer.perform, alike.core.read, alike.memory]
      split
      · exact (alike.setMemory _).next
      · exact alike.fail _
  | load datum =>
      simp only [Transfer.perform, alike.memory]
      exact alike.deliver _ _
  | loadSigned datum =>
      simp only [Transfer.perform, alike.memory]
      exact alike.deliver _ _

theorem loadList (alike : left.Alike right) (address : Word) (list : List LowRegister) :
    (left.loadList address list).Alike (right.loadList address list) := by
  induction list generalizing left right address with
  | nil => exact ⟨alike, rfl, rfl⟩
  | cons register rest inductionHypothesis =>
      simp only [Machine.loadList, alike.memory]
      split
      · exact inductionHypothesis (alike.write register.wide_ne_pc _) _
      · exact ⟨alike, rfl, rfl⟩

theorem storeList (alike : left.Alike right) (address : Word) (list : List LowRegister) :
    (left.storeList address list).Alike (right.storeList address list) := by
  induction list generalizing left right address with
  | nil => exact ⟨alike, rfl, rfl⟩
  | cons register rest inductionHypothesis =>
      simp only [Machine.storeList, alike.memory, alike.core.read]
      split
      · exact inductionHypothesis (alike.setMemory _) _
      · exact ⟨alike, rfl, rfl⟩

theorem pushList (alike : left.Alike right) (address : Word) (list : List Register) :
    (left.pushList address list).Alike (right.pushList address list) := by
  induction list generalizing left right address with
  | nil => exact ⟨alike, rfl, rfl⟩
  | cons register rest inductionHypothesis =>
      simp only [Machine.pushList, alike.memory, alike.core.read]
      split
      · exact inductionHypothesis (alike.setMemory _) _
      · exact ⟨alike, rfl, rfl⟩

end Machine.Alike

theorem ListTransfer.Alike.writeBack {left right : ListTransfer} (alike : left.Alike right)
    {register : Register} (general : register ≠ Register.pc) :
    (left.writeBack register).Alike (right.writeBack register) := by
  have written := alike.machine.write general right.address
  simp only [ListTransfer.writeBack, alike.address, alike.refused]
  split
  · exact written.next
  · exact written.fail _

namespace Machine.Alike

variable {left right : Machine}

theorem blockTransfer (alike : left.Alike right) (direction : Direction) (base : LowRegister)
    (list : Byte) :
    (left.blockTransfer direction base list).Alike (right.blockTransfer direction base list) := by
  simp only [Machine.blockTransfer, alike.core.read]
  cases direction with
  | store => exact (alike.storeList _ _).writeBack base.wide_ne_pc
  | load => exact (alike.loadList _ _).writeBack base.wide_ne_pc

theorem push (alike : left.Alike right) (link : Bool) (list : Byte) :
    (left.push link list).Alike (right.push link list) := by
  simp only [Machine.push, alike.core.read]
  exact (alike.pushList _ _).writeBack (by decide)

theorem pop (alike : left.Alike right) (branch : Bool) (list : Byte) :
    (left.pop branch list).Alike (right.pop branch list) := by
  have general : Register.sp ≠ Register.pc := by decide
  have loaded := alike.loadList (left.core.read Register.sp) (listedRegisters list)
  simp only [Machine.pop, ← alike.core.read, ← loaded.refused, ← loaded.address,
    ← loaded.machine.memory]
  split
  · split
    · exact (loaded.machine.write general _).fail _
    · split
      · exact (loaded.machine.write general _).goto _
      · exact (loaded.machine.write general _).fail _
  · exact loaded.writeBack general

end Machine.Alike

/-! ## Every instruction -/

/-- Executing an instruction on alike machines has the same outcome and leaves them alike. -/
theorem execute_alike {left right : Machine} (alike : left.Alike right) (word : Halfword)
    (instruction : Instruction) :
    (execute word instruction left).Alike (execute word instruction right) := by
  have core := alike.core
  cases instruction with
  | shift => exact alike.compute (core.shift ..)
  | addSubtract => exact alike.compute (core.addSubtract ..)
  | immediate => exact alike.compute (core.immediate ..)
  | alu => exact alike.compute (core.alu ..)
  | high => exact alike.high ..
  | branchExchange => exact alike.branchExchange ..
  | transfer format =>
      simp only [execute, format.resolve_alike core]
      exact alike.perform _
  | loadAddress =>
      simp only [execute, core.computedAddress]
      exact alike.compute (core.writeLow ..)
  | adjustStack => exact alike.compute (core.adjustStack ..)
  | compareBranch =>
      simp only [execute, core.read]
      split
      · exact alike.branchBy _
      · exact alike.next
  | extend =>
      simp only [execute, core.read]
      exact alike.compute (core.writeLow ..)
  | reverseBytes =>
      simp only [execute, core.read]
      exact alike.compute (core.writeLow ..)
  | stack direction =>
      cases direction with
      | store => exact alike.push ..
      | load => exact alike.pop ..
  | block => exact alike.blockTransfer ..
  | branchIf =>
      simp only [execute, core.flags]
      split
      · exact alike.branchBy _
      · exact alike.next
  | softwareInterrupt => exact alike.fail _
  | branch => exact alike.branchBy _
  | longBranchHigh => exact alike.compute (core.writeLr _)
  | longBranchLow => exact alike.longBranch _

end ThumbMachine
