/-
Module: ThumbMachine.Proofs.Checked.Computing
Purpose: The instructions that only compute once more, with wide fields and all checks: R15 is never
  written as a general register, every register number names a slot, no shift is too far. For fields
  of their own widths no check fails, and the core comes to what it comes to without them.
Main exports: Checked.readRegister, Checked.writeRegister, Checked.readRegister_eq,
  Checked.writeRegister_eq, Checked.alu_eq, Checked.computedAddress_eq
-/
import ThumbMachine.Core.Data
import ThumbMachine.Proofs.Checked.Arithmetic
import ThumbMachine.Proofs.Packing

namespace ThumbMachine.Checked

/-! ## Registers -/

/-- A register as an operand. -/
def readRegister (core : Core) (number : Nat) : Checked Word := do
  if number = 15 then
    return core.pc + 4
  else
    return core.registers.get (← slotAt number)

/-- Writes a general register. -/
def writeRegister (core : Core) (number : Nat) (value : Word) : Checked Core := do
  ensure (number ≠ 15) .pcWritten
  let slot ← slotAt number
  return { core with registers := core.registers.set slot value }

theorem readRegister_eq (core : Core) (register : Register) :
    readRegister core register.toNat = .ok (core.read register) := by
  rw [readRegister, Core.read]
  by_cases counter : register = Register.pc
  · have number : register.toNat = 15 := congrArg BitVec.toNat counter
    rw [if_pos number, if_pos counter]
    rfl
  · have other : ¬ register.toNat = 15 := fun same => counter (BitVec.eq_of_toNat_eq same)
    have slot : slotAt register.toNat = .ok register.slot := slotAt_eq register.slot
    rw [if_neg other, if_neg counter, slot]
    rfl

theorem writeRegister_eq (core : Core) {register : Register} (general : register ≠ Register.pc)
    (value : Word) : writeRegister core register.toNat value = .ok (core.write register value) := by
  have other : register.toNat ≠ 15 := fun same => general (BitVec.eq_of_toNat_eq same)
  have slot : slotAt register.toNat = .ok register.slot := slotAt_eq register.slot
  rw [writeRegister, ensure_of other, ok_bind, slot]
  rfl

theorem toNat_wide (register : LowRegister) : register.wide.toNat = register.toNat :=
  BitVec.toNat_setWidth_of_le (by decide)

theorem readLow_eq (core : Core) (register : LowRegister) :
    readRegister core register.toNat = .ok (core.read register.wide) := by
  rw [← toNat_wide, readRegister_eq]

/-- A low register is not R15. -/
theorem writeLow_eq (core : Core) (register : LowRegister) (value : Word) :
    writeRegister core register.toNat value = .ok (core.write register.wide value) := by
  rw [← toNat_wide, writeRegister_eq _ register.wide_ne_pc]

theorem readSp_eq (core : Core) : readRegister core 13 = .ok (core.read Register.sp) :=
  readRegister_eq core Register.sp

theorem readLr_eq (core : Core) : readRegister core 14 = .ok (core.read Register.lr) :=
  readRegister_eq core Register.lr

theorem readPc_eq (core : Core) : readRegister core 15 = .ok (core.read Register.pc) :=
  readRegister_eq core Register.pc

theorem writeSp_eq (core : Core) (value : Word) :
    writeRegister core 13 value = .ok (core.write Register.sp value) :=
  writeRegister_eq core (show Register.sp ≠ Register.pc by decide) value

theorem writeLr_eq (core : Core) (value : Word) :
    writeRegister core 14 value = .ok (core.write Register.lr value) :=
  writeRegister_eq core (show Register.lr ≠ Register.pc by decide) value

/-! ## Instructions that only compute -/

/-- Writes a result and all its flags. -/
def writeFlagged (core : Core) (destination : Nat) (result : AluResult) : Checked Core := do
  let written ← writeRegister core destination result.value
  return written.setFlags (core.flags.setArithmetic result)

/-- Shift by an amount. -/
def shift (core : Core) (kind : ShiftKind) (amount : Word) (source destination : Nat) :
    Checked Core := do
  let result ← shiftImmediate kind amount.toNat (← readRegister core source) core.flags.c
  let written ← writeRegister core destination result.value
  return written.setFlags (core.flags.setShift result)

/-- The third operand of a three-operand addition or subtraction. -/
def smallOperand (core : Core) (kind : OperandKind) (operand : Word) : Checked Word :=
  match kind with
  | .immediate => .ok operand
  | .register => readRegister core operand.toNat

/-- Three-operand addition or subtraction. -/
def addSubtract (core : Core) (kind : OperandKind) (subtract : Bool) (operand : Word)
    (source destination : Nat) : Checked Core := do
  let left ← readRegister core source
  let right ← smallOperand core kind operand
  let result ← if subtract then sub left right else add left right
  writeFlagged core destination result

/-- Move, compare, add or subtract with a number. -/
def immediate (core : Core) (op : ImmediateOp) (destination : Nat) (value : Word) :
    Checked Core := do
  let current ← readRegister core destination
  match op with
  | .mov => return (← writeRegister core destination value).setFlags (core.flags.setSignZero value)
  | .cmp => return core.setFlags (core.flags.setArithmetic (← sub current value))
  | .add => writeFlagged core destination (← add current value)
  | .sub => writeFlagged core destination (← sub current value)

/-- The result and the flags of a low-register operation. -/
def applyOp (op : AluOp) (left right : Word) (flags : Flags) : Checked (Word × Flags) :=
  let logical (value : Word) : Checked (Word × Flags) := return (value, flags.setSignZero value)
  let arithmetic (result : Checked AluResult) : Checked (Word × Flags) := do
    let result ← result
    return (result.value, flags.setArithmetic result)
  let shifted (kind : ShiftKind) : Checked (Word × Flags) := do
    let result ← shiftByRegister kind (right.setWidth 8).toNat left flags.c
    return (result.value, flags.setShift result)
  match op with
  | .and | .tst => logical (left &&& right)
  | .eor => logical (left ^^^ right)
  | .orr => logical (left ||| right)
  | .bic => logical (left &&& ~~~right)
  | .mvn => logical (~~~right)
  | .lsl => shifted .lsl
  | .lsr => shifted .lsr
  | .asr => shifted .asr
  | .ror => shifted .ror
  | .adc => arithmetic (addWithCarry left right flags.c)
  | .sbc => arithmetic (subWithCarry left right flags.c)
  | .neg => arithmetic (sub 0 right)
  | .cmp => arithmetic (sub left right)
  | .cmn => arithmetic (add left right)
  | .mul => arithmetic (multiply left right flags.c)

/-- An operation between low registers. -/
def alu (core : Core) (op : AluOp) (source destination : Nat) : Checked Core := do
  let left ← readRegister core destination
  let right ← readRegister core source
  let (result, flags) ← applyOp op left right core.flags
  let flagged := core.setFlags flags
  if op.writesResult then writeRegister flagged destination result else return flagged

/-- What a computed address starts from. -/
def addressStart (core : Core) (base : AddressBase) : Checked Word :=
  match base with
  | .pc => do return wordAligned (← readRegister core 15)
  | .sp => readRegister core 13

/-- An address a number of words above the aligned program counter or the stack pointer. -/
def computedAddress (core : Core) (base : AddressBase) (words : Word) : Checked Word := do
  let start ← addressStart core base
  return start + (← shiftUp words 2)

/-- Moves the stack pointer. -/
def adjustStack (core : Core) (negative : Bool) (words : Word) : Checked Core := do
  let pointer ← readRegister core 13
  let distance ← shiftUp words 2
  writeRegister core 13 (if negative then pointer - distance else pointer + distance)

section Computing

variable (core : Core)

theorem writeFlagged_eq (destination : LowRegister) (outcome : AluResult) :
    writeFlagged core destination.toNat outcome =
      .ok (core.writeArithmetic destination outcome) := by
  rw [writeFlagged, writeLow_eq]
  rfl

theorem shift_eq (kind : ShiftKind) (amount : BitVec 5) (source destination : LowRegister) :
    shift core kind (amount.setWidth 32) source.toNat destination.toNat =
      .ok (core.shift kind amount source destination) := by
  rw [shift, BitVec.toNat_setWidth_of_le (by decide), readLow_eq, ok_bind, shiftImmediate_eq,
    ok_bind, writeLow_eq]
  rfl

theorem smallOperand_eq (kind : OperandKind) (operand : BitVec 3) :
    smallOperand core kind (operand.setWidth 32) = .ok (core.smallOperand kind operand) := by
  cases kind with
  | immediate => rfl
  | register =>
      rw [smallOperand, BitVec.toNat_setWidth_of_le (by decide)]
      exact readLow_eq core operand

theorem addSubtract_eq (kind : OperandKind) (subtract : Bool) (operand : BitVec 3)
    (source destination : LowRegister) :
    addSubtract core kind subtract (operand.setWidth 32) source.toNat destination.toNat =
      .ok (core.addSubtract kind subtract operand source destination) := by
  rw [addSubtract, readLow_eq, ok_bind, smallOperand_eq, ok_bind, Core.addSubtract]
  cases subtract with
  | true =>
      rw [if_pos rfl, sub_eq]
      exact writeFlagged_eq core destination _
  | false =>
      rw [if_neg Bool.false_ne_true, add_eq]
      exact writeFlagged_eq core destination _

theorem immediate_eq (op : ImmediateOp) (destination : LowRegister) (value : Byte) :
    immediate core op destination.toNat (value.setWidth 32) =
      .ok (core.immediate op destination value) := by
  rw [immediate, readLow_eq, ok_bind]
  cases op with
  | mov =>
      dsimp only
      rw [writeLow_eq]
      rfl
  | cmp =>
      dsimp only
      rw [sub_eq]
      rfl
  | add =>
      dsimp only
      rw [add_eq, ok_bind, writeFlagged_eq]
      rfl
  | sub =>
      dsimp only
      rw [sub_eq, ok_bind, writeFlagged_eq]
      rfl

theorem applyOp_eq (op : AluOp) (left right : Word) (flags : Flags) :
    applyOp op left right flags = .ok (op.apply left right flags) := by
  cases op <;> simp only [applyOp, shiftByRegister_eq, addWithCarry_eq, subWithCarry_eq, sub_eq,
    add_eq, multiply_eq, ok_bind] <;> rfl

theorem alu_eq (op : AluOp) (source destination : LowRegister) :
    alu core op source.toNat destination.toNat = .ok (core.alu op source destination) := by
  rw [alu, readLow_eq, ok_bind, readLow_eq, ok_bind, applyOp_eq, ok_bind, Core.alu]
  dsimp only
  split
  · rw [writeLow_eq]
  · rfl

theorem computedAddress_eq (base : AddressBase) (words : Byte) :
    computedAddress core base (words.setWidth 32) = .ok (core.computedAddress base words) := by
  rw [computedAddress, shiftUp_eq (by decide)]
  cases base with
  | pc =>
      rw [addressStart, readPc_eq]
      rfl
  | sp =>
      rw [addressStart, readSp_eq]
      rfl

theorem adjustStack_eq (negative : Bool) (words : BitVec 7) :
    adjustStack core negative (words.setWidth 32) = .ok (core.adjustStack negative words) := by
  rw [adjustStack, readSp_eq, ok_bind, shiftUp_eq (by decide), ok_bind, writeSp_eq]
  rfl

end Computing

end ThumbMachine.Checked
