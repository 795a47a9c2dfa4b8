/-
Module: ThumbMachine.Core.Basic
Purpose: The processor core while a batch runs. The program counter and the flags are unpacked;
  their places in the register file are stale until the core is packed again.
Main exports: Core, Core.ofFile, Core.toFile, Core.read, Core.write
-/
import ThumbMachine.RegisterFile

namespace ThumbMachine

/-- An address with bit 0 cleared. -/
def halfwordAligned (address : Word) : Word := address &&& ~~~1#32

/-- An address with bits 1 and 0 cleared. -/
def wordAligned (address : Word) : Word := address &&& ~~~3#32

/-- The working state of a batch. -/
structure Core where
  /-- R0 to R14, and the status bits that are no flags. The slot of R15 and the flag bits of the
  status word are stale. -/
  registers : RegisterFile
  flags : Flags
  /-- The address of the instruction being executed. -/
  pc : Word
deriving DecidableEq, Repr, Inhabited

namespace Core

/-- Unpacks a register file. Bit 0 of the stored program counter is dropped. -/
def ofFile (file : RegisterFile) : Core :=
  { registers := file, flags := file.flags, pc := halfwordAligned file.pc }

/-- Packs the program counter and the flags into the register file. -/
def toFile (core : Core) : RegisterFile := (core.registers.setPc core.pc).setFlags core.flags

/-- A register as an operand: R15 reads as the address of the instruction plus 4. -/
def read (core : Core) (register : Register) : Word :=
  if register = Register.pc then core.pc + 4 else core.registers.get register.slot

/-- Writes a general register. Instructions that change R15 set the program counter instead. -/
def write (core : Core) (register : Register) (value : Word) : Core :=
  { core with registers := core.registers.set register.slot value }

/-- The address after the current instruction. -/
def nextPc (core : Core) : Word := core.pc + 2

/-- Replaces the flags. -/
def setFlags (core : Core) (flags : Flags) : Core := { core with flags }

/-- Replaces the program counter. -/
def setPc (core : Core) (pc : Word) : Core := { core with pc }

@[simp] theorem write_pc (core : Core) (register : Register) (value : Word) :
    (core.write register value).pc = core.pc := rfl

@[simp] theorem write_flags (core : Core) (register : Register) (value : Word) :
    (core.write register value).flags = core.flags := rfl

@[simp] theorem setFlags_pc (core : Core) (flags : Flags) : (core.setFlags flags).pc = core.pc :=
  rfl

@[simp] theorem setFlags_flags (core : Core) (flags : Flags) :
    (core.setFlags flags).flags = flags := rfl

@[simp] theorem setFlags_registers (core : Core) (flags : Flags) :
    (core.setFlags flags).registers = core.registers := rfl

@[simp] theorem setPc_pc (core : Core) (pc : Word) : (core.setPc pc).pc = pc := rfl

@[simp] theorem setPc_flags (core : Core) (pc : Word) : (core.setPc pc).flags = core.flags := rfl

@[simp] theorem setPc_registers (core : Core) (pc : Word) :
    (core.setPc pc).registers = core.registers := rfl

end Core

end ThumbMachine
