/-
Module: ThumbMachine.Proofs.Packing
Purpose: The packed register file as the one view of a core: every operation on a core is an
  operation on the file it packs to, and unpacking what was packed loses nothing but bit 0 of the
  program counter.
Main exports: Flags.ofStatus_mergeInto, Flags.mergeInto_ofStatus, Core.get_toFile,
  Core.read_eq_toFile, Core.read_eq_get, Core.toFile_write, Core.toFile_setFlags, Core.toFile_setPc,
  Core.toFile_ofFile, odd
-/
import ThumbMachine.Core.Basic

namespace ThumbMachine

/-! ## The packed flags -/

namespace Flags

/-- Where each flag stands in the packed word; the bits below are clear. -/
theorem getLsbD_toStatus (flags : Flags) {position : Nat} (bound : position < 32) :
    flags.toStatus.getLsbD position =
      if position = 31 then flags.n else if position = 30 then flags.z
      else if position = 29 then flags.c else if position = 28 then flags.v
      else position == 27 && flags.q := by
  rw [toStatus]
  change @BitVec.getLsbD (1 + 1 + 1 + 1 + 1 + 27) _ position = _
  simp only [BitVec.getLsbD_append, BitVec.getLsbD_ofBool, BitVec.getLsbD_zero]
  have places : position < 27 ∨ position = 27 ∨ position = 28 ∨ position = 29 ∨ position = 30 ∨
      position = 31 := by omega
  rcases places with low | rfl | rfl | rfl | rfl | rfl
  · grind
  all_goals simp

theorem getLsbD_mask {position : Nat} (bound : position < 32) :
    mask.getLsbD position = decide (27 ≤ position) := by
  decide +revert

/-- Merging keeps bits 26 to 0 and takes the others from the flags. -/
theorem getLsbD_mergeInto (flags : Flags) (status : Word) {position : Nat}
    (bound : position < 32) :
    (flags.mergeInto status).getLsbD position =
      if position < 27 then status.getLsbD position else flags.toStatus.getLsbD position := by
  rw [mergeInto, BitVec.getLsbD_or, BitVec.getLsbD_and, BitVec.getLsbD_not, getLsbD_mask bound,
    getLsbD_toStatus flags bound]
  grind

@[simp] theorem ofStatus_mergeInto (flags : Flags) (status : Word) :
    ofStatus (flags.mergeInto status) = flags := by
  simp [ofStatus, -BitVec.getLsbD_eq_getElem, getLsbD_mergeInto, getLsbD_toStatus]

/-- Packing the flags of a status word into that word changes nothing. -/
@[simp] theorem mergeInto_ofStatus (status : Word) :
    (ofStatus status).mergeInto status = status := by
  apply BitVec.eq_of_getLsbD_eq
  intro position bound
  rw [getLsbD_mergeInto _ _ bound, getLsbD_toStatus _ bound]
  simp only [ofStatus]
  grind

@[simp] theorem mergeInto_mergeInto (flags other : Flags) (status : Word) :
    flags.mergeInto (other.mergeInto status) = flags.mergeInto status := by
  apply BitVec.eq_of_getLsbD_eq
  intro position bound
  simp only [getLsbD_mergeInto, bound]
  grind

end Flags

/-! ## Register files -/

namespace Register

theorem slot_ne_statusSlot (register : Register) : register.slot ≠ RegisterFile.statusSlot := by
  decide +revert

theorem slot_eq_pcSlot_iff (register : Register) :
    register.slot = RegisterFile.pcSlot ↔ register = pc := by
  decide +revert

/-- Each register has a slot of its own. -/
theorem slot_inj {register other : Register} : register.slot = other.slot ↔ register = other := by
  rw [slot, slot, Fin.mk.injEq, BitVec.toNat_inj]

end Register

namespace LowRegister

theorem wide_ne_pc (register : LowRegister) : register.wide ≠ Register.pc := by
  decide +revert

end LowRegister

namespace RegisterFile

theorem pcSlot_ne_statusSlot : pcSlot ≠ statusSlot := by decide

@[simp] theorem setPc_setPc (file : RegisterFile) (first second : Word) :
    (file.setPc first).setPc second = file.setPc second := by
  apply RegisterFile.ext
  intro slot
  simp only [setPc, get_set]
  grind

theorem setPc_pc (file : RegisterFile) : file.setPc file.pc = file := by
  apply RegisterFile.ext
  intro slot
  simp only [setPc, pc, get_set]
  grind

end RegisterFile

/-! ## Even addresses -/

/-- Bit 0 of an address. -/
def odd (address : Word) : Bool := address.getLsbD 0

@[simp] theorem odd_halfwordAligned (address : Word) :
    odd (halfwordAligned address) = false := by
  simp [odd, halfwordAligned]

/-- Clearing bit 0 of an even address changes nothing. -/
theorem halfwordAligned_eq_self {address : Word} (even : odd address = false) :
    halfwordAligned address = address := by
  apply BitVec.eq_of_getLsbD_eq
  intro position bound
  by_cases lowest : position = 0
  · subst lowest
    exact (odd_halfwordAligned address).trans even.symm
  · have one : (1#32).getLsbD position = false := by
      rw [BitVec.getLsbD_one]
      simp [lowest]
    rw [halfwordAligned, BitVec.getLsbD_and, BitVec.getLsbD_not, one]
    simp [bound]

/-- Bit 0 is cleared also where it was set just before. -/
theorem halfwordAligned_or_one (address : Word) :
    halfwordAligned (address ||| 1) = halfwordAligned address := by
  have cleared : ~~~1#32 &&& (1 : Word) = 0#32 := by decide
  rw [halfwordAligned, halfwordAligned, BitVec.and_comm, BitVec.and_or_distrib_left, cleared,
    BitVec.or_zero, BitVec.and_comm]

/-! ## Packing a core -/

namespace Core

/-- Each word of the packed file: the flags are merged into the status word and the program counter
takes the slot of R15. -/
theorem get_toFile (core : Core) (slot : Slot) :
    core.toFile.get slot =
      if slot = RegisterFile.statusSlot then core.flags.mergeInto core.registers.status
      else if slot = RegisterFile.pcSlot then core.pc
      else core.registers.get slot := by
  have apart := RegisterFile.pcSlot_ne_statusSlot
  simp only [toFile, RegisterFile.setFlags, RegisterFile.setStatus, RegisterFile.status,
    RegisterFile.setPc, RegisterFile.get_set]
  grind

@[simp] theorem pc_toFile (core : Core) : core.toFile.pc = core.pc := by
  rw [RegisterFile.pc, get_toFile]
  rfl

theorem status_toFile (core : Core) :
    core.toFile.status = core.flags.mergeInto core.registers.status := by
  rw [RegisterFile.status, get_toFile]
  rfl

@[simp] theorem flags_toFile (core : Core) : core.toFile.flags = core.flags := by
  rw [RegisterFile.flags, status_toFile, Flags.ofStatus_mergeInto]

/-- An operand read depends on the packed file alone. -/
theorem read_eq_toFile (core : Core) (register : Register) :
    core.read register =
      if register = Register.pc then core.toFile.pc + 4 else core.toFile.get register.slot := by
  rw [read, pc_toFile, get_toFile]
  have general := register.slot_ne_statusSlot
  have place := register.slot_eq_pcSlot_iff
  grind

/-- A general register reads as what its slot holds. -/
theorem read_eq_get (core : Core) {register : Register} (general : register ≠ Register.pc) :
    core.read register = core.registers.get register.slot :=
  if_neg general

/-- A written register reads as what was written, every other one as before. -/
theorem read_write (core : Core) {register : Register} (general : register ≠ Register.pc)
    (value : Word) (other : Register) :
    (core.write register value).read other =
      if other = register then value else core.read other := by
  simp only [read, write, RegisterFile.get_set, Register.slot_inj]
  grind

/-- A general register does not depend on the program counter. -/
theorem read_setPc (core : Core) (pc : Word) {register : Register}
    (general : register ≠ Register.pc) :
    (core.setPc pc).read register = core.read register := by
  rw [read_eq_get _ general, read_eq_get _ general, setPc_registers]

theorem toFile_write (core : Core) {register : Register} (general : register ≠ Register.pc)
    (value : Word) :
    (core.write register value).toFile = core.toFile.set register.slot value := by
  apply RegisterFile.ext
  intro slot
  have low := register.slot_ne_statusSlot
  have place := register.slot_eq_pcSlot_iff
  simp only [get_toFile, RegisterFile.get_set, write, RegisterFile.status]
  grind

theorem toFile_setFlags (core : Core) (flags : Flags) :
    (core.setFlags flags).toFile = core.toFile.setFlags flags := by
  apply RegisterFile.ext
  intro slot
  simp only [RegisterFile.setFlags, RegisterFile.setStatus, RegisterFile.get_set, status_toFile,
    get_toFile, Flags.mergeInto_mergeInto, setFlags_flags, setFlags_registers, setFlags_pc]
  grind

theorem toFile_setPc (core : Core) (pc : Word) :
    (core.setPc pc).toFile = core.toFile.setPc pc := by
  apply RegisterFile.ext
  intro slot
  have apart := RegisterFile.pcSlot_ne_statusSlot
  simp only [RegisterFile.setPc, RegisterFile.get_set, get_toFile, setPc_flags, setPc_registers,
    setPc_pc]
  grind

/-- A file that is unpacked and packed again loses bit 0 of its program counter and nothing else. -/
theorem toFile_ofFile (file : RegisterFile) :
    (ofFile file).toFile = file.setPc (halfwordAligned file.pc) := by
  apply RegisterFile.ext
  intro slot
  have merged : (ofFile file).flags.mergeInto (ofFile file).registers.status = file.status :=
    Flags.mergeInto_ofStatus file.status
  have apart := RegisterFile.pcSlot_ne_statusSlot
  rw [get_toFile, merged, RegisterFile.setPc, RegisterFile.get_set]
  simp only [ofFile, RegisterFile.status]
  grind

end Core

end ThumbMachine
