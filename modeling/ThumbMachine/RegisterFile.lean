/-
Module: ThumbMachine.RegisterFile
Purpose: The seventeen words of architectural state that a host and a batch hand to each other:
  R0 to R15 and the packed status word.
Main exports: Register, LowRegister, Slot, RegisterFile, RegisterFile.slot?
-/
import ThumbMachine.Flags
import ThumbMachine.Text.Hex

namespace ThumbMachine

/-- R0 to R15, as the 4-bit register fields name them. -/
abbrev Register := BitVec 4

/-- R0 to R7, as the 3-bit register fields name them. -/
abbrev LowRegister := BitVec 3

namespace Register

/-- The stack pointer, R13. -/
def sp : Register := 13#4

/-- The link register, R14. -/
def lr : Register := 14#4

/-- The program counter, R15. -/
def pc : Register := 15#4

end Register

namespace LowRegister

/-- A low register among all sixteen. -/
def wide (register : LowRegister) : Register := register.setWidth 4

end LowRegister

/-- A place in the register file: 0 to 15 for R0 to R15, 16 for the status word. -/
abbrev Slot := Fin 17

namespace Register

/-- The place of a register. -/
def slot (register : Register) : Slot := ⟨register.toNat, by have := register.isLt; omega⟩

end Register

/-- R0 to R15 followed by the status word. -/
structure RegisterFile where
  words : Vector Word 17
deriving DecidableEq, Repr

namespace RegisterFile

/-- Every word zero. -/
def zero : RegisterFile := ⟨Vector.replicate 17 0⟩

instance : Inhabited RegisterFile := ⟨zero⟩

/-- The word in a slot. -/
def get (file : RegisterFile) (slot : Slot) : Word := file.words[slot]

/-- Replaces the word in a slot. -/
def set (file : RegisterFile) (slot : Slot) (value : Word) : RegisterFile :=
  ⟨file.words.set slot value⟩

theorem get_set (file : RegisterFile) (slot other : Slot) (value : Word) :
    (file.set slot value).get other = if slot = other then value else file.get other := by
  simp [get, set, Vector.getElem_set, Fin.ext_iff]

/-- Two files with the same word in every slot are the same file. -/
theorem ext {left right : RegisterFile} (same : ∀ slot, left.get slot = right.get slot) :
    left = right := by
  obtain ⟨left⟩ := left
  obtain ⟨right⟩ := right
  refine congrArg _ (Vector.ext fun index bound => ?_)
  exact same ⟨index, bound⟩

/-- The slot of R15. -/
def pcSlot : Slot := 15

/-- The slot of the status word. -/
def statusSlot : Slot := 16

/-- The stored program counter. -/
def pc (file : RegisterFile) : Word := file.get pcSlot

/-- Replaces the stored program counter. -/
def setPc (file : RegisterFile) (value : Word) : RegisterFile := file.set pcSlot value

/-- The packed status word. -/
def status (file : RegisterFile) : Word := file.get statusSlot

/-- Replaces the packed status word. -/
def setStatus (file : RegisterFile) (value : Word) : RegisterFile := file.set statusSlot value

/-- The flags of the status word. -/
def flags (file : RegisterFile) : Flags := Flags.ofStatus file.status

/-- Replaces the five flags of the status word and none of its other bits. -/
def setFlags (file : RegisterFile) (flags : Flags) : RegisterFile :=
  file.setStatus (flags.mergeInto file.status)

/-- The seventeen words in order. -/
def toList (file : RegisterFile) : List Word := file.words.toList

/-- A file from its seventeen words. -/
def ofList? (values : List Word) : Option RegisterFile :=
  if exact : values.toArray.size = 17 then some ⟨⟨values.toArray, exact⟩⟩ else none

/-- A register number that names no slot. -/
structure InvalidIndex where
  index : Nat
deriving DecidableEq, Repr

/-- The wording of a refused register number. -/
def InvalidIndex.message (refused : InvalidIndex) : String :=
  "Invalid register index: " ++ toString refused.index ++ " (0x" ++ Hex.plain refused.index ++ ")"

/-- The slot that a number names: 0 to 16 and no other. -/
def slot? (index : Nat) : Except InvalidIndex Slot :=
  if bound : index < 17 then .ok ⟨index, bound⟩ else .error ⟨index⟩

end RegisterFile

end ThumbMachine
