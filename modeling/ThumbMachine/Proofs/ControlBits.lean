/-
Module: ThumbMachine.Proofs.ControlBits
Purpose: The guest cannot touch the control bits of the status word, bits 27 to 0. Instructions
  write general registers and the four condition flags; Q and the rest of the status word ride
  along. So the register store holds at every flush the control bits that the host left there last,
  and the condition flags of the working core.
Main exports: controlBits, Core.Changes.packed, Taken.leftRegisters, Processor.ControlHeld,
  Processor.control_held
-/
import ThumbMachine.Host.Script
import ThumbMachine.Proofs.Effects
import ThumbMachine.Proofs.Sessions

namespace ThumbMachine

variable {σ : Type}

/-! ## The status word in two parts -/

/-- Bits 27 to 0 of a status word: Q and everything below it. -/
def controlBits (status : Word) : BitVec 28 := status.setWidth 28

/-- Bits 31 to 28 of a status word show N, Z, C and V. -/
structure Flags.ShownBy (flags : Flags) (status : Word) : Prop where
  n : status.getLsbD 31 = flags.n
  z : status.getLsbD 30 = flags.z
  c : status.getLsbD 29 = flags.c
  v : status.getLsbD 28 = flags.v

theorem controlBits_eq_iff {left right : Word} :
    controlBits left = controlBits right ↔
      ∀ position < 28, left.getLsbD position = right.getLsbD position := by
  constructor
  · intro same position low
    have bit := congrArg (·.getLsbD position) same
    simpa only [controlBits, BitVec.getLsbD_setWidth, low, decide_true, Bool.true_and] using bit
  · intro same
    apply BitVec.eq_of_getLsbD_eq
    intro position low
    rw [controlBits, controlBits, BitVec.getLsbD_setWidth, BitVec.getLsbD_setWidth,
      same position low]

/-- The control bits of a merged status word: Q from the flags, the others from the word. -/
theorem controlBits_mergeInto {flags other : Flags} (status : Word) (q : flags.q = other.q) :
    controlBits (flags.mergeInto status) = controlBits (other.mergeInto status) := by
  rw [controlBits_eq_iff]
  intro position low
  rw [Flags.getLsbD_mergeInto _ _ (by omega), Flags.getLsbD_mergeInto _ _ (by omega),
    Flags.getLsbD_toStatus _ (by omega), Flags.getLsbD_toStatus _ (by omega), q]
  grind

theorem Flags.shownBy_mergeInto (flags : Flags) (status : Word) :
    flags.ShownBy (flags.mergeInto status) := by
  constructor <;>
    rw [getLsbD_mergeInto _ _ (by decide), getLsbD_toStatus _ (by decide)] <;> rfl

/-- Packed, a core has the same control bits after an instruction. -/
theorem Core.Changes.packed {core next : Core} (changes : core.Changes next) :
    controlBits next.toFile.status = controlBits core.toFile.status := by
  rw [status_toFile, status_toFile, changes.status]
  exact controlBits_mergeInto core.registers.status changes.q

/-! ## What a turn does to the register store -/

namespace Taken

/-- The registers that the host left in the store when it was called last among some turns; the ones
given, if it was not called. -/
def leftRegisters (given : RegisterFile) (turns : List (Taken σ)) : RegisterFile :=
  ((turns.filter isInterrupt).getLast?.map (·.finish.host.registers)).getD given

theorem leftRegisters_append (given : RegisterFile) (turns further : List (Taken σ)) :
    leftRegisters given (turns ++ further) = leftRegisters (leftRegisters given turns) further := by
  rw [leftRegisters, leftRegisters, leftRegisters, List.filter_append, List.getLast?_append]
  cases (further.filter isInterrupt).getLast? <;> rfl

theorem leftRegisters_of_interrupt {taken : Taken σ} (interrupt : taken.isInterrupt)
    (given : RegisterFile) : leftRegisters given [taken] = taken.finish.host.registers := by
  rw [leftRegisters, List.filter_cons_of_pos interrupt]
  rfl

theorem leftRegisters_of_ordinary {turns : List (Taken σ)}
    (ordinary : ∀ taken ∈ turns, taken.isInterrupt = false) (given : RegisterFile) :
    leftRegisters given turns = given := by
  have none_ : turns.filter isInterrupt = [] :=
    List.filter_eq_nil_iff.2 fun taken member => by simp [ordinary taken member]
  rw [leftRegisters, none_]
  rfl

namespace Faithful

variable {taken : Taken σ} {image : CodeImage} {handler : Handler σ}

/-- After a call of the host, the core has the control bits that the host left in the store. -/
theorem control_of_interrupt (faithful : taken.Faithful image handler)
    (interrupt : taken.isInterrupt) :
    controlBits taken.finish.core.toFile.status =
      controlBits taken.finish.host.registers.status := by
  have resumed (batch : Batch σ) (left : Host σ) :
      controlBits (batch.resume left).core.toFile.status = controlBits left.registers.status := by
    rw [Batch.toFile_resume, RegisterFile.status, RegisterFile.setPc, RegisterFile.get_set]
    rfl
  obtain ⟨code, executed⟩ := exists_of_isInterrupt interrupt
  obtain ⟨word, turn⟩ := faithful.turn_of_interrupt executed
  rw [finish, turn]
  rcases handler code taken.start.handed with ⟨left, _ | halt⟩
  · exact resumed _ left
  · cases halt with
    | stop => exact (Core.Changes.setPc .same _).packed.trans (resumed _ left)
    | pause => exact resumed _ left
    | fault cause => exact resumed _ left

/-- After a turn, the core has the control bits that the host left in the store last. -/
theorem control (faithful : taken.Faithful image handler) {held : RegisterFile}
    (holds : controlBits taken.start.core.toFile.status = controlBits held.status) :
    controlBits taken.finish.core.toFile.status =
      controlBits (leftRegisters held [taken]).status := by
  cases interrupt : taken.isInterrupt with
  | true =>
      rw [leftRegisters_of_interrupt interrupt]
      exact faithful.control_of_interrupt interrupt
  | false =>
      rw [leftRegisters_of_ordinary (by simpa using interrupt)]
      exact (faithful.effect_of_ordinary interrupt).core.packed.trans holds

end Faithful

end Taken

/-! ## The control bits over a session -/

/-- A move that leaves the register store to the processor and the hosts it calls. -/
def Move.SparesRegisters : Move σ → Prop
  | .run _ _ | .setMemory _ | .setState _ => True
  | .setRegisters _ => False

namespace Processor

open Taken

/-- The control bits of the register store are those the host has left there last, now and whatever
is run next. When the host is called, and when the run ends, the store has them as the host left
them before, and shows the condition flags of the core; a call leaves what the host makes of the
store, other turns do not touch it. So a run that calls nobody keeps the control bits. -/
structure ControlHeld (processor : Processor σ) (left : RegisterFile) : Prop where
  stored : controlBits processor.host.registers.status = controlBits left.status
  called : ∀ (handler : Handler σ) (count : Nat) (earlier later : List (Taken σ)) (taken : Taken σ),
    processor.turns handler count = earlier ++ taken :: later → taken.isInterrupt →
      controlBits taken.start.handed.registers.status =
          controlBits (leftRegisters left earlier).status ∧
        taken.start.core.flags.ShownBy taken.start.handed.registers.status ∧
        ∃ code, taken.finish.host = (handler code taken.start.handed).1
  untouched : ∀ (handler : Handler σ) (count : Nat) (earlier later : List (Taken σ))
    (taken : Taken σ),
    processor.turns handler count = earlier ++ taken :: later → taken.isInterrupt = false →
      taken.finish.host.registers = taken.start.host.registers
  ended : ∀ (handler : Handler σ) (count : Nat),
    controlBits (processor.run handler count).1.host.registers.status =
        controlBits (leftRegisters left (processor.turns handler count)).status ∧
      (processor.last handler count).core.flags.ShownBy
        (processor.run handler count).1.host.registers.status
  uncalled : ∀ (handler : Handler σ) (count : Nat), processor.calls handler count = [] →
    controlBits (processor.run handler count).1.host.registers.status =
      controlBits processor.host.registers.status

variable {processor : Processor σ} {handler : Handler σ} {count : Nat} {left : RegisterFile}

/-- A batch starts with the control bits of the store. -/
theorem control_batch (processor : Processor σ) (count : Nat) :
    controlBits (processor.batch count).core.toFile.status =
      controlBits processor.host.registers.status := by
  rw [batch, Core.toFile_ofFile, RegisterFile.status, RegisterFile.setPc, RegisterFile.get_set]
  rfl

theorem start_control
    (stored : controlBits processor.host.registers.status = controlBits left.status)
    {earlier later : List (Taken σ)} {taken : Taken σ}
    (shape : processor.turns handler count = earlier ++ taken :: later) :
    controlBits taken.start.core.toFile.status =
      controlBits (leftRegisters left earlier).status := by
  apply start_induction (motive := fun before batch =>
    controlBits batch.core.toFile.status = controlBits (leftRegisters left before).status) _ _ shape
  · exact (control_batch processor count).trans stored
  · intro image before previous faithful holds
    rw [leftRegisters_append]
    exact faithful.control holds

/-- A run leaves in the store the control bits that the host left there last. -/
theorem run_control (stored : controlBits processor.host.registers.status = controlBits left.status)
    (handler : Handler σ) (count : Nat) :
    controlBits (processor.run handler count).1.host.registers.status =
      controlBits (leftRegisters left (processor.turns handler count)).status := by
  obtain ⟨image, run⟩ := processor.run_eq_absorb_last handler count
  rw [run]
  change controlBits (processor.last handler count).core.toFile.status = _
  apply last_induction (motive := fun before batch =>
    controlBits batch.core.toFile.status = controlBits (leftRegisters left before).status)
  · exact (control_batch processor count).trans stored
  · intro image before previous faithful holds
    rw [leftRegisters_append]
    exact faithful.control holds

theorem ordinary_of_uncalled (uncalled : processor.calls handler count = []) :
    ∀ taken ∈ processor.turns handler count, taken.isInterrupt = false := by
  intro taken member
  have none_ := List.filterMap_eq_nil_iff.1 uncalled taken member
  rw [call?] at none_
  rw [isInterrupt]
  split at none_
  · cases none_
  · rfl

theorem controlHeld_of_stored
    (stored : controlBits processor.host.registers.status = controlBits left.status) :
    processor.ControlHeld left where
  stored := stored
  called := by
    intro handler count earlier later taken shape interrupt
    obtain ⟨image, _, split, _⟩ := turns_split shape
    have faithful := Batch.faithful_of_turns split
    refine ⟨start_control stored shape, ?_, faithful.host_of_interrupt interrupt⟩
    rw [Batch.handed, Core.status_toFile]
    exact Flags.shownBy_mergeInto _ _
  untouched := by
    intro handler count earlier later taken shape ordinary
    obtain ⟨image, _, split, _⟩ := turns_split shape
    exact ((Batch.faithful_of_turns split).effect_of_ordinary ordinary).registers
  ended := by
    intro handler count
    refine ⟨run_control stored handler count, ?_⟩
    obtain ⟨image, run⟩ := processor.run_eq_absorb_last handler count
    rw [run, absorb, Core.status_toFile]
    exact Flags.shownBy_mergeInto _ _
  uncalled := by
    intro handler count uncalled
    rw [run_control rfl, leftRegisters_of_ordinary (ordinary_of_uncalled uncalled)]

/-- Over any session in which only the processor and the hosts it calls write to the register store,
the control bits there are those that a host left last, or the first ones. -/
theorem control_held (processor : Processor σ) (moves : List (Move σ))
    (spares : ∀ move ∈ moves, move.SparesRegisters) :
    (processor.after moves).ControlHeld
      (leftRegisters processor.host.registers (processor.record moves)) := by
  apply controlHeld_of_stored
  apply after_induction (motive := fun record reached =>
    controlBits reached.host.registers.status =
      controlBits (leftRegisters processor.host.registers record).status)
  · rfl
  · intro record reached move member holds
    rw [leftRegisters_append]
    cases move with
    | run handler count => exact run_control holds handler count
    | setMemory memory => exact holds
    | setState state => exact holds
    | setRegisters registers => exact (spares _ member).elim

/-- A guest that subtracts and calls a host, which leaves other control bits and goes on; the next
instruction adds. -/
def modeSwitch : Processor ScriptedHost :=
  create
    { registers := RegisterFile.zero.setStatus 0x0800003F
      memory := (ofWords [0x3805, 0xDF07, 0x3001]).host.memory
      state := .create
        [(7, ⟨[.set RegisterFile.statusSlot 0x6000001F, .add RegisterFile.pcSlot 2], []⟩)] }

theorem control_held_modeSwitch :
    (∀ move ∈ [Move.run ScriptedHost.handler 2], move.SparesRegisters) ∧
      controlBits (modeSwitch.after [.run ScriptedHost.handler 2]).host.registers.status = 0x1F ∧
      (modeSwitch.after [.run ScriptedHost.handler 2]).ControlHeld
        (leftRegisters modeSwitch.host.registers
          (modeSwitch.record [.run ScriptedHost.handler 2])) := by
  have spares : ∀ move ∈ [Move.run ScriptedHost.handler 2], move.SparesRegisters := by
    simp [Move.SparesRegisters]
  have switched :
      controlBits (modeSwitch.after [.run ScriptedHost.handler 2]).host.registers.status =
        0x1F := by
    decide +kernel
  exact ⟨spares, switched, control_held modeSwitch _ spares⟩

end Processor

end ThumbMachine
