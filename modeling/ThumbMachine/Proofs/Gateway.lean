/-
Module: ThumbMachine.Proofs.Gateway
Purpose: What passes between a run and its host at an interrupt. The host is called once, finds the
  state of the core in its store, and the run goes on from, or ends with, what the host leaves
  there.
Main exports: Core.HeldBy, Core.heldBy_iff, Processor.EndsAt, Processor.interrupt_gateway
-/
import ThumbMachine.Proofs.Charging
import ThumbMachine.Proofs.Noting
import ThumbMachine.Proofs.Packing

namespace ThumbMachine

variable {σ : Type}

/-! ## The state in the store -/

/-- A register file holds the state of a core: R0 to R14 as the core reads them, the address of its
instruction in R15, its flags over the status bits that are no flags. -/
structure Core.HeldBy (core : Core) (file : RegisterFile) : Prop where
  general : ∀ register, register ≠ Register.pc → file.get register.slot = core.read register
  pc : file.pc = core.pc
  flags : file.flags = core.flags
  rest : ∀ position < 27, file.status.getLsbD position = core.registers.status.getLsbD position

theorem Flags.mergeInto_congr (flags : Flags) {left right : Word}
    (low : ∀ position < 27, left.getLsbD position = right.getLsbD position) :
    flags.mergeInto left = flags.mergeInto right := by
  apply BitVec.eq_of_getLsbD_eq
  intro position bound
  rw [getLsbD_mergeInto _ _ bound, getLsbD_mergeInto _ _ bound]
  split
  · exact low position ‹_›
  · rfl

/-- The slots of the register file are those of the registers and that of the status word. -/
theorem Register.exists_slot {slot : Slot} (notStatus : slot ≠ RegisterFile.statusSlot) :
    ∃ register : Register, register.slot = slot :=
  ⟨BitVec.ofNat 4 slot, by decide +revert⟩

namespace Core

/-- Of all register files, the one that a core packs to holds its state. -/
theorem heldBy_iff {core : Core} {file : RegisterFile} : core.HeldBy file ↔ file = core.toFile := by
  constructor
  · intro held
    apply RegisterFile.ext
    intro slot
    rw [get_toFile]
    split
    · rename_i isStatus
      -- The flags fix the five top bits of the status word, the other field the rest.
      rw [isStatus, ← Flags.mergeInto_congr core.flags held.rest, ← held.flags]
      exact (Flags.mergeInto_ofStatus file.status).symm
    · rename_i notStatus
      obtain ⟨register, rfl⟩ := Register.exists_slot notStatus
      split
      · rename_i isPc
        rw [isPc]
        exact held.pc
      · rename_i notPc
        have general := fun same => notPc (register.slot_eq_pcSlot_iff.2 same)
        rw [held.general register general, core.read_eq_get general]
  · rintro rfl
    refine ⟨?_, core.pc_toFile, core.flags_toFile, ?_⟩
    · intro register general
      rw [read_eq_toFile, if_neg general]
    · intro position low
      rw [status_toFile, Flags.getLsbD_mergeInto _ _ (by omega), if_pos low]

end Core

/-! ## The turn of an interrupt -/

namespace Batch

theorem handed_heldBy (batch : Batch σ) : batch.core.HeldBy batch.handed.registers :=
  Core.heldBy_iff.2 rfl

/-- A batch goes on from the registers that the host leaves, but for bit 0 of R15. -/
theorem resume_heldBy (batch : Batch σ) (left : Host σ) :
    (batch.resume left).core.HeldBy
      (left.registers.setPc (halfwordAligned left.registers.pc)) :=
  Core.heldBy_iff.2 (Core.toFile_ofFile left.registers).symm

theorem toFile_resume (batch : Batch σ) (left : Host σ) :
    (batch.resume left).core.toFile =
      left.registers.setPc (halfwordAligned left.registers.pc) :=
  Core.toFile_ofFile left.registers

theorem toFile_resume_skip (batch : Batch σ) (left : Host σ) :
    (batch.resume left).skip.core.toFile =
      left.registers.setPc (halfwordAligned left.registers.pc + 2) := by
  rw [skip, Core.toFile_setPc, toFile_resume, RegisterFile.setPc_setPc]
  rfl

end Batch

namespace Taken.Faithful

variable {taken : Taken σ} {image : CodeImage} {handler : Handler σ} {code : Byte}

/-- The turn of an interrupt is settled by the answer of the host to what it is handed. -/
theorem turn_of_interrupt (faithful : taken.Faithful image handler)
    (interrupt : taken.instruction? = some (.softwareInterrupt code)) :
    ∃ word, taken.turn =
      match handler code taken.start.handed with
      | (host, none) => .running ((taken.start.fetch word).resume host)
      | (host, some .stop) => .interrupted .stop ((taken.start.fetch word).resume host).skip
      | (host, some halt) => .interrupted halt ((taken.start.fetch word).resume host) := by
  obtain ⟨word, fetched, decoded⟩ := faithful.decoded_of_instruction? interrupt
  refine ⟨word, ?_⟩
  rw [faithful.turn, Batch.turn, fetched]
  change (taken.start.fetch word).dispatch handler word = _
  rw [Batch.dispatch, decoded]
  exact Batch.interrupt_eq (taken.start.fetch word) handler code

end Taken.Faithful

/-! ## The gateway -/

namespace Processor

open Taken

/-- A run ends with an interrupt: the caller is told the answer, all that the host owns is as the
host left it but for the word in R15, and the interrupt counts once. -/
structure EndsAt (processor : Processor σ) (handler : Handler σ) (count : Nat) (taken : Taken σ)
    (answer : Option Halt) (left : Host σ) (pc : Word) : Prop where
  told : (processor.run handler count).2.halt? = answer
  host : (processor.run handler count).1.host =
    { left with registers := left.registers.setPc pc }
  executed : (processor.run handler count).1.executed =
    processor.executed + taken.start.retired + 1

/-- The next turn, if there is one, fetches from the address that the host left, and works on what
the host left. -/
structure GoesOnFrom (image : CodeImage) (taken : Taken σ) (left : Host σ)
    (following : Taken σ) : Prop where
  start : following.start = taken.finish
  fetched : following.fetched = image.fetch (halfwordAligned left.registers.pc)
  core : following.start.core.HeldBy
    (left.registers.setPc (halfwordAligned left.registers.pc))
  memory : following.start.host.memory = left.memory
  state : following.start.host.state = left.state

variable {processor : Processor σ} {handler : Handler σ} {count : Nat}

theorem endsAt_of_last {earlier : List (Taken σ)} {taken : Taken σ} {left : Host σ} {pc : Word}
    (shape : processor.turns handler count = earlier ++ [taken])
    (file : taken.finish.core.toFile = left.registers.setPc pc) (host : taken.finish.host = left)
    (counted : taken.finish.retired = taken.start.retired + 1) :
    EndsAt processor handler count taken taken.turn.ending.halt? left pc := by
  obtain ⟨image, run⟩ := run_eq_of_turns shape
  constructor
  · rw [run]
  · rw [run, absorb, file, host]
  · rw [run, absorb, counted, Nat.add_assoc]

/-- A host that notes its calls has one note for each interrupt of the run. -/
theorem noted_of_interrupt {earlier later : List (Taken σ)} {taken : Taken σ} {code : Byte}
    (shape : processor.turns handler count = earlier ++ taken :: later)
    (interrupt : taken.instruction? = some (.softwareInterrupt code)) :
    ((processor.noting []).run handler.noting count).1.host.state.2 =
      earlier.filterMap call? ++ (code, taken.start.handed) :: later.filterMap call? := by
  have call : taken.call? = some (code, taken.start.handed) := by rw [call?, interrupt]
  rw [run_noting]
  change [] ++ processor.calls handler count = _
  rw [List.nil_append, calls, shape, List.filterMap_append, List.filterMap_cons, call]

/-- Once the host has answered that the run goes on, it goes on from what the host left, or ends
there for want of budget. -/
theorem after_resume {earlier later : List (Taken σ)} {taken : Taken σ} {start : Batch σ}
    {left : Host σ} (shape : processor.turns handler count = earlier ++ taken :: later)
    (resumed : taken.turn = .running (start.resume left))
    (counted : taken.finish.retired = taken.start.retired + 1) :
    (taken.finish.budget = 0 → later = [] ∧
      EndsAt processor handler count taken none left (halfwordAligned left.registers.pc)) ∧
    (taken.finish.budget ≠ 0 → ∃ image following rest,
      processor.imageAt (processor.batch count).core.pc = .ok image ∧
        later = following :: rest ∧ GoesOnFrom image taken left following) := by
  obtain ⟨image, found, split, _⟩ := turns_split shape
  have finish : taken.finish = start.resume left := by rw [Taken.finish, resumed, Turn.batch]
  have following := Batch.later_of_running split resumed
  rw [← finish] at following
  constructor
  · intro spent
    rw [Batch.turns_spent spent] at following
    subst following
    have ends := endsAt_of_last shape (by rw [finish, Batch.toFile_resume])
      (by rw [finish, Batch.resume]) counted
    rw [resumed] at ends
    exact ⟨rfl, ends⟩
  · intro funded
    cases later with
    | nil => exact absurd (Batch.turns_eq_nil_iff.1 following.symm) funded
    | cons next rest =>
        obtain ⟨same, faithful, _⟩ := Batch.turns_cons following.symm
        refine ⟨image, next, rest, found, rfl, same, ?_, ?_, ?_, ?_⟩
        · rw [faithful.fetched, same, finish]
          rfl
        · rw [same, finish]
          exact Batch.resume_heldBy start left
        · rw [same, finish]
          rfl
        · rw [same, finish]
          rfl

/-- An interrupt at any place in a run. It comes on what the turn before it left. The host is called
for it once, finds the state of the core in its store, and the memory and its own state as they are;
the interrupt costs one unit. If the host lets the run go on, the next turn, where the budget allows
one, works on what the host left. Otherwise the run ends with that answer and with what the host
left, but for bit 0 of R15; a host that stops the run leaves R15 one instruction further. -/
theorem interrupt_gateway (processor : Processor σ) (handler : Handler σ) (count : Nat)
    {earlier later : List (Taken σ)} {taken : Taken σ} {code : Byte}
    (shape : processor.turns handler count = earlier ++ taken :: later)
    (interrupt : taken.instruction? = some (.softwareInterrupt code)) :
    (earlier = [] → taken.start = processor.batch count) ∧
      (∀ previous ∈ earlier.getLast?, previous.turn = .running taken.start) ∧
      ((processor.noting []).run handler.noting count).1.host.state.2 =
        earlier.filterMap call? ++ (code, taken.start.handed) :: later.filterMap call? ∧
      taken.start.core.HeldBy taken.start.handed.registers ∧
      taken.start.handed.memory = taken.start.host.memory ∧
      taken.start.handed.state = taken.start.host.state ∧
      taken.CostsOne ∧
      (∀ left, handler code taken.start.handed = (left, none) →
        (taken.finish.budget = 0 → later = [] ∧
          EndsAt processor handler count taken none left (halfwordAligned left.registers.pc)) ∧
        (taken.finish.budget ≠ 0 → ∃ image following rest,
          processor.imageAt (processor.batch count).core.pc = .ok image ∧
            later = following :: rest ∧ GoesOnFrom image taken left following)) ∧
      (∀ left, handler code taken.start.handed = (left, some .stop) →
        later = [] ∧ EndsAt processor handler count taken (some .stop) left
          (halfwordAligned left.registers.pc + 2)) ∧
      (∀ left halt, halt ≠ .stop → handler code taken.start.handed = (left, some halt) →
        later = [] ∧ EndsAt processor handler count taken (some halt) left
          (halfwordAligned left.registers.pc)) := by
  obtain ⟨image, _, split, _⟩ := turns_split shape
  have faithful := Batch.faithful_of_turns split
  have isInterrupt : taken.isInterrupt := by rw [Taken.isInterrupt, interrupt]
  have costs := (faithful.costsOne_of_interrupt isInterrupt).1
  obtain ⟨first, further⟩ := start_of_turns shape
  obtain ⟨word, turn⟩ := faithful.turn_of_interrupt interrupt
  refine ⟨first, further, noted_of_interrupt shape interrupt, Batch.handed_heldBy _, rfl, rfl,
    costs, ?_, ?_, ?_⟩
  · intro left answered
    rw [answered] at turn
    exact after_resume shape turn costs.2
  · intro left answered
    rw [answered] at turn
    have last := Batch.later_of_ended split (by rw [turn, Turn.goesOn])
    subst last
    have ends := endsAt_of_last shape
      (by rw [finish, turn, Turn.batch, Batch.toFile_resume_skip])
      (by rw [finish, turn, Turn.batch, Batch.skip, Batch.resume]) costs.2
    rw [turn] at ends
    exact ⟨rfl, ends⟩
  · intro left halt other answered
    rw [answered] at turn
    have halted : taken.turn = .interrupted halt ((taken.start.fetch word).resume left) := by
      rw [turn]
      cases halt with
      | stop => exact absurd rfl other
      | pause => rfl
      | fault => rfl
    have last := Batch.later_of_ended split (by rw [halted, Turn.goesOn])
    subst last
    have ends := endsAt_of_last shape
      (by rw [finish, halted, Turn.batch, Batch.toFile_resume])
      (by rw [finish, halted, Turn.batch, Batch.resume]) costs.2
    rw [halted] at ends
    exact ⟨rfl, ends⟩

/-- A program that calls the host between two computations. -/
def callingHost : Processor Unit := ofWords [0x2005, 0xDF07, 0x3001]

theorem interrupt_gateway_callingHost :
    ∃ earlier taken later,
      callingHost.turns (.resumeAt 4) 3 = earlier ++ taken :: later ∧
        taken.instruction? = some (.softwareInterrupt 7) ∧ taken.CostsOne ∧
        ∃ image following rest, later = following :: rest ∧
          GoesOnFrom image taken ((Handler.resumeAt 4) 7 taken.start.handed).1 following := by
  have bound : 1 < (callingHost.turns (.resumeAt 4) 3).length := by decide +kernel
  have interrupt : (callingHost.turns (.resumeAt 4) 3)[1].instruction? =
      some (.softwareInterrupt 7) := by decide +kernel +revert
  have funded : (callingHost.turns (.resumeAt 4) 3)[1].finish.budget ≠ 0 := by
    decide +kernel +revert
  obtain ⟨_, _, _, _, _, _, costs, resumed, _⟩ :=
    interrupt_gateway callingHost (.resumeAt 4) 3 (turns_at bound) interrupt
  obtain ⟨image, following, rest, _, later, goesOn⟩ := (resumed _ rfl).2 funded
  exact ⟨_, _, _, turns_at bound, interrupt, costs, image, following, rest, later, goesOn⟩

end Processor

end ThumbMachine
