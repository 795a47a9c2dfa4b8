/-
Module: ThumbMachine.Proofs.Slicing
Purpose: A batch may be cut in two without anyone noticing: the host, its handler, the counters and
  the history come out the same, provided the first part ends on its budget, not on an interrupt,
  and with an even program counter.
Main exports: Batch.Alike, Batch.Alike.turn, Batch.Alike.run, Processor.run_append
-/
import ThumbMachine.Proofs.Runs
import ThumbMachine.Proofs.StaleSlots

namespace ThumbMachine

variable {σ : Type}

/-- Two batches that differ in their stale slots, in the store that the host was last handed, and in
their accounts: the right one has `extra` more units to spend and was charged `paid` more. -/
structure Batch.Alike (paid extra : Nat) (left right : Batch σ) : Prop where
  core : left.core.Alike right.core
  memory : left.host.memory = right.host.memory
  state : left.host.state = right.host.state
  history : left.history = right.history
  refunded : left.refunded = right.refunded
  budget : right.budget = left.budget + extra
  retired : right.retired = left.retired + paid

/-- Turns that came to the same, on alike batches. -/
inductive Turn.Alike (paid extra : Nat) : Turn σ → Turn σ → Prop where
  | running {left right : Batch σ} (alike : Batch.Alike paid extra left right) :
      Alike paid extra (.running left) (.running right)
  | interrupted {left right : Batch σ} (halt : Halt) (alike : Batch.Alike paid extra left right) :
      Alike paid extra (.interrupted halt left) (.interrupted halt right)
  | faulted {left right : Batch σ} (cause : Fault) (alike : Batch.Alike paid extra left right) :
      Alike paid extra (.faulted cause left) (.faulted cause right)

namespace Turn.Alike

variable {paid extra : Nat} {left right : Turn σ}

theorem batch (alike : Turn.Alike paid extra left right) :
    Batch.Alike paid extra left.batch right.batch := by
  cases alike <;> assumption

theorem ending (alike : Turn.Alike paid extra left right) : left.ending = right.ending := by
  cases alike <;> rfl

theorem goesOn (alike : Turn.Alike paid extra left right) : left.goesOn = right.goesOn := by
  cases alike <;> rfl

theorem of_running (alike : Turn.Alike paid extra left right) {next : Batch σ}
    (running : left = .running next) :
    ∃ other, right = .running other ∧ Batch.Alike paid extra next other := by
  subst running
  cases alike with
  | running alike => exact ⟨_, rfl, alike⟩

end Turn.Alike

namespace Batch.Alike

variable {paid extra : Nat} {left right : Batch σ}

theorem funded (alike : Batch.Alike paid extra left right) (funded : left.budget ≠ 0) :
    right.budget ≠ 0 := by
  rw [alike.budget]
  omega

/-- The host is handed the same at an interrupt. -/
theorem handed (alike : Batch.Alike paid extra left right) : left.handed = right.handed := by
  rw [Batch.handed, Batch.handed, alike.core, alike.memory, alike.state]

theorem machine (alike : Batch.Alike paid extra left right) :
    left.machine.Alike right.machine :=
  ⟨alike.core, alike.memory⟩

theorem spend (alike : Batch.Alike paid extra left right) (funded : left.budget ≠ 0) :
    Batch.Alike paid extra left.spend right.spend := by
  have budget := alike.budget
  refine { alike with budget := ?_ }
  simp only [Batch.spend]
  omega

theorem note (alike : Batch.Alike paid extra left right) (word : Halfword) :
    Batch.Alike paid extra (left.note word) (right.note word) := by
  refine { alike with history := ?_ }
  simp only [Batch.note, alike.history, alike.core.pc]

theorem enter (alike : Batch.Alike paid extra left right) {one two : Machine}
    (machines : one.Alike two) : Batch.Alike paid extra (left.enter one) (right.enter two) :=
  { alike with core := machines.core, memory := machines.memory }

theorem resume (alike : Batch.Alike paid extra left right) (host : Host σ) :
    Batch.Alike paid extra (left.resume host) (right.resume host) := by
  refine { alike with core := rfl, memory := rfl, state := rfl, retired := ?_ }
  simp only [Batch.resume, alike.retired]
  omega

theorem skip (alike : Batch.Alike paid extra left right) :
    Batch.Alike paid extra left.skip right.skip := by
  refine { alike with core := ?_ }
  simp only [Batch.skip, alike.core.nextPc]
  exact alike.core.setPc _

theorem charge (alike : Batch.Alike paid extra left right) (instruction : Instruction) :
    Batch.Alike paid extra (left.charge instruction) (right.charge instruction) := by
  have budget := alike.budget
  have retired := alike.retired
  rw [Batch.charge, Batch.charge, alike.refunded]
  split
  · refine { alike with refunded := rfl, budget := ?_ }
    dsimp only
    omega
  · refine { alike with refunded := rfl, retired := ?_ }
    dsimp only
    omega

theorem interrupt (alike : Batch.Alike paid extra left right) (handler : Handler σ) (code : Byte) :
    Turn.Alike paid extra (left.interrupt handler code) (right.interrupt handler code) := by
  rw [interrupt_eq, interrupt_eq, alike.handed]
  rcases handler code right.handed with ⟨host, answer⟩
  cases answer with
  | none => exact .running (alike.resume host)
  | some halt =>
      cases halt with
      | stop => exact .interrupted _ (alike.resume host).skip
      | pause => exact .interrupted _ (alike.resume host)
      | fault => exact .interrupted _ (alike.resume host)

theorem step (alike : Batch.Alike paid extra left right) (word : Halfword)
    (instruction : Instruction) :
    Turn.Alike paid extra (left.step word instruction) (right.step word instruction) := by
  have executed := execute_alike alike.machine word instruction
  rw [step_eq, step_eq]
  rcases ofLeft : execute word instruction left.machine with ⟨one, fault⟩
  rcases ofRight : execute word instruction right.machine with ⟨two, other⟩
  rw [ofLeft, ofRight] at executed
  obtain ⟨machines, rfl⟩ := executed
  cases fault with
  | none => exact .running ((alike.enter machines).charge instruction)
  | some cause => exact .faulted cause (alike.enter machines)

theorem dispatch (alike : Batch.Alike paid extra left right) (handler : Handler σ)
    (word : Halfword) :
    Turn.Alike paid extra (left.dispatch handler word) (right.dispatch handler word) := by
  rw [Batch.dispatch, Batch.dispatch]
  split
  · rw [alike.core.pc]
    exact .faulted _ alike
  · exact alike.interrupt handler _
  · exact alike.step word _

/-- Alike batches take alike turns. -/
theorem turn (alike : Batch.Alike paid extra left right) (funded : left.budget ≠ 0)
    (image : CodeImage) (handler : Handler σ) :
    Turn.Alike paid extra (left.turn image handler) (right.turn image handler) := by
  have spent := alike.spend funded
  rw [Batch.turn, Batch.turn, alike.core.pc]
  split
  · exact .faulted _ spent
  · exact (spent.note _).dispatch handler _

theorem call? (alike : Batch.Alike paid extra left right) (image : CodeImage)
    (handler : Handler σ) :
    (left.take image handler).call? = (right.take image handler).call? := by
  simp only [Taken.call?, Taken.instruction?, Batch.take, alike.core.pc, alike.handed]

/-- Of alike batches, the one with more to spend goes as far as the other does, and then, if the
other ended on its budget, goes on. -/
theorem run (alike : Batch.Alike paid extra left right) (image : CodeImage)
    (handler : Handler σ) :
    ∃ reached, Batch.Alike paid extra (left.run image handler).1 reached ∧
      ((left.run image handler).2 = .exhausted →
        right.run image handler = reached.run image handler ∧
        right.calls image handler = left.calls image handler ++ reached.calls image handler) ∧
      ((left.run image handler).2 ≠ .exhausted →
        right.run image handler = (reached, (left.run image handler).2) ∧
        right.calls image handler = left.calls image handler) := by
  -- Along the run that has less to spend; where its budget is gone the other one goes on alone.
  induction left using run_induction image handler generalizing right with
  | spent left spent =>
      rw [run_spent spent, calls_spent spent]
      exact ⟨right, alike, fun _ => ⟨rfl, rfl⟩, fun ended => absurd rfl ended⟩
  | running left next funded running inductionHypothesis =>
      have more := alike.funded funded
      have call := alike.call? image handler
      obtain ⟨rightNext, rightRunning, nextAlike⟩ :=
        (alike.turn funded image handler).of_running running
      obtain ⟨reached, ends, exhausted, halted⟩ := inductionHypothesis nextAlike
      rw [run_running funded running, calls_running funded running, call,
        run_running more rightRunning, calls_running more rightRunning]
      refine ⟨reached, ends, fun spent => ?_, fun ended => ?_⟩
      · obtain ⟨run, calls⟩ := exhausted spent
        exact ⟨run, by rw [calls, List.append_assoc]⟩
      · obtain ⟨run, calls⟩ := halted ended
        exact ⟨run, by rw [calls]⟩
  | ended left funded ended =>
      have more := alike.funded funded
      have moved := alike.turn funded image handler
      have rightEnded : (right.turn image handler).goesOn = false := by rw [← moved.goesOn, ended]
      rw [run_ended funded ended, calls_ended funded ended, run_ended more rightEnded,
        calls_ended more rightEnded, alike.call? image handler, moved.ending]
      exact ⟨(right.turn image handler).batch, moved.batch,
        fun exhausted => absurd exhausted (Turn.ending_ne_exhausted rightEnded),
        fun _ => ⟨rfl, rfl⟩⟩

/-- With equal budgets, alike batches run alike. -/
theorem run_same (alike : Batch.Alike paid 0 left right) (image : CodeImage)
    (handler : Handler σ) :
    Batch.Alike paid 0 (left.run image handler).1 (right.run image handler).1 ∧
      (right.run image handler).2 = (left.run image handler).2 ∧
      right.calls image handler = left.calls image handler := by
  obtain ⟨reached, ends, exhausted, halted⟩ := alike.run image handler
  by_cases ending : (left.run image handler).2 = .exhausted
  · have spent : reached.budget = 0 := by rw [ends.budget, spent_of_exhausted ending]
    obtain ⟨run, calls⟩ := exhausted ending
    rw [run_spent spent] at run
    rw [run, calls, ending, calls_spent spent, List.append_nil]
    exact ⟨ends, rfl, rfl⟩
  · obtain ⟨run, calls⟩ := halted ending
    rw [run]
    exact ⟨ends, rfl, calls⟩

end Batch.Alike

/-! ## The cut -/

/-- A batch that has spent its budget on an ordinary instruction has no refund open: a refund would
have left a unit to spend. -/
theorem Taken.Faithful.refund_closed {taken : Taken σ} {image : CodeImage} {handler : Handler σ}
    (faithful : taken.Faithful image handler) {next : Batch σ}
    (running : taken.turn = .running next) (spent : next.budget = 0)
    (ordinary : taken.isInterrupt = false) : next.refunded = false := by
  have course := faithful.course
  rw [running] at course
  cases course with
  | resumed fetched decoded answered =>
      simp [faithful.isInterrupt_of_decoded fetched decoded] at ordinary
  | completed fetched decoded ordinary executed =>
      rw [Batch.charge] at spent ⊢
      split at spent
      · simp at spent
      · rename_i unrefunded
        rw [if_neg unrefunded]

theorem Batch.refund_closed {batch : Batch σ} {image : CodeImage} {handler : Handler σ}
    (exhausted : (batch.run image handler).2 = .exhausted) (closed : batch.refunded = false)
    (ordinary : ∀ taken ∈ (batch.turns image handler).getLast?, taken.isInterrupt = false) :
    (batch.run image handler).1.refunded = false := by
  rcases List.eq_nil_or_concat (batch.turns image handler) with empty | ⟨earlier, taken, shape⟩
  · rw [run_spent (turns_eq_nil_iff.1 empty)]
    exact closed
  · have spent := spent_of_exhausted exhausted
    rw [List.concat_eq_append] at shape
    rw [run_eq_of_turns shape] at exhausted spent ⊢
    rcases taken.turn.running_or_ended with ⟨next, running⟩ | ended
    · rw [Taken.finish, running] at spent ⊢
      refine (faithful_of_turns shape).refund_closed running spent (ordinary taken ?_)
      simp [shape]
    · exact absurd exhausted (Turn.ending_ne_exhausted ended)

namespace Processor

variable {handler : Handler σ}

/-- A run of more instructions starts like a run of fewer. -/
theorem batch_alike (processor : Processor σ) (first second : Nat) :
    Batch.Alike 0 second (processor.batch first) (processor.batch (first + second)) :=
  ⟨rfl, rfl, rfl, rfl, rfl, rfl, rfl⟩

/-- The batch that starts after a cut is alike to the one that was never cut. -/
theorem batch_absorb_alike (processor : Processor σ) (image : Option CodeImage) {count : Nat}
    {last reached : Batch σ} (alike : Batch.Alike 0 count last reached) (spent : last.budget = 0)
    (closed : last.refunded = false) (even : odd last.core.pc = false) :
    Batch.Alike last.retired 0 ((processor.absorb image last).batch count) reached where
  core := (Core.ofFile_toFile_alike even).trans alike.core
  memory := alike.memory
  state := alike.state
  history := alike.history
  refunded := closed.symm.trans alike.refunded
  budget := by rw [alike.budget, spent, Nat.zero_add]; rfl
  retired := by rw [alike.retired, Nat.add_comm]; rfl

/-- Alike batches leave the same processor behind, the paid units counted where they were paid. -/
theorem absorb_alike {cut processor : Processor σ} {left right : Batch σ} {paid : Nat}
    (alike : Batch.Alike paid 0 left right) (executed : cut.executed = processor.executed + paid)
    (image : Option CodeImage) : cut.absorb image left = processor.absorb image right := by
  have handed : left.handed = right.handed := alike.handed
  have total : cut.executed + left.retired = processor.executed + right.retired := by
    rw [alike.retired, executed]
    omega
  rw [absorb, absorb, ← alike.history, total]
  exact congrArg (fun host => Processor.mk host image _ _) handed

/-- A run of nothing drops bit 0 of the stored program counter, as the next run would have done. -/
theorem run_zero_run (processor : Processor σ) (handler : Handler σ) (count : Nat) :
    (processor.run handler 0).1.run handler count = processor.run handler count ∧
      (processor.run handler 0).1.calls handler count = processor.calls handler count := by
  rw [run_zero]
  have longer := processor.batch_alike 0 count
  rw [Nat.zero_add] at longer
  have alike : Batch.Alike 0 0 ((processor.absorb processor.image (processor.batch 0)).batch count)
      (processor.batch count) :=
    processor.batch_absorb_alike processor.image longer rfl rfl (odd_halfwordAligned _)
  generalize cutEq : processor.absorb processor.image (processor.batch 0) = cut at alike ⊢
  have image : cut.image = processor.image := by rw [← cutEq]; rfl
  have memory : cut.host.memory = processor.host.memory := by rw [← cutEq]; rfl
  have executed : cut.executed = processor.executed + 0 := by rw [← cutEq]; rfl
  have sought : cut.imageAt (cut.batch count).core.pc =
      processor.imageAt (processor.batch count).core.pc := by
    rw [imageAt, imageAt, image, memory, alike.core.pc]
  by_cases none_ : count = 0
  · subst none_
    rw [run_zero, run_zero, image, absorb_alike alike executed]
    exact ⟨rfl, by rw [calls_zero, calls_zero]⟩
  · cases found : processor.imageAt (processor.batch count).core.pc with
    | error access =>
        rw [run_unfound none_ found, run_unfound none_ (sought.trans found), image,
          absorb_alike alike executed, calls, calls, turns, turns, sought, found]
        exact ⟨rfl, rfl⟩
    | ok image =>
        obtain ⟨ends, ending, calls⟩ := alike.run_same image handler
        rw [run_found none_ found, run_found none_ (sought.trans found),
          absorb_alike ends executed, ending, calls_eq found, calls_eq (sought.trans found), calls]
        exact ⟨rfl, rfl⟩

/-- A run that found its code and ended on its budget can be taken up by another. -/
theorem run_absorb {processor : Processor σ} {image : CodeImage} {first : Nat} {last : Batch σ}
    (some_ : first ≠ 0) (found : processor.imageAt (processor.batch first).core.pc = .ok image)
    (run : (processor.batch first).run image handler = (last, .exhausted))
    (closed : last.refunded = false) (even : odd last.core.pc = false) (second : Nat) :
    (processor.absorb (some image) last).run handler second =
        processor.run handler (first + second) ∧
      processor.calls handler first ++ (processor.absorb (some image) last).calls handler second =
        processor.calls handler (first + second) := by
  obtain ⟨reached, ends, goesOn, _⟩ :=
    (processor.batch_alike first second).run image handler
  rw [run] at ends goesOn
  obtain ⟨whole, wholeCalls⟩ := goesOn rfl
  have spent : last.budget = 0 := by
    have exhausted := congrArg Prod.snd run
    have spent := Batch.spent_of_exhausted exhausted
    rwa [run] at spent
  have alike := processor.batch_absorb_alike (some image) ends spent closed even
  obtain ⟨final, ending, calls⟩ := alike.run_same image handler
  have longer : processor.imageAt (processor.batch (first + second)).core.pc = .ok image := found
  have cut : (processor.absorb (some image) last).imageAt
      ((processor.absorb (some image) last).batch second).core.pc = .ok image := rfl
  rw [run_found (by omega) longer, run_of_image rfl, whole, ending, absorb_alike final rfl,
    calls_eq found, calls_eq longer, calls_eq cut, wholeCalls, calls]
  exact ⟨rfl, rfl⟩

/-- Cutting a run in two cannot be noticed: if the first part ends on its budget, its last
instruction is no interrupt and it leaves an even program counter, then the second part takes it to
where the uncut run goes, with the same calls of the host. -/
theorem run_append (processor : Processor σ) (handler : Handler σ) (first second : Nat)
    (exhausted : (processor.run handler first).2 = .exhausted)
    (ordinary : ∀ taken ∈ (processor.turns handler first).getLast?, taken.isInterrupt = false)
    (even : odd (processor.run handler first).1.host.registers.pc = false) :
    (processor.run handler first).1.run handler second =
        processor.run handler (first + second) ∧
      processor.calls handler first ++ (processor.run handler first).1.calls handler second =
        processor.calls handler (first + second) := by
  by_cases none_ : first = 0
  · subst none_
    obtain ⟨run, calls⟩ := run_zero_run processor handler second
    rw [Nat.zero_add, calls_zero, List.nil_append]
    exact ⟨run, calls⟩
  · cases found : processor.imageAt (processor.batch first).core.pc with
    | error access => simp [run_unfound none_ found] at exhausted
    | ok image =>
        rw [run_found none_ found] at exhausted even ⊢
        rw [turns_eq found] at ordinary
        have closed := Batch.refund_closed exhausted rfl ordinary
        have pc : odd ((processor.batch first).run image handler).1.core.pc = false := by
          rw [← even, ← Core.pc_toFile]
          rfl
        exact run_absorb none_ found (Prod.ext rfl exhausted) closed pc second

/-- A comparison, after which the flags in the register store are stale, and a call of the host. -/
def compareAndCall : Processor Unit := ofWords [0x2800, 0xDF05]

theorem run_append_compareAndCall :
    (compareAndCall.run .refuseAll 1).2 = .exhausted ∧
      odd (compareAndCall.run .refuseAll 1).1.host.registers.pc = false ∧
      (compareAndCall.run .refuseAll 1).1.run .refuseAll 1 = compareAndCall.run .refuseAll 2 ∧
      compareAndCall.calls .refuseAll 1 ++
          (compareAndCall.run .refuseAll 1).1.calls .refuseAll 1 =
        compareAndCall.calls .refuseAll 2 := by
  have exhausted : (compareAndCall.run .refuseAll 1).2 = .exhausted := by decide +kernel
  have even : odd (compareAndCall.run .refuseAll 1).1.host.registers.pc = false := by
    decide +kernel
  exact ⟨exhausted, even,
    run_append compareAndCall .refuseAll 1 1 exhausted (by decide +kernel) even⟩

end Processor

end ThumbMachine
