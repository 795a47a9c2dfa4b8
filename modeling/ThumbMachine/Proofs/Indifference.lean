/-
Module: ThumbMachine.Proofs.Indifference
Purpose: What a run does not notice: one more region, as far as it goes without it and with every
  interrupt refused; another history; and an open refund, unless it starts with a first half of a
  BL.
Main exports: CodeImage.build_extend, Batch.start_layout, Batch.run_extend, Batch.run_recording,
  Batch.run_settled
-/
import ThumbMachine.Proofs.Accounting
import ThumbMachine.Proofs.Framing

namespace ThumbMachine

variable {σ : Type}

/-! ## The snapshot -/

namespace CodeImage

theorem mapM_eq_ok_of_keeps {α β ε : Type} {one other : α → Except ε β} {items : List α}
    {results : List β} (keeps : ∀ item result, one item = .ok result → other item = .ok result)
    (done : items.mapM one = .ok results) : items.mapM other = .ok results := by
  induction items generalizing results with
  | nil => exact done
  | cons item rest inductionHypothesis =>
      rw [List.mapM_cons] at done ⊢
      cases first : one item with
      | error error =>
          rw [first] at done
          cases done
      | ok result =>
          cases others : rest.mapM one with
          | error error =>
              rw [first, others] at done
              cases done
          | ok further =>
              rw [first, others] at done
              rw [keeps item result first, inductionHypothesis others]
              exact done

/-- A snapshot that could be taken is the same when another region was mapped last. -/
theorem build_extend {memory : Memory} {pc : Word} {image : CodeImage}
    (built : build memory pc = .ok image) (mapped : MappedRegion) :
    build (memory.extend mapped) pc = .ok image := by
  cases located : memory.locate? pc 2 with
  | none =>
      rw [build, Memory.findRegion, located] at built
      cases built
  | some found =>
      rw [build, Memory.findRegion, located] at built
      rw [build, Memory.findRegion, Memory.locate?_extend located]
      apply map_eq_ok _ built
      intro halfwords read
      apply mapM_eq_ok_of_keeps _ read
      intro index word held
      exact Memory.readDatum_extend held mapped

end CodeImage

/-! ## One more region -/

theorem Batch.turn_of_decoded {batch : Batch σ} {image : CodeImage} {handler : Handler σ}
    {word : Halfword} {instruction : Instruction} (fetched : image.fetch batch.core.pc = .ok word)
    (decoded : decode word = .ok instruction)
    (ordinary : ∀ code, instruction ≠ .softwareInterrupt code) :
    batch.turn image handler = (batch.fetch word).step word instruction := by
  rw [turn, fetched]
  change (batch.fetch word).dispatch handler word = _
  rw [dispatch, decoded]
  split
  · rename_i same
    cases same
  · rename_i code same
    cases same
    exact absurd rfl (ordinary code)
  · rename_i same
    cases same
    rfl

/-- Where every interrupt is refused, a turn that goes on has completed an ordinary instruction. -/
theorem Taken.Faithful.completed_of_goesOn {taken : Taken σ} {image : CodeImage}
    (faithful : taken.Faithful image .refuseAll) (goesOn : taken.turn.goesOn) :
    ∃ word instruction machine, image.fetch taken.start.core.pc = .ok word ∧
      decode word = .ok instruction ∧ (∀ code, instruction ≠ .softwareInterrupt code) ∧
      execute word instruction taken.start.machine = ⟨machine, none⟩ ∧
      taken.turn = .running (((taken.start.fetch word).enter machine).charge instruction) := by
  have course := faithful.course
  generalize taken.turn = turn at course goesOn ⊢
  cases course with
  | unfetched => cases goesOn
  | undecoded => cases goesOn
  | resumed fetched decoded answered => cases answered
  | stopped => cases goesOn
  | halted => cases goesOn
  | completed fetched decoded ordinary executed =>
      exact ⟨_, _, _, fetched, decoded, ordinary, executed, rfl⟩
  | failed => cases goesOn

namespace Batch

/-- The batch with one more region in its memory, mapped last. -/
def extend (batch : Batch σ) (mapped : MappedRegion) : Batch σ :=
  { batch with host := { batch.host with memory := batch.host.memory.extend mapped } }

theorem charge_extend (batch : Batch σ) (instruction : Instruction) (mapped : MappedRegion) :
    (batch.extend mapped).charge instruction = (batch.charge instruction).extend mapped := by
  have same : (batch.extend mapped).refunded = batch.refunded := rfl
  rw [charge, charge, same]
  split
  · rfl
  · rfl

theorem charge_host (batch : Batch σ) (instruction : Instruction) :
    (batch.charge instruction).host = batch.host := by
  rw [charge]
  split
  · rfl
  · rfl

theorem step_extend {batch : Batch σ} {word : Halfword} {instruction : Instruction}
    {machine : Machine} (executed : execute word instruction batch.machine = ⟨machine, none⟩)
    (mapped : MappedRegion) :
    (batch.extend mapped).step word instruction =
      .running (((batch.enter machine).charge instruction).extend mapped) := by
  have wide := (execute_framed word instruction batch.machine).extend mapped
  rw [executed] at wide
  have same : (batch.extend mapped).machine = batch.machine.extend mapped := rfl
  rw [step_eq, same, wide rfl, ← charge_extend]
  rfl

end Batch

/-- With one more region, a turn that goes on does so to the same batch, which has that region
too. -/
theorem Taken.Faithful.turn_extend {taken : Taken σ} {image : CodeImage}
    (faithful : taken.Faithful image .refuseAll) (goesOn : taken.turn.goesOn)
    (mapped : MappedRegion) :
    (taken.start.extend mapped).turn image .refuseAll = .running (taken.finish.extend mapped) := by
  obtain ⟨word, instruction, machine, fetched, decoded, ordinary, executed, running⟩ :=
    faithful.completed_of_goesOn goesOn
  have sameFetch : image.fetch (taken.start.extend mapped).core.pc = .ok word := fetched
  have sameExecuted : execute word instruction (taken.start.fetch word).machine =
    ⟨machine, none⟩ := executed
  rw [Batch.turn_of_decoded sameFetch decoded ordinary, finish, running, Turn.batch]
  exact Batch.step_extend sameExecuted mapped

namespace Batch

variable {batch : Batch σ} {image : CodeImage}

/-- A run on which every interrupt is refused moves no region. -/
theorem start_layout {earlier later : List (Taken σ)} {taken : Taken σ}
    (shape : batch.turns image .refuseAll = earlier ++ taken :: later) :
    taken.start.host.memory.layout = batch.host.memory.layout := by
  apply start_induction (motive := fun _ reached =>
    reached.host.memory.layout = batch.host.memory.layout) rfl _ shape
  intro before previous faithful goesOn same
  obtain ⟨word, instruction, machine, _, _, _, executed, running⟩ :=
    faithful.completed_of_goesOn goesOn
  have kept := (execute_framed word instruction previous.start.machine).layout
  rw [executed] at kept
  rw [Taken.finish, running, Turn.batch, charge_host]
  exact kept.trans same

/-- Where every interrupt is refused, one more region changes nothing of a run up to any of its
turns. -/
theorem run_extend {earlier later : List (Taken σ)} {taken : Taken σ}
    (shape : batch.turns image .refuseAll = earlier ++ taken :: later) (mapped : MappedRegion) :
    (batch.extend mapped).run image .refuseAll =
      (taken.start.extend mapped).run image .refuseAll := by
  apply start_induction (motive := fun _ reached =>
    (batch.extend mapped).run image .refuseAll = (reached.extend mapped).run image .refuseAll)
    rfl _ shape
  intro before previous faithful goesOn same
  have funded : (previous.start.extend mapped).budget ≠ 0 := faithful.funded
  rw [same, run_running funded (faithful.turn_extend goesOn mapped)]

end Batch

/-! ## Another history, and no refund -/

namespace Batch

/-- The batch with another history. -/
def recording (batch : Batch σ) (history : History) : Batch σ := { batch with history }

/-- The batch with no refund open. -/
def settled (batch : Batch σ) : Batch σ := { batch with refunded := false }

end Batch

namespace Turn

/-- The turn with another history. -/
def recording (turn : Turn σ) (history : History) : Turn σ :=
  match turn with
  | .running batch => .running (batch.recording history)
  | .interrupted halt batch => .interrupted halt (batch.recording history)
  | .faulted cause batch => .faulted cause (batch.recording history)

theorem recording_batch (turn : Turn σ) (history : History) :
    (turn.recording history).batch = turn.batch.recording history := by
  cases turn <;> rfl

theorem recording_ending (turn : Turn σ) (history : History) :
    (turn.recording history).ending = turn.ending := by
  cases turn <;> rfl

theorem recording_goesOn (turn : Turn σ) (history : History) :
    (turn.recording history).goesOn = turn.goesOn := by
  cases turn <;> rfl

end Turn

namespace Batch

theorem charge_recording (batch : Batch σ) (instruction : Instruction) (history : History) :
    (batch.recording history).charge instruction =
      (batch.charge instruction).recording history := by
  have same : (batch.recording history).refunded = batch.refunded := rfl
  rw [charge, charge, same]
  split
  · rfl
  · rfl

theorem interrupt_recording (batch : Batch σ) (handler : Handler σ) (code : Byte)
    (history : History) :
    (batch.recording history).interrupt handler code =
      (batch.interrupt handler code).recording history := by
  have same : (batch.recording history).handed = batch.handed := rfl
  rw [interrupt_eq, interrupt_eq, same]
  rcases handler code batch.handed with ⟨host, answer⟩
  cases answer with
  | none => rfl
  | some halt => cases halt <;> rfl

theorem step_recording (batch : Batch σ) (word : Halfword) (instruction : Instruction)
    (history : History) :
    (batch.recording history).step word instruction =
      (batch.step word instruction).recording history := by
  have same : (batch.recording history).machine = batch.machine := rfl
  rw [step_eq, step_eq, same]
  rcases execute word instruction batch.machine with ⟨machine, fault⟩
  cases fault with
  | none => exact congrArg Turn.running ((batch.enter machine).charge_recording instruction history)
  | some cause => rfl

theorem dispatch_recording (batch : Batch σ) (handler : Handler σ) (word : Halfword)
    (history : History) :
    (batch.recording history).dispatch handler word =
      (batch.dispatch handler word).recording history := by
  rw [dispatch, dispatch]
  split
  · rfl
  · exact batch.interrupt_recording handler _ history
  · exact batch.step_recording word _ history

theorem turn_recording (batch : Batch σ) (image : CodeImage) (handler : Handler σ)
    (history : History) :
    ∃ other, (batch.recording history).turn image handler =
      (batch.turn image handler).recording other := by
  have same : (batch.recording history).core.pc = batch.core.pc := rfl
  rw [turn, turn, same]
  cases image.fetch batch.core.pc with
  | error access => exact ⟨history, rfl⟩
  | ok word =>
      refine ⟨(batch.recording history |>.note word).history, ?_⟩
      exact (batch.fetch word).dispatch_recording handler word _

/-- A run goes as it does with another history, and differs from that in the history alone. -/
theorem run_recording (batch : Batch σ) (image : CodeImage) (handler : Handler σ)
    (history : History) :
    ∃ other, (batch.recording history).run image handler =
      ((batch.run image handler).1.recording other, (batch.run image handler).2) := by
  induction batch using run_induction image handler generalizing history with
  | spent batch spent =>
      have alsoSpent : (batch.recording history).budget = 0 := spent
      rw [run_spent spent, run_spent alsoSpent]
      exact ⟨history, rfl⟩
  | running batch next funded running inductionHypothesis =>
      have alsoFunded : (batch.recording history).budget ≠ 0 := funded
      obtain ⟨further, turn⟩ := batch.turn_recording image handler history
      rw [running] at turn
      rw [run_running funded running, run_running alsoFunded turn]
      exact inductionHypothesis further
  | ended batch funded ended =>
      have alsoFunded : (batch.recording history).budget ≠ 0 := funded
      obtain ⟨further, turn⟩ := batch.turn_recording image handler history
      have alsoEnded : ((batch.recording history).turn image handler).goesOn = false := by
        rw [turn, Turn.recording_goesOn, ended]
      rw [run_ended funded ended, run_ended alsoFunded alsoEnded, turn]
      exact ⟨further, by rw [Turn.recording_batch, Turn.recording_ending]⟩

/-- Whether a refund is open matters to a first half of a BL only: another ordinary instruction goes
as it does with none open. -/
theorem turn_settled (batch : Batch σ) {image : CodeImage} (handler : Handler σ) {word : Halfword}
    {instruction : Instruction} (fetched : image.fetch batch.core.pc = .ok word)
    (decoded : decode word = .ok instruction)
    (ordinary : ∀ code, instruction ≠ .softwareInterrupt code)
    (other : isLongBranchHigh instruction = false) :
    (∃ next, batch.turn image handler = .running next ∧
        batch.settled.turn image handler = .running next) ∨
      ∃ cause last, batch.turn image handler = .faulted cause last ∧
        batch.settled.turn image handler = .faulted cause last.settled := by
  have same : (batch.fetch word).settled.machine = (batch.fetch word).machine := rfl
  have turn : batch.turn image handler = (batch.fetch word).step word instruction :=
    turn_of_decoded fetched decoded ordinary
  have alsoTurn : batch.settled.turn image handler =
    (batch.fetch word).settled.step word instruction := turn_of_decoded fetched decoded ordinary
  rw [step_eq] at turn alsoTurn
  rw [same] at alsoTurn
  rw [turn, alsoTurn]
  rcases execute word instruction (batch.fetch word).machine with ⟨machine, fault⟩
  cases fault with
  | none =>
      refine Or.inl ⟨_, rfl, congrArg Turn.running ?_⟩
      rw [charge, charge, other]
      rfl
  | some cause => exact Or.inr ⟨cause, _, rfl, rfl⟩

theorem run_settled (batch : Batch σ) {image : CodeImage} (handler : Handler σ) {word : Halfword}
    {instruction : Instruction} (funded : batch.budget ≠ 0)
    (fetched : image.fetch batch.core.pc = .ok word) (decoded : decode word = .ok instruction)
    (ordinary : ∀ code, instruction ≠ .softwareInterrupt code)
    (other : isLongBranchHigh instruction = false) :
    (batch.settled.run image handler).2 = (batch.run image handler).2 ∧
      (batch.settled.run image handler).1.settled = (batch.run image handler).1.settled := by
  have alsoFunded : batch.settled.budget ≠ 0 := funded
  rcases batch.turn_settled handler fetched decoded ordinary other with
    ⟨next, turn, alsoTurn⟩ | ⟨cause, last, turn, alsoTurn⟩
  · rw [run_running funded turn, run_running alsoFunded alsoTurn]
    exact ⟨rfl, rfl⟩
  · have ended : (batch.turn image handler).goesOn = false := by rw [turn]; rfl
    have alsoEnded : (batch.settled.turn image handler).goesOn = false := by rw [alsoTurn]; rfl
    rw [run_ended funded ended, run_ended alsoFunded alsoEnded, turn, alsoTurn]
    exact ⟨rfl, rfl⟩

end Batch

end ThumbMachine
