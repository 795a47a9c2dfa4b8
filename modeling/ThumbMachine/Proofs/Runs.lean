/-
Module: ThumbMachine.Proofs.Runs
Purpose: What a run consists of. A turn takes one of seven courses; the turns of a run form a list
  in which each turn starts where the one before it left off; a host strings runs together, changing
  what it owns in between.
Main exports: Batch.Course, Batch.course, Taken, Taken.LastIs, Batch.turns, Batch.turns_split,
  Batch.turns_adjacent, Processor.turns, Processor.calls, Processor.turns_split, Processor.Reachable
-/
import ThumbMachine.Processor.Basic

namespace ThumbMachine

variable {σ : Type}

/-! ## One turn -/

namespace Batch

/-- What the host is handed at an interrupt: all it owns, with the core packed into its store. -/
def handed (batch : Batch σ) : Host σ := { batch.host with registers := batch.core.toFile }

/-- The core of a batch and the memory it works on. -/
def machine (batch : Batch σ) : Machine := { core := batch.core, memory := batch.host.memory }

/-- The batch once it has spent a unit and noted a fetched word. -/
def fetch (batch : Batch σ) (word : Halfword) : Batch σ := batch.spend.note word

/-- The batch once an instruction has worked on its machine. -/
def enter (batch : Batch σ) (machine : Machine) : Batch σ :=
  { batch with core := machine.core, host := { batch.host with memory := machine.memory } }

/-- The batch once the host has answered: the core is unpacked from the store and the interrupt is
counted. -/
def resume (batch : Batch σ) (host : Host σ) : Batch σ :=
  { batch with core := Core.ofFile host.registers, host, retired := batch.retired + 1 }

/-- The batch with its program counter one instruction further. -/
def skip (batch : Batch σ) : Batch σ :=
  { batch with core := batch.core.setPc batch.core.nextPc }

/-- The courses a turn can take, each with what decides it and what the turn comes to. -/
inductive Course (batch : Batch σ) (image : CodeImage) (handler : Handler σ) : Turn σ → Prop where
  | unfetched {access : InvalidAccess} (fetched : image.fetch batch.core.pc = .error access) :
      Course batch image handler (.faulted (.invalidAccess access) batch.spend)
  | undecoded {word : Halfword} {error : DecodeError}
      (fetched : image.fetch batch.core.pc = .ok word) (decoded : decode word = .error error) :
      Course batch image handler (.faulted (error.toFault word batch.core.pc) (batch.fetch word))
  | resumed {word : Halfword} {code : Byte} {host : Host σ}
      (fetched : image.fetch batch.core.pc = .ok word)
      (decoded : decode word = .ok (.softwareInterrupt code))
      (answered : handler code batch.handed = (host, none)) :
      Course batch image handler (.running ((batch.fetch word).resume host))
  | stopped {word : Halfword} {code : Byte} {host : Host σ}
      (fetched : image.fetch batch.core.pc = .ok word)
      (decoded : decode word = .ok (.softwareInterrupt code))
      (answered : handler code batch.handed = (host, some .stop)) :
      Course batch image handler (.interrupted .stop ((batch.fetch word).resume host).skip)
  | halted {word : Halfword} {code : Byte} {host : Host σ} {halt : Halt}
      (fetched : image.fetch batch.core.pc = .ok word)
      (decoded : decode word = .ok (.softwareInterrupt code)) (other : halt ≠ .stop)
      (answered : handler code batch.handed = (host, some halt)) :
      Course batch image handler (.interrupted halt ((batch.fetch word).resume host))
  | completed {word : Halfword} {instruction : Instruction} {machine : Machine}
      (fetched : image.fetch batch.core.pc = .ok word) (decoded : decode word = .ok instruction)
      (ordinary : ∀ code, instruction ≠ .softwareInterrupt code)
      (executed : execute word instruction batch.machine = ⟨machine, none⟩) :
      Course batch image handler (.running (((batch.fetch word).enter machine).charge instruction))
  | failed {word : Halfword} {instruction : Instruction} {machine : Machine} {cause : Fault}
      (fetched : image.fetch batch.core.pc = .ok word) (decoded : decode word = .ok instruction)
      (ordinary : ∀ code, instruction ≠ .softwareInterrupt code)
      (executed : execute word instruction batch.machine = ⟨machine, some cause⟩) :
      Course batch image handler (.faulted cause ((batch.fetch word).enter machine))

theorem interrupt_eq (batch : Batch σ) (handler : Handler σ) (code : Byte) :
    batch.interrupt handler code =
      match handler code batch.handed with
      | (host, none) => .running (batch.resume host)
      | (host, some .stop) => .interrupted .stop (batch.resume host).skip
      | (host, some halt) => .interrupted halt (batch.resume host) := by
  rcases answered : handler code batch.handed with ⟨host, answer⟩
  rw [handed] at answered
  simp only [interrupt, answered]
  cases answer with
  | none => rfl
  | some halt => cases halt <;> rfl

theorem step_eq (batch : Batch σ) (word : Halfword) (instruction : Instruction) :
    batch.step word instruction =
      match execute word instruction batch.machine with
      | ⟨machine, none⟩ => .running ((batch.enter machine).charge instruction)
      | ⟨machine, some cause⟩ => .faulted cause (batch.enter machine) := by
  rcases executed : execute word instruction batch.machine with ⟨machine, fault⟩
  rw [Batch.machine] at executed
  simp only [step, executed]
  cases fault <;> rfl

/-- Every turn takes one of the courses. -/
theorem course (batch : Batch σ) (image : CodeImage) (handler : Handler σ) :
    Course batch image handler (batch.turn image handler) := by
  rw [turn]
  cases fetched : image.fetch batch.core.pc with
  | error access => exact .unfetched fetched
  | ok word =>
      change Course batch image handler ((batch.fetch word).dispatch handler word)
      rw [dispatch]
      split
      · rename_i error decoded
        exact .undecoded fetched decoded
      · rename_i code decoded
        rw [interrupt_eq]
        change Course batch image handler (match handler code batch.handed with
          | (host, none) => _ | (host, some .stop) => _ | (host, some halt) => _)
        rcases answered : handler code batch.handed with ⟨host, _ | halt⟩
        · exact .resumed fetched decoded answered
        · cases halt with
          | stop => exact .stopped fetched decoded answered
          | pause => exact .halted fetched decoded (by simp) answered
          | fault => exact .halted fetched decoded (by simp) answered
      · rename_i instruction ordinary decoded
        rw [step_eq]
        change Course batch image handler (match execute word instruction batch.machine with
          | ⟨machine, none⟩ => _ | ⟨machine, some cause⟩ => _)
        rcases executed : execute word instruction batch.machine with ⟨machine, _ | cause⟩
        · exact .completed fetched decoded ordinary executed
        · exact .failed fetched decoded ordinary executed

end Batch

/-! ## The turns of a batch -/

namespace Turn

/-- The batch that a turn leaves behind. -/
def batch : Turn σ → Batch σ
  | running batch | interrupted _ batch | faulted _ batch => batch

/-- How a run ends whose last turn this is. -/
def ending : Turn σ → Ending
  | running _ => .exhausted
  | interrupted halt _ => .interrupted halt
  | faulted cause _ => .faulted cause

/-- Whether the instruction of the turn completed. -/
def completes : Turn σ → Bool
  | running _ | interrupted _ _ => true
  | faulted _ _ => false

/-- Whether the batch goes on. -/
def goesOn : Turn σ → Bool
  | running _ => true
  | interrupted _ _ | faulted _ _ => false

theorem running_or_ended (turn : Turn σ) :
    (∃ next, turn = .running next) ∨ turn.goesOn = false := by
  cases turn with
  | running next => exact Or.inl ⟨next, rfl⟩
  | interrupted => exact Or.inr rfl
  | faulted => exact Or.inr rfl

theorem ending_ne_exhausted {turn : Turn σ} (ended : turn.goesOn = false) :
    turn.ending ≠ .exhausted := by
  cases turn <;> simp_all [goesOn, ending]

end Turn

/-- A turn that was taken: the batch before it, what was fetched, and what it came to. -/
structure Taken (σ : Type) where
  start : Batch σ
  fetched : Except InvalidAccess Halfword
  turn : Turn σ

namespace Taken

/-- The batch after the turn. -/
def finish (taken : Taken σ) : Batch σ := taken.turn.batch

/-- The instruction of the turn, where its word was fetched and decodes. -/
def instruction? (taken : Taken σ) : Option Instruction :=
  match taken.fetched with
  | .ok word => (decode word).toOption
  | .error _ => none

/-- Whether the turn executes an interrupt. -/
def isInterrupt (taken : Taken σ) : Bool :=
  match taken.instruction? with
  | some (.softwareInterrupt _) => true
  | _ => false

/-- Whether the turn executes the second half of a BL. -/
def isLongBranchLow (taken : Taken σ) : Bool :=
  match taken.instruction? with
  | some (.longBranchLow _) => true
  | _ => false

/-- The call of the host that the turn makes: the interrupt code, and the host as it is handed
over. -/
def call? (taken : Taken σ) : Option (Byte × Host σ) :=
  match taken.instruction? with
  | some (.softwareInterrupt code) => some (code, taken.start.handed)
  | _ => none

/-- A faithful record: the turn was taken on a budget, and fetched and came to what the batch before
it determines. -/
structure Faithful (taken : Taken σ) (image : CodeImage) (handler : Handler σ) : Prop where
  funded : taken.start.budget ≠ 0
  fetched : taken.fetched = image.fetch taken.start.core.pc
  turn : taken.turn = taken.start.turn image handler

namespace Faithful

variable {taken : Taken σ} {image : CodeImage} {handler : Handler σ}

theorem course (faithful : taken.Faithful image handler) :
    taken.start.Course image handler taken.turn := by
  rw [faithful.turn]
  exact taken.start.course image handler

theorem instruction?_of_decoded (faithful : taken.Faithful image handler) {word : Halfword}
    {instruction : Instruction} (fetched : image.fetch taken.start.core.pc = .ok word)
    (decoded : decode word = .ok instruction) : taken.instruction? = some instruction := by
  rw [instruction?, faithful.fetched, fetched]
  simp only [decoded]
  rfl

theorem instruction?_of_undecoded (faithful : taken.Faithful image handler) {word : Halfword}
    {error : DecodeError} (fetched : image.fetch taken.start.core.pc = .ok word)
    (decoded : decode word = .error error) : taken.instruction? = none := by
  rw [instruction?, faithful.fetched, fetched]
  simp only [decoded]
  rfl

theorem instruction?_of_unfetched (faithful : taken.Faithful image handler)
    {access : InvalidAccess} (fetched : image.fetch taken.start.core.pc = .error access) :
    taken.instruction? = none := by
  rw [instruction?, faithful.fetched, fetched]

/-- An instruction comes from a word that was fetched and decodes to it. -/
theorem decoded_of_instruction? (faithful : taken.Faithful image handler)
    {instruction : Instruction} (executed : taken.instruction? = some instruction) :
    ∃ word, image.fetch taken.start.core.pc = .ok word ∧ decode word = .ok instruction := by
  rw [instruction?, faithful.fetched] at executed
  cases fetched : image.fetch taken.start.core.pc with
  | error access => simp [fetched] at executed
  | ok word =>
      simp only [fetched] at executed
      cases decoded : decode word with
      | error error => simp [decoded, Except.toOption] at executed
      | ok other =>
          simp only [decoded, Except.toOption, Option.some.injEq] at executed
          exact ⟨word, rfl, decoded.trans (congrArg _ executed)⟩

theorem isInterrupt_of_decoded (faithful : taken.Faithful image handler) {word : Halfword}
    {code : Byte} (fetched : image.fetch taken.start.core.pc = .ok word)
    (decoded : decode word = .ok (.softwareInterrupt code)) : taken.isInterrupt = true := by
  rw [isInterrupt, faithful.instruction?_of_decoded fetched decoded]

theorem not_isInterrupt_of_decoded (faithful : taken.Faithful image handler) {word : Halfword}
    {instruction : Instruction} (fetched : image.fetch taken.start.core.pc = .ok word)
    (decoded : decode word = .ok instruction)
    (ordinary : ∀ code, instruction ≠ .softwareInterrupt code) : taken.isInterrupt = false := by
  rw [isInterrupt, faithful.instruction?_of_decoded fetched decoded]
  split
  · rename_i code same
    cases same
    exact absurd rfl (ordinary code)
  · rfl

end Faithful

theorem instruction?_of_call? {taken : Taken σ} {call : Byte × Host σ}
    (made : taken.call? = some call) :
    ∃ code, taken.instruction? = some (.softwareInterrupt code) ∧
      call = (code, taken.start.handed) := by
  rw [call?] at made
  split at made
  · rename_i code interrupt
    cases made
    exact ⟨code, interrupt, rfl⟩
  · cases made

/-- The last of some turns has a property. -/
def LastIs (property : Taken σ → Prop) (turns : List (Taken σ)) : Prop :=
  ∃ taken ∈ turns.getLast?, property taken

instance (property : Taken σ → Prop) [DecidablePred property] (turns : List (Taken σ)) :
    Decidable (LastIs property turns) :=
  inferInstanceAs (Decidable (∃ taken ∈ turns.getLast?, property taken))

section LastIs

variable {property : Taken σ → Prop} {turns : List (Taken σ)}

theorem not_lastIs_nil : ¬ LastIs property [] := by
  simp [LastIs]

theorem lastIs_append {taken : Taken σ} : LastIs property (turns ++ [taken]) ↔ property taken := by
  simp [LastIs]

theorem exists_of_lastIs (last : LastIs property turns) : ∃ taken ∈ turns, property taken := by
  obtain ⟨taken, isLast, holds⟩ := last
  exact ⟨taken, List.mem_of_getLast? isLast, holds⟩

end LastIs

end Taken

namespace Batch

/-- The next turn, with its record. -/
def take (batch : Batch σ) (image : CodeImage) (handler : Handler σ) : Taken σ :=
  { start := batch, fetched := image.fetch batch.core.pc, turn := batch.turn image handler }

/-- The turns of a run in order. -/
def turns (batch : Batch σ) (image : CodeImage) (handler : Handler σ) : List (Taken σ) :=
  if funded : batch.budget = 0 then []
  else
    batch.take image handler ::
      match taken : batch.turn image handler with
      | .running next =>
          have : next.measure < batch.measure := measure_turn funded taken
          next.turns image handler
      | _ => []
termination_by batch.measure

/-- The calls of the host that a run makes, in order. -/
def calls (batch : Batch σ) (image : CodeImage) (handler : Handler σ) : List (Byte × Host σ) :=
  (batch.turns image handler).filterMap Taken.call?

variable {batch next : Batch σ} {image : CodeImage} {handler : Handler σ}

theorem turns_spent (spent : batch.budget = 0) : batch.turns image handler = [] := by
  rw [turns, dif_pos spent]

theorem run_spent (spent : batch.budget = 0) :
    batch.run image handler = (batch, .exhausted) := by
  rw [run, dif_pos spent]

theorem turns_running (funded : batch.budget ≠ 0)
    (running : batch.turn image handler = .running next) :
    batch.turns image handler = batch.take image handler :: next.turns image handler := by
  rw [turns, dif_neg funded]
  split
  · rename_i other taken
    rw [running] at taken
    cases taken
    rfl
  · rename_i ended
    exact absurd running (ended next)

theorem run_running (funded : batch.budget ≠ 0)
    (running : batch.turn image handler = .running next) :
    batch.run image handler = next.run image handler := by
  rw [run, dif_neg funded]
  split
  · rename_i other taken
    rw [running] at taken
    cases taken
    rfl
  · rename_i taken
    simp [running] at taken
  · rename_i taken
    simp [running] at taken

theorem turns_ended (funded : batch.budget ≠ 0)
    (ended : (batch.turn image handler).goesOn = false) :
    batch.turns image handler = [batch.take image handler] := by
  rw [turns, dif_neg funded]
  split
  · rename_i next taken
    simp [taken, Turn.goesOn] at ended
  · rfl

theorem run_ended (funded : batch.budget ≠ 0)
    (ended : (batch.turn image handler).goesOn = false) :
    batch.run image handler =
      ((batch.turn image handler).batch, (batch.turn image handler).ending) := by
  rw [run, dif_neg funded]
  split
  · rename_i next taken
    simp [taken, Turn.goesOn] at ended
  · rename_i halt last taken
    rw [taken]
    rfl
  · rename_i cause last taken
    rw [taken]
    rfl

/-- Induction along a run: a batch whose budget is spent, one whose next turn goes on, one whose
next turn ends the run. -/
@[elab_as_elim]
theorem run_induction {motive : Batch σ → Prop} (image : CodeImage) (handler : Handler σ)
    (spent : ∀ batch : Batch σ, batch.budget = 0 → motive batch)
    (running : ∀ batch next : Batch σ, batch.budget ≠ 0 →
      batch.turn image handler = .running next → motive next → motive batch)
    (ended : ∀ batch : Batch σ, batch.budget ≠ 0 →
      (batch.turn image handler).goesOn = false → motive batch)
    (batch : Batch σ) : motive batch := by
  by_cases funded : batch.budget = 0
  · exact spent batch funded
  · rcases (batch.turn image handler).running_or_ended with ⟨next, taken⟩ | last
    · have closer : next.measure < batch.measure := measure_turn funded taken
      exact running batch next funded taken
        (run_induction image handler spent running ended next)
    · exact ended batch funded last
termination_by batch.measure

/-- The first turn of a run, and those after it. -/
theorem turns_cons {taken : Taken σ} {later : List (Taken σ)}
    (shape : batch.turns image handler = taken :: later) :
    taken.start = batch ∧ taken.Faithful image handler ∧
      ((∃ next, taken.turn = .running next ∧ later = next.turns image handler) ∨
        (taken.turn.goesOn = false ∧ later = [])) := by
  have funded : batch.budget ≠ 0 := by
    intro spent
    simp [turns_spent spent] at shape
  rcases (batch.turn image handler).running_or_ended with ⟨next, running⟩ | ended
  · rw [turns_running funded running] at shape
    cases shape
    exact ⟨rfl, ⟨funded, rfl, rfl⟩, Or.inl ⟨next, running, rfl⟩⟩
  · rw [turns_ended funded ended] at shape
    cases shape
    exact ⟨rfl, ⟨funded, rfl, rfl⟩, Or.inr ⟨ended, rfl⟩⟩

theorem turns_eq_nil_iff : batch.turns image handler = [] ↔ batch.budget = 0 := by
  constructor
  · intro empty
    by_cases funded : batch.budget = 0
    · exact funded
    · rcases (batch.turn image handler).running_or_ended with ⟨next, running⟩ | ended
      · simp [turns_running funded running] at empty
      · simp [turns_ended funded ended] at empty
  · exact turns_spent

/-- From any of its turns on, a run is the run of the batch that the turn started from. -/
theorem turns_split {earlier later : List (Taken σ)} {taken : Taken σ}
    (shape : batch.turns image handler = earlier ++ taken :: later) :
    taken.start.turns image handler = taken :: later ∧
      batch.run image handler = taken.start.run image handler := by
  induction earlier generalizing batch with
  | nil =>
      obtain ⟨rfl, _⟩ := turns_cons shape
      exact ⟨shape, rfl⟩
  | cons first rest inductionHypothesis =>
      obtain ⟨rfl, faithful, ⟨next, running, following⟩ | ⟨_, empty⟩⟩ := turns_cons shape
      · obtain ⟨same, run⟩ := inductionHypothesis following.symm
        exact ⟨same, (run_running faithful.funded (faithful.turn ▸ running)).trans run⟩
      · simp at empty

theorem faithful_of_turns {earlier later : List (Taken σ)} {taken : Taken σ}
    (shape : batch.turns image handler = earlier ++ taken :: later) :
    taken.Faithful image handler :=
  (turns_cons (turns_split shape).1).2.1

/-- The first turn of a run starts from the batch that is run. -/
theorem start_of_turns {later : List (Taken σ)} {taken : Taken σ}
    (shape : batch.turns image handler = taken :: later) : taken.start = batch :=
  (turns_cons shape).1

/-- Each further turn starts where the one before it left off. -/
theorem turns_adjacent {earlier later : List (Taken σ)} {first second : Taken σ}
    (shape : batch.turns image handler = earlier ++ first :: second :: later) :
    first.turn = .running second.start := by
  obtain ⟨_, _, ⟨next, running, following⟩ | ⟨_, empty⟩⟩ := turns_cons (turns_split shape).1
  · rw [start_of_turns following.symm]
    exact running
  · simp at empty

theorem later_of_running {earlier later : List (Taken σ)} {taken : Taken σ}
    (shape : batch.turns image handler = earlier ++ taken :: later)
    (running : taken.turn = .running next) : later = next.turns image handler := by
  obtain ⟨_, _, ⟨other, goesOn, following⟩ | ⟨ended, _⟩⟩ := turns_cons (turns_split shape).1
  · rw [running] at goesOn
    cases goesOn
    exact following
  · rw [running] at ended
    cases ended

theorem later_of_ended {earlier later : List (Taken σ)} {taken : Taken σ}
    (shape : batch.turns image handler = earlier ++ taken :: later)
    (ended : taken.turn.goesOn = false) : later = [] := by
  obtain ⟨_, _, ⟨other, goesOn, _⟩ | ⟨_, empty⟩⟩ := turns_cons (turns_split shape).1
  · rw [goesOn] at ended
    cases ended
  · exact empty

/-- Only the last turn of a run can end it. -/
theorem goesOn_of_turns {earlier later : List (Taken σ)} {taken : Taken σ}
    (shape : batch.turns image handler = earlier ++ taken :: later) :
    ∀ previous ∈ earlier, previous.turn.goesOn := by
  induction earlier generalizing batch with
  | nil => simp
  | cons first rest inductionHypothesis =>
      obtain ⟨_, _, ⟨next, running, following⟩ | ⟨_, empty⟩⟩ := turns_cons shape
      · intro previous member
        rcases List.mem_cons.1 member with rfl | member
        · rw [running]
          rfl
        · exact inductionHypothesis following.symm previous member
      · simp at empty

/-- A run that took a turn ends as its last turn did. -/
theorem run_eq_of_turns {earlier : List (Taken σ)} {taken : Taken σ}
    (shape : batch.turns image handler = earlier ++ [taken]) :
    batch.run image handler = (taken.finish, taken.turn.ending) := by
  obtain ⟨same, run⟩ := turns_split shape
  obtain ⟨_, faithful, ⟨next, running, following⟩ | ⟨ended, _⟩⟩ := turns_cons same
  · have spent : next.budget = 0 := turns_eq_nil_iff.1 following.symm
    rw [run, run_running faithful.funded (faithful.turn ▸ running), run_spent spent]
    rw [Taken.finish, running, Turn.batch, Turn.ending]
  · rw [faithful.turn] at ended
    rw [run, run_ended faithful.funded ended, Taken.finish, faithful.turn]

/-- Only a batch whose budget is spent ends without being ended. -/
theorem spent_of_exhausted (exhausted : (batch.run image handler).2 = .exhausted) :
    (batch.run image handler).1.budget = 0 := by
  induction batch using run_induction image handler with
  | spent batch spent => rw [run_spent spent, spent]
  | running batch next funded running inductionHypothesis =>
      rw [run_running funded running] at exhausted ⊢
      exact inductionHypothesis exhausted
  | ended batch funded ended =>
      rw [run_ended funded ended] at exhausted
      exact absurd exhausted (Turn.ending_ne_exhausted ended)

theorem calls_spent (spent : batch.budget = 0) : batch.calls image handler = [] := by
  rw [calls, turns_spent spent, List.filterMap_nil]

theorem calls_running (funded : batch.budget ≠ 0)
    (running : batch.turn image handler = .running next) :
    batch.calls image handler =
      (batch.take image handler).call?.toList ++ next.calls image handler := by
  rw [calls, turns_running funded running, List.filterMap_cons]
  cases (batch.take image handler).call? <;> rfl

theorem calls_ended (funded : batch.budget ≠ 0)
    (ended : (batch.turn image handler).goesOn = false) :
    batch.calls image handler = (batch.take image handler).call?.toList := by
  rw [calls, turns_ended funded ended, List.filterMap_cons, List.filterMap_nil]
  cases (batch.take image handler).call? <;> rfl

end Batch

/-- A host that answers every interrupt by going on at an address. -/
def Handler.resumeAt (pc : Word) : Handler σ := fun _ host =>
  ({ host with registers := host.registers.setPc pc }, none)

/-! ## The runs of a processor -/

namespace Processor

/-- The turns of a run; there are none when nothing is to be run or no code is found. -/
def turns (processor : Processor σ) (handler : Handler σ) (count : Nat) : List (Taken σ) :=
  match processor.imageAt (processor.batch count).core.pc with
  | .ok image => (processor.batch count).turns image handler
  | .error _ => []

/-- The calls of the host that a run makes, in order. -/
def calls (processor : Processor σ) (handler : Handler σ) (count : Nat) : List (Byte × Host σ) :=
  (processor.turns handler count).filterMap Taken.call?

variable {processor : Processor σ} {handler : Handler σ} {count : Nat}

theorem turns_eq {image : CodeImage}
    (found : processor.imageAt (processor.batch count).core.pc = .ok image) :
    processor.turns handler count = (processor.batch count).turns image handler := by
  rw [turns, found]

theorem calls_eq {image : CodeImage}
    (found : processor.imageAt (processor.batch count).core.pc = .ok image) :
    processor.calls handler count = (processor.batch count).calls image handler := by
  rw [calls, turns_eq found, Batch.calls]

theorem turns_zero : processor.turns handler 0 = [] := by
  rw [turns]
  split
  · exact Batch.turns_spent rfl
  · rfl

theorem calls_zero : processor.calls handler 0 = [] := by
  rw [calls, turns_zero, List.filterMap_nil]

theorem run_zero : processor.run handler 0 =
    (processor.absorb processor.image (processor.batch 0), .exhausted) := by
  rw [run, if_pos rfl]

theorem run_unfound (some_ : count ≠ 0) {access : InvalidAccess}
    (refused : processor.imageAt (processor.batch count).core.pc = .error access) :
    processor.run handler count =
      (processor.absorb processor.image (processor.batch count),
        .faulted (.invalidAccess access)) := by
  rw [run, if_neg some_, refused]

theorem run_found (some_ : count ≠ 0) {image : CodeImage}
    (found : processor.imageAt (processor.batch count).core.pc = .ok image) :
    processor.run handler count =
      (processor.absorb (some image) ((processor.batch count).run image handler).1,
        ((processor.batch count).run image handler).2) := by
  rw [run, if_neg some_, found]

/-- With its code snapshot taken, a processor runs its batch on it, whatever the count. -/
theorem run_of_image {image : CodeImage} (taken : processor.image = some image) :
    processor.run handler count =
      (processor.absorb (some image) ((processor.batch count).run image handler).1,
        ((processor.batch count).run image handler).2) := by
  by_cases none_ : count = 0
  · have spent : (processor.batch count).budget = 0 := none_
    rw [Batch.run_spent spent, none_, run_zero, taken]
  · exact run_found none_ (by rw [imageAt, taken])

/-- A run that takes a turn has found its code, and runs its batch on it. -/
theorem turns_split {earlier later : List (Taken σ)} {taken : Taken σ}
    (shape : processor.turns handler count = earlier ++ taken :: later) :
    ∃ image, processor.imageAt (processor.batch count).core.pc = .ok image ∧
      (processor.batch count).turns image handler = earlier ++ taken :: later ∧
      processor.run handler count =
        (processor.absorb (some image) ((processor.batch count).run image handler).1,
          ((processor.batch count).run image handler).2) := by
  cases found : processor.imageAt (processor.batch count).core.pc with
  | error access => simp [turns, found] at shape
  | ok image =>
      rw [turns_eq found] at shape
      have some_ : count ≠ 0 := by
        intro none_
        have spent : (processor.batch count).budget = 0 := none_
        simp [Batch.turns_spent spent] at shape
      exact ⟨image, rfl, shape, run_found some_ found⟩

theorem turns_at {index : Nat} (bound : index < (processor.turns handler count).length) :
    processor.turns handler count =
      (processor.turns handler count).take index ++
        (processor.turns handler count)[index] ::
          (processor.turns handler count).drop (index + 1) := by
  rw [← List.drop_eq_getElem_cons, List.take_append_drop]

/-- A turn starts with the run, or where the turn before it left off. -/
theorem start_of_turns {earlier later : List (Taken σ)} {taken : Taken σ}
    (shape : processor.turns handler count = earlier ++ taken :: later) :
    (earlier = [] → taken.start = processor.batch count) ∧
      ∀ previous ∈ earlier.getLast?, previous.turn = .running taken.start := by
  obtain ⟨image, _, split, _⟩ := turns_split shape
  constructor
  · rintro rfl
    exact Batch.start_of_turns split
  · intro previous last
    obtain ⟨before, rfl⟩ := List.getLast?_eq_some_iff.1 last
    rw [List.append_assoc, List.singleton_append] at split
    exact Batch.turns_adjacent split

/-- A run that took a turn leaves what its last turn left. -/
theorem run_eq_of_turns {earlier : List (Taken σ)} {taken : Taken σ}
    (shape : processor.turns handler count = earlier ++ [taken]) :
    ∃ image, processor.run handler count =
      (processor.absorb (some image) taken.finish, taken.turn.ending) := by
  obtain ⟨image, _, split, run⟩ := turns_split shape
  rw [Batch.run_eq_of_turns split] at run
  exact ⟨image, run⟩

/-- A processor that has not run, at the first of some instruction words. They lie in read-only
memory from address 0 on, and every register is zero. -/
def ofWords (words : List Halfword) : Processor Unit :=
  create
    { registers := .zero
      memory :=
        { config := ⟨false⟩
          regions :=
            [{ name := "code"
               region := ⟨0, BitVec.ofNat 32 (2 * words.length)⟩
               access := .readOnly
               contents :=
                 .ofBytes (words.flatMap fun word => LittleEndian.bytes 2 word.toNat) }] }
      state := () }

/-- The processors that a host comes to hold: one that has not run, one after a run with any
handler, one whose registers, memory or host state were changed between runs. -/
inductive Reachable : Processor σ → Prop where
  | create (host : Host σ) : Reachable (create host)
  | run {processor : Processor σ} (handler : Handler σ) (count : Nat)
      (before : Reachable processor) : Reachable (processor.run handler count).1
  | change {processor : Processor σ} (host : Host σ) (before : Reachable processor) :
      Reachable { processor with host }

end Processor

end ThumbMachine
