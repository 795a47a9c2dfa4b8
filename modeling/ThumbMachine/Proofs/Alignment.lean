/-
Module: ThumbMachine.Proofs.Alignment
Purpose: Where the program counter is even. Every way of setting it keeps bit 0 clear but one: the
  second half of a BL adds whatever bit 0 the link register has.
Main exports: execute_odd, CodeImage.fetch_even, Taken.branchesOdd, Taken.Faithful.finish_odd,
  Processor.pc_odd_iff
-/
import ThumbMachine.Proofs.Packing
import ThumbMachine.Proofs.Runs

namespace ThumbMachine

variable {σ : Type}

/-! ## Bit 0 of an address -/

theorem odd_add (left right : Word) : odd (left + right) = (odd left ^^ odd right) := by
  simp [odd, BitVec.getElem_add]

theorem odd_or (left right : Word) : odd (left ||| right) = (odd left || odd right) :=
  BitVec.getLsbD_or

theorem odd_doubled (value : Word) : odd (value <<< 1) = false := by
  simp [odd]

theorem odd_eq (address : Word) : odd address = decide (address.toNat % 2 = 1) := by
  rw [odd, ← BitVec.testBit_toNat, Nat.testBit_zero]

/-- Sign extension keeps bit 0 of a field of at least one bit. -/
theorem odd_signExtendLow (value : Word) {bits : Nat} (some_ : 0 < bits) :
    odd (signExtendLow value bits) = odd value := by
  have inside : 32 - bits + 0 < 32 := by omega
  rw [signExtendLow, odd, BitVec.getLsbD_sshiftRight, if_pos inside, BitVec.getLsbD_shiftLeft]
  rw [Nat.add_zero] at inside
  simp [odd, inside]

theorem odd_branchDistance {width : Nat} (halfwords : BitVec width) :
    odd (branchDistance halfwords) = false := by
  rw [branchDistance, odd_signExtendLow _ (Nat.succ_pos width), odd_doubled]

/-- The distance of a BL is as odd as what was parked in the link register. -/
theorem odd_longBranchOffset (parked : Word) (low : BitVec 11) :
    odd (longBranchOffset parked low) = odd parked := by
  rw [longBranchOffset, odd_signExtendLow _ (by decide), odd_or, odd_doubled,
    Bool.or_false]

/-! ## One instruction -/

namespace Core

theorem odd_nextPc (core : Core) : odd core.nextPc = odd core.pc := by
  rw [nextPc, odd_add]
  exact Bool.xor_false _

theorem odd_read_pc (core : Core) : odd (core.read Register.pc) = odd core.pc := by
  rw [read, if_pos rfl, odd_add]
  exact Bool.xor_false _

@[simp] theorem immediate_pc (core : Core) (op : ImmediateOp) (destination : LowRegister)
    (value : Byte) : (core.immediate op destination value).pc = core.pc := by
  cases op <;> rfl

@[simp] theorem alu_pc (core : Core) (op : AluOp) (source destination : LowRegister) :
    (core.alu op source destination).pc = core.pc := by
  rw [alu]
  simp only
  split <;> rfl

@[simp] theorem compareHigh_pc (core : Core) (source destination : Register) :
    (core.compareHigh source destination).pc = core.pc :=
  rfl

end Core

namespace Machine

@[simp] theorem loadList_pc (machine : Machine) (address : Word) (list : List LowRegister) :
    (machine.loadList address list).machine.core.pc = machine.core.pc := by
  induction list generalizing machine address with
  | nil => rfl
  | cons register rest inductionHypothesis =>
      rw [loadList]
      split
      · rw [inductionHypothesis]
        rfl
      · rfl

@[simp] theorem storeList_pc (machine : Machine) (address : Word) (list : List LowRegister) :
    (machine.storeList address list).machine.core.pc = machine.core.pc := by
  induction list generalizing machine address with
  | nil => rfl
  | cons register rest inductionHypothesis =>
      rw [storeList]
      split
      · rw [inductionHypothesis]
      · rfl

@[simp] theorem pushList_pc (machine : Machine) (address : Word) (list : List Register) :
    (machine.pushList address list).machine.core.pc = machine.core.pc := by
  induction list generalizing machine address with
  | nil => rfl
  | cons register rest inductionHypothesis =>
      rw [pushList]
      split
      · rw [inductionHypothesis]
      · rfl

@[simp] theorem next_odd (machine : Machine) :
    odd machine.next.machine.core.pc = odd machine.core.pc :=
  machine.core.odd_nextPc

@[simp] theorem goto_pc (machine : Machine) (target : Word) :
    (machine.goto target).machine.core.pc = target :=
  rfl

@[simp] theorem compute_odd (machine : Machine) (core : Core) :
    odd (machine.compute core).machine.core.pc = odd core.pc :=
  core.odd_nextPc

variable {machine : Machine}

/-- A result for R15 loses its bit 0. -/
theorem high_even (even : odd machine.core.pc = false) (op : HighOp)
    (source destination : Register) :
    odd (machine.high op source destination).machine.core.pc = false := by
  have delivered (value : Word) :
      odd (if destination = Register.pc then machine.goto (halfwordAligned value)
        else machine.compute (machine.core.write destination value)).machine.core.pc = false := by
    split
    · exact odd_halfwordAligned value
    · rw [compute_odd, Core.write_pc, even]
  cases op with
  | add => exact delivered _
  | mov => exact delivered _
  | cmp => rw [high, compute_odd, Core.compareHigh_pc, even]

theorem branchExchange_even (even : odd machine.core.pc = false) (source : Register) (link : Bool) :
    odd (machine.branchExchange source link).machine.core.pc = false := by
  rw [branchExchange]
  simp only
  split
  · exact odd_halfwordAligned _
  · exact even

theorem branchBy_odd (machine : Machine) (distance : Word) :
    odd (machine.branchBy distance).machine.core.pc = (odd machine.core.pc ^^ odd distance) := by
  rw [branchBy, goto_pc, odd_add, Core.odd_read_pc]

/-- The second half of a BL is the one instruction whose target is not masked. -/
theorem longBranch_odd (even : odd machine.core.pc = false) (offset : BitVec 11) :
    odd (machine.longBranch offset).machine.core.pc = odd (machine.core.read Register.lr) := by
  rw [longBranch, goto_pc, odd_add, Core.odd_nextPc, even, odd_longBranchOffset,
    Bool.false_xor]

theorem perform_even (even : odd machine.core.pc = false) (transfer : Transfer) :
    odd (transfer.perform machine).machine.core.pc = false := by
  have delivered (loaded : Except InvalidAccess Word) :
      odd (transfer.deliver machine loaded).machine.core.pc = false := by
    cases loaded with
    | ok value => exact (next_odd _).trans even
    | error access => exact even
  rw [Transfer.perform]
  split
  · split
    · exact (next_odd _).trans even
    · exact even
  · exact delivered _
  · exact delivered _

theorem writeBack_odd (transfer : ListTransfer) (register : Register) :
    odd (transfer.writeBack register).machine.core.pc = odd transfer.machine.core.pc := by
  rw [ListTransfer.writeBack]
  split
  · exact next_odd _
  · rfl

theorem blockTransfer_even (even : odd machine.core.pc = false) (direction : Direction)
    (base : LowRegister) (list : Byte) :
    odd (machine.blockTransfer direction base list).machine.core.pc = false := by
  cases direction with
  | store => rw [blockTransfer, writeBack_odd, storeList_pc, even]
  | load => rw [blockTransfer, writeBack_odd, loadList_pc, even]

theorem push_even (even : odd machine.core.pc = false) (link : Bool) (list : Byte) :
    odd (machine.push link list).machine.core.pc = false := by
  rw [push, writeBack_odd, pushList_pc, even]

theorem pop_even (even : odd machine.core.pc = false) (branch : Bool) (list : Byte) :
    odd (machine.pop branch list).machine.core.pc = false := by
  have loaded := machine.loadList_pc (machine.core.read Register.sp) (listedRegisters list)
  rw [pop.eq_def]
  dsimp only
  split
  · split
    · exact (congrArg odd loaded).trans even
    · split
      · exact odd_halfwordAligned _
      · exact (congrArg odd loaded).trans even
  · rw [writeBack_odd, loaded, even]

end Machine

/-- Bit 0 that an instruction leaves in an even program counter: only the second half of a BL can
set it, to bit 0 of the link register. -/
def Instruction.targetOdd (instruction : Instruction) (core : Core) : Bool :=
  match instruction with
  | .longBranchLow _ => odd (core.read Register.lr)
  | _ => false

open Machine in
/-- Each instruction, completed or not, leaves the program counter as odd as its target. -/
theorem execute_odd {machine : Machine} (even : odd machine.core.pc = false) (word : Halfword)
    (instruction : Instruction) :
    odd (execute word instruction machine).machine.core.pc =
      instruction.targetOdd machine.core := by
  cases instruction with
  | shift => exact (compute_odd _ _).trans even
  | addSubtract => exact (compute_odd _ _).trans even
  | immediate => rw [execute, compute_odd, Core.immediate_pc]; exact even
  | alu => rw [execute, compute_odd, Core.alu_pc]; exact even
  | high => exact high_even even _ _ _
  | branchExchange => exact branchExchange_even even _ _
  | transfer => exact perform_even even _
  | loadAddress => exact (compute_odd _ _).trans even
  | adjustStack => exact (compute_odd _ _).trans even
  | compareBranch nonZero register halfwords =>
      rw [execute]
      split
      · rw [branchBy_odd, even, odd_doubled]
        rfl
      · exact (next_odd _).trans even
  | extend => exact (compute_odd _ _).trans even
  | reverseBytes => exact (compute_odd _ _).trans even
  | stack direction extra list =>
      cases direction with
      | store => exact push_even even _ _
      | load => exact pop_even even _ _
  | block => exact blockTransfer_even even _ _ _
  | branchIf condition halfwords =>
      rw [execute]
      split
      · rw [branchBy_odd, even, odd_branchDistance]
        rfl
      · exact (next_odd _).trans even
  | branch halfwords =>
      rw [execute, branchBy_odd, even, odd_branchDistance]
      rfl
  | longBranchHigh => exact (compute_odd _ _).trans even
  | longBranchLow => exact longBranch_odd even _
  | softwareInterrupt => exact even

/-! ## Code snapshots -/

theorem odd_ofNat_double (half : Nat) : odd (BitVec.ofNat 32 (half * 2)) = false := by
  rw [odd_eq, BitVec.toNat_ofNat]
  simp only [decide_eq_false_iff_not]
  omega

namespace CodeImage

/-- Every snapshot starts at an even address. -/
theorem build_even {memory : Memory} {pc : Word} {image : CodeImage}
    (built : build memory pc = .ok image) : odd image.base = false := by
  rw [build] at built
  cases found : memory.findRegion pc 2 with
  | error access => simp [found, bind, Except.bind] at built
  | ok region =>
      simp only [found, bind, Except.bind] at built
      split at built
      · cases built
      · cases built
        exact odd_ofNat_double _

/-- Instruction words are found at even addresses only. -/
theorem fetch_even {image : CodeImage} {pc : Word} {word : Halfword}
    (base : odd image.base = false) (fetched : image.fetch pc = .ok word) : odd pc = false := by
  rw [fetch] at fetched
  split at fetched
  · rename_i reached
    obtain ⟨above, distance⟩ := reached
    simp only [odd_eq, decide_eq_false_iff_not] at base ⊢
    omega
  · cases fetched

end CodeImage

namespace Processor

variable {processor : Processor σ}

theorem imageAt_even (even : ∀ image ∈ processor.image, odd image.base = false) {pc : Word}
    {image : CodeImage} (found : processor.imageAt pc = .ok image) : odd image.base = false := by
  rw [imageAt] at found
  split at found
  · rename_i taken same
    cases found
    exact even image same
  · exact CodeImage.build_even found

theorem Reachable.image_even (reachable : Reachable processor) :
    ∀ image ∈ processor.image, odd image.base = false := by
  induction reachable with
  | create host => simp [Processor.create]
  | @run processor handler count before inductionHypothesis =>
      by_cases none_ : count = 0
      · rw [none_, run_zero]
        exact inductionHypothesis
      · cases found : processor.imageAt (processor.batch count).core.pc with
        | error access =>
            rw [run_unfound none_ found]
            exact inductionHypothesis
        | ok image =>
            rw [run_found none_ found]
            rintro other ⟨⟩
            exact imageAt_even inductionHypothesis found
  | change host before inductionHypothesis => exact inductionHypothesis

end Processor

/-! ## Every turn -/

namespace Taken

/-- Whether a word was fetched. -/
def fetches (taken : Taken σ) : Bool := taken.fetched.toBool

/-- Whether the turn executes the second half of a BL on an odd link register. -/
def branchesOdd (taken : Taken σ) : Bool :=
  taken.instruction?.any (·.targetOdd taken.start.core)

theorem fetches_of_branchesOdd {taken : Taken σ} (branches : taken.branchesOdd) :
    taken.fetches := by
  rw [branchesOdd, instruction?] at branches
  rw [fetches]
  split at branches
  · rename_i word fetched
    rw [fetched]
    rfl
  · simp at branches

end Taken

theorem Batch.charge_core (batch : Batch σ) (instruction : Instruction) :
    (batch.charge instruction).core = batch.core := by
  rw [charge]
  split <;> rfl

namespace Taken.Faithful

variable {taken : Taken σ} {image : CodeImage} {handler : Handler σ}

/-- Once its word is fetched, only a turn that branches oddly leaves an odd program counter. -/
theorem finish_odd (faithful : taken.Faithful image handler) (base : odd image.base = false)
    (fetches : taken.fetches) : odd taken.finish.core.pc = taken.branchesOdd := by
  have course := faithful.course
  rw [finish, branchesOdd]
  generalize taken.turn = turn at course ⊢
  cases course with
  | unfetched fetched => simp [Taken.fetches, faithful.fetched, fetched, Except.toBool] at fetches
  | undecoded fetched decoded =>
      rw [faithful.instruction?_of_undecoded fetched decoded]
      exact CodeImage.fetch_even base fetched
  | resumed fetched decoded answered =>
      rw [faithful.instruction?_of_decoded fetched decoded]
      exact odd_halfwordAligned _
  | stopped fetched decoded answered =>
      rw [faithful.instruction?_of_decoded fetched decoded]
      exact (Core.odd_nextPc _).trans (odd_halfwordAligned _)
  | halted fetched decoded other answered =>
      rw [faithful.instruction?_of_decoded fetched decoded]
      exact odd_halfwordAligned _
  | @completed word instruction machine fetched decoded ordinary executed =>
      rw [faithful.instruction?_of_decoded fetched decoded, Turn.batch, Batch.charge_core]
      have even : odd taken.start.machine.core.pc = false := CodeImage.fetch_even base fetched
      have left := execute_odd even word instruction
      rw [executed] at left
      exact left
  | @failed word instruction machine cause fetched decoded ordinary executed =>
      rw [faithful.instruction?_of_decoded fetched decoded]
      have even : odd taken.start.machine.core.pc = false := CodeImage.fetch_even base fetched
      have left := execute_odd even word instruction
      rw [executed] at left
      exact left

theorem finish_unfetched (faithful : taken.Faithful image handler)
    (unfetched : taken.fetches = false) :
    taken.finish.core = taken.start.core ∧ taken.turn.goesOn = false := by
  have notFetched (word : Halfword) : image.fetch taken.start.core.pc ≠ .ok word := by
    intro fetched
    simp [fetches, faithful.fetched, fetched, Except.toBool] at unfetched
  have course := faithful.course
  rw [finish]
  generalize taken.turn = turn at course ⊢
  cases course with
  | unfetched fetched => exact ⟨rfl, rfl⟩
  | undecoded fetched => exact absurd fetched (notFetched _)
  | resumed fetched => exact absurd fetched (notFetched _)
  | stopped fetched => exact absurd fetched (notFetched _)
  | halted fetched => exact absurd fetched (notFetched _)
  | completed fetched => exact absurd fetched (notFetched _)
  | failed fetched => exact absurd fetched (notFetched _)

end Taken.Faithful

namespace Batch

open Taken

variable {batch : Batch σ} {image : CodeImage} {handler : Handler σ}

theorem fetches_of_turns {earlier later : List (Taken σ)} {taken : Taken σ}
    (shape : batch.turns image handler = earlier ++ taken :: later) :
    ∀ previous ∈ earlier, previous.fetches := by
  intro previous member
  have goesOn := goesOn_of_turns shape previous member
  obtain ⟨before, after, rfl⟩ := List.append_of_mem member
  rw [List.append_assoc, List.cons_append] at shape
  cases unfetched : previous.fetches with
  | true => rfl
  | false => simp [((faithful_of_turns shape).finish_unfetched unfetched).2] at goesOn

/-- The parity at a fetch is settled by the turn before it. -/
theorem start_odd_iff {earlier later : List (Taken σ)} {taken : Taken σ}
    (base : odd image.base = false) (even : odd batch.core.pc = false)
    (shape : batch.turns image handler = earlier ++ taken :: later) :
    odd taken.start.core.pc = true ↔ LastIs (·.branchesOdd) earlier := by
  have fetches := fetches_of_turns shape
  rcases List.eq_nil_or_concat earlier with rfl | ⟨before, previous, rfl⟩
  · rw [start_of_turns shape, even]
    simp [not_lastIs_nil]
  · rw [List.concat_eq_append] at shape fetches ⊢
    have fetched : previous.fetches := fetches previous (by simp)
    rw [List.append_assoc, List.singleton_append] at shape
    have after : taken.start = previous.finish := by
      rw [finish, turns_adjacent shape, Turn.batch]
    rw [lastIs_append, after, (faithful_of_turns shape).finish_odd base fetched]

/-- A last turn whose fetch is refused leaves the parity that it found. -/
theorem run_odd_iff (base : odd image.base = false) (even : odd batch.core.pc = false) :
    odd (batch.run image handler).1.core.pc = true ↔
      LastIs (·.branchesOdd) ((batch.turns image handler).filter fetches) := by
  rcases List.eq_nil_or_concat (batch.turns image handler) with empty | ⟨earlier, taken, shape⟩
  · rw [empty, run_spent (turns_eq_nil_iff.1 empty), even]
    simp [not_lastIs_nil]
  · rw [List.concat_eq_append] at shape
    have faithful := faithful_of_turns shape
    -- Only the last turn can have been refused its word, so the filter drops none before it.
    rw [run_eq_of_turns shape, shape, List.filter_append,
      List.filter_eq_self.2 (fetches_of_turns shape)]
    cases fetched : taken.fetches with
    | true =>
        rw [List.filter_cons, List.filter_nil, fetched, if_pos rfl, lastIs_append,
          faithful.finish_odd base fetched]
    | false =>
        rw [List.filter_cons, List.filter_nil, fetched, if_neg (by simp), List.append_nil,
          (faithful.finish_unfetched fetched).1]
        exact start_odd_iff base even shape

end Batch

namespace Processor

open Taken

variable {processor : Processor σ} {handler : Handler σ} {count : Nat}

theorem start_odd_iff (reachable : Reachable processor) {earlier later : List (Taken σ)}
    {taken : Taken σ} (shape : processor.turns handler count = earlier ++ taken :: later) :
    odd taken.start.core.pc = true ↔ LastIs (·.branchesOdd) earlier := by
  obtain ⟨image, found, split, _⟩ := turns_split shape
  exact Batch.start_odd_iff (imageAt_even reachable.image_even found)
    (odd_halfwordAligned _) split

/-- An interrupt is executed only where it was fetched, which is an even address. -/
theorem calls_even (reachable : Reachable processor) :
    ∀ call ∈ processor.calls handler count, odd call.2.registers.pc = false := by
  intro call member
  obtain ⟨taken, inTurns, made⟩ := List.mem_filterMap.1 member
  obtain ⟨earlier, later, shape⟩ := List.append_of_mem inTurns
  obtain ⟨image, found, split, _⟩ := turns_split shape
  obtain ⟨code, interrupt, rfl⟩ := instruction?_of_call? made
  obtain ⟨word, fetched, _⟩ :=
    (Batch.faithful_of_turns split).decoded_of_instruction? interrupt
  rw [Batch.handed, Core.pc_toFile]
  exact CodeImage.fetch_even (imageAt_even reachable.image_even found) fetched

theorem run_odd_iff (reachable : Reachable processor) :
    odd (processor.run handler count).1.host.registers.pc = true ↔
      LastIs (·.branchesOdd) ((processor.turns handler count).filter fetches) := by
  have even : odd (processor.batch count).core.pc = false := odd_halfwordAligned _
  by_cases none_ : count = 0
  · subst none_
    rw [turns_zero, run_zero, absorb, Core.pc_toFile, even]
    simp [not_lastIs_nil]
  · cases found : processor.imageAt (processor.batch count).core.pc with
    | error access =>
        rw [run_unfound none_ found, turns, found, absorb, Core.pc_toFile, even]
        simp [not_lastIs_nil]
    | ok image =>
        rw [run_found none_ found, turns_eq found, absorb, Core.pc_toFile]
        exact Batch.run_odd_iff (imageAt_even reachable.image_even found) even

/-- An odd branch shows at the next fetch or, without one, in the register store. -/
theorem odd_after (reachable : Reachable processor) {taken : Taken σ}
    (member : taken ∈ processor.turns handler count) (branches : taken.branchesOdd) :
    (∃ second ∈ processor.turns handler count, odd second.start.core.pc = true) ∨
      odd (processor.run handler count).1.host.registers.pc = true := by
  obtain ⟨earlier, later, shape⟩ := List.append_of_mem member
  cases later with
  | nil =>
      refine Or.inr ((run_odd_iff reachable).2 ?_)
      rw [shape, List.filter_append, List.filter_cons, fetches_of_branchesOdd branches, if_pos rfl,
        List.filter_nil, lastIs_append]
      exact branches
  | cons second rest =>
      have shape' : processor.turns handler count = (earlier ++ [taken]) ++ second :: rest := by
        rw [shape, List.append_assoc, List.singleton_append]
      have last : LastIs (·.branchesOdd) (earlier ++ [taken]) := (lastIs_append).2 branches
      exact Or.inl ⟨second, by simp [shape], (start_odd_iff reachable shape').2 last⟩

/-- Where the program counter of a processor is odd. Before a fetch it is odd exactly when the turn
before executed the second half of a BL on an odd link register; in the register store it is even at
every call of the host, and odd at the end of a run exactly when the last fetched instruction was
such a second half. So it is even throughout a run exactly when the run executes no such second
half. -/
theorem pc_odd_iff (reachable : Reachable processor) (handler : Handler σ) (count : Nat) :
    (∀ earlier taken later, processor.turns handler count = earlier ++ taken :: later →
        (odd taken.start.core.pc = true ↔ LastIs (·.branchesOdd) earlier)) ∧
      (∀ call ∈ processor.calls handler count, odd call.2.registers.pc = false) ∧
      (odd (processor.run handler count).1.host.registers.pc = true ↔
        LastIs (·.branchesOdd) ((processor.turns handler count).filter fetches)) ∧
      ((∀ taken ∈ processor.turns handler count, odd taken.start.core.pc = false) ∧
          odd (processor.run handler count).1.host.registers.pc = false ↔
        ∀ taken ∈ processor.turns handler count, taken.branchesOdd = false) := by
  refine ⟨fun _ _ _ => start_odd_iff reachable, calls_even reachable, run_odd_iff reachable, ?_⟩
  constructor
  · rintro ⟨starts, final⟩ taken member
    rw [Bool.eq_false_iff]
    intro branches
    rcases odd_after reachable member branches with ⟨second, later, start⟩ | store
    · rw [starts second later] at start
      cases start
    · rw [final] at store
      cases store
  · intro none_
    constructor
    · intro taken member
      obtain ⟨earlier, later, shape⟩ := List.append_of_mem member
      rw [Bool.eq_false_iff]
      intro isOdd
      obtain ⟨previous, before, branches⟩ :=
        exists_of_lastIs ((start_odd_iff reachable shape).1 isOdd)
      rw [none_ previous (by simp [shape, before])] at branches
      cases branches
    · rw [Bool.eq_false_iff]
      intro isOdd
      obtain ⟨taken, member, branches⟩ := exists_of_lastIs ((run_odd_iff reachable).1 isOdd)
      rw [none_ taken (List.mem_filter.1 member).1] at branches
      cases branches

/-- The second half of a BL, with an odd link register. -/
def oddLink : Processor Unit :=
  create { (ofWords [0xF800]).host with registers := RegisterFile.zero.set Register.lr.slot 1 }

/-- One instruction, and the store holds an odd program counter. -/
theorem oddLink_leaves_odd :
    Reachable oddLink ∧ odd (oddLink.run .refuseAll 1).1.host.registers.pc = true :=
  ⟨.create _, by decide +kernel⟩

theorem pc_odd_iff_oddLink :
    Reachable oddLink ∧ LastIs (·.branchesOdd) ((oddLink.turns .refuseAll 1).filter fetches) :=
  ⟨.create _, (pc_odd_iff (.create _) .refuseAll 1).2.2.1.1 (by decide +kernel)⟩

end Processor

end ThumbMachine
