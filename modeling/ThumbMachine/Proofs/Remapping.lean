/-
Module: ThumbMachine.Proofs.Remapping
Purpose: A host that maps what a load or store was refused can go on: running the rest of the count
  comes to what one run would have come to with that region mapped before.
Main exports: MappedRegion.Grants, Transfer.perform_granted, Processor.RefusedAt,
  Processor.run_remapped
-/
import ThumbMachine.Proofs.Faults
import ThumbMachine.Proofs.Indifference
import ThumbMachine.Proofs.Slicing

namespace ThumbMachine

variable {σ : Type}

/-! ## What one more region grants -/

theorem eq_error_of_map {α β ε : Type} {outcome : Except ε α} {change : α → β} {error : ε}
    (refused : outcome.map change = .error error) : outcome = .error error := by
  cases outcome with
  | ok result => cases refused
  | error other =>
      cases refused
      rfl

namespace Memory

variable {memory : Memory} {mapped : MappedRegion} {address : Word} {access : InvalidAccess}

/-- A range in a region that overlaps none of those mapped before is found there. -/
theorem locate?_extend_of_clear
    (clear : ∀ region ∈ memory.layout, region.overlaps mapped.region = false) {length : Nat}
    (some_ : 0 < length) (holds : mapped.holds address length) :
    (memory.extend mapped).locate? address length = some mapped := by
  have absent : memory.locate? address length = none := by
    apply locate?_eq_none_iff.2
    intro found member
    rw [Bool.eq_false_iff]
    intro held
    have overlap := Region.overlaps_of_contains some_ held holds
    rw [clear found.region (List.mem_map_of_mem member)] at overlap
    cases overlap
  rw [locate?] at absent
  rw [locate?, extend, List.find?_append, absent, Option.none_or, List.find?_singleton, holds]
  rfl

end Memory

/-- A writable region that overlaps none of those mapped before it and holds the bytes of an access,
which is aligned as memory asks. -/
structure MappedRegion.Grants (mapped : MappedRegion) (memory : Memory) (access : InvalidAccess) :
    Prop where
  clear : ∀ region ∈ memory.layout, region.overlaps mapped.region = false
  writable : mapped.access = .readWrite
  holds : mapped.holds access.address access.size.toNat
  aligned : memory.aligned access.address access.size.toNat

namespace Datum

variable {datum : Datum} {memory : Memory} {address value : Word} {access : InvalidAccess}
  {mapped : MappedRegion}

/-- The region that grants the access of a datum is found at its address. -/
theorem granted (grants : mapped.Grants memory (.of address datum.bytes)) :
    memory.aligned address datum.bytes ∧
      (memory.extend mapped).locate? address datum.bytes = some mapped := by
  have size : (InvalidAccess.of address datum.bytes).size.toNat = datum.bytes := by
    cases datum <;> rfl
  have some_ : 0 < datum.bytes := by
    cases datum <;> decide
  have aligned := grants.aligned
  have holds := grants.holds
  rw [size] at aligned holds
  exact ⟨aligned, Memory.locate?_extend_of_clear grants.clear some_ holds⟩

theorem read_granted (refused : datum.read memory address = .error access)
    (grants : mapped.Grants memory access) :
    ∃ value, datum.read (memory.extend mapped) address = .ok value := by
  obtain ⟨ofBytes, eq⟩ := datum.read_eq address
  rw [eq] at refused
  obtain rfl := Memory.eq_of_readBytes_refused (eq_error_of_map refused)
  obtain ⟨aligned, located⟩ := granted grants
  have sameAligned : (memory.extend mapped).aligned address datum.bytes := aligned
  rw [eq, Memory.readBytes, if_pos sameAligned, located]
  exact ⟨_, rfl⟩

theorem write_granted (refused : datum.write memory address value = .error access)
    (grants : mapped.Grants memory access) :
    ∃ next, datum.write (memory.extend mapped) address value = .ok next := by
  obtain ⟨bytes, length, eq⟩ := datum.write_eq address value
  rw [eq] at refused
  have named := Memory.eq_of_writeBytes_refused refused
  rw [length] at named
  subst named
  obtain ⟨aligned, located⟩ := granted grants
  rw [← length] at aligned located
  rw [eq]
  exact ⟨_, Memory.writeBytes_eq_ok_iff.2 ⟨aligned, ⟨mapped, located, grants.writable⟩, rfl⟩⟩

end Datum

namespace Transfer

theorem eq_error_of_deliver {transfer : Transfer} {machine : Machine}
    {loaded : Except InvalidAccess Word} {access : InvalidAccess}
    (refused : (transfer.deliver machine loaded).fault = some (.invalidAccess access)) :
    loaded = .error access := by
  cases loaded with
  | ok value => cases refused
  | error other =>
      cases refused
      rfl

/-- A refused load or store completes once its bytes lie in RAM that was mapped since. -/
theorem perform_granted {transfer : Transfer} {machine : Machine} {access : InvalidAccess}
    {mapped : MappedRegion}
    (refused : (transfer.perform machine).fault = some (.invalidAccess access))
    (grants : mapped.Grants machine.memory access) :
    (transfer.perform (machine.extend mapped)).fault = none := by
  obtain ⟨kind, address, register⟩ := transfer
  cases kind with
  | store datum =>
      have written : datum.write machine.memory address (machine.core.read register.wide) =
          .error access := by
        simp only [perform] at refused
        split at refused
        · cases refused
        · rename_i written
          cases refused
          exact written
      obtain ⟨next, granted⟩ := Datum.write_granted written grants
      simp only [perform, Machine.extend, granted]
      rfl
  | load datum =>
      obtain ⟨value, granted⟩ := Datum.read_granted (eq_error_of_deliver refused) grants
      simp only [perform, Machine.extend, granted]
      rfl
  | loadSigned datum =>
      obtain ⟨value, granted⟩ :=
        Datum.read_granted (eq_error_of_map (eq_error_of_deliver refused)) grants
      simp only [perform, Machine.extend, granted]
      rfl

end Transfer

/-! ## Going on after a refused transfer -/

theorem transfer_ordinary (format : TransferFormat) (code : Byte) :
    Instruction.transfer format ≠ .softwareInterrupt code :=
  fun same => nomatch same

namespace Taken

/-- Whether the turn executes a load or store of one datum. -/
def transfersOne (taken : Taken σ) : Bool :=
  match taken.instruction? with
  | some (.transfer _) => true
  | _ => false

theorem exists_of_transfersOne {taken : Taken σ} (transfers : taken.transfersOne) :
    ∃ format, taken.instruction? = some (.transfer format) := by
  rw [transfersOne] at transfers
  split at transfers
  · rename_i format executes
    exact ⟨format, executes⟩
  · cases transfers

/-- A turn that met a fault with its instruction decoded has executed it. -/
theorem Faithful.executed_of_faulted {taken : Taken σ} {image : CodeImage} {handler : Handler σ}
    (faithful : taken.Faithful image handler) {instruction : Instruction}
    (executes : taken.instruction? = some instruction) {cause : Fault} {last : Batch σ}
    (faulted : taken.turn = .faulted cause last) :
    ∃ word, image.fetch taken.start.core.pc = .ok word ∧ decode word = .ok instruction ∧
      (execute word instruction taken.start.machine).fault = some cause := by
  obtain ⟨word, fetched, decoded⟩ := faithful.decoded_of_instruction? executes
  refine ⟨word, fetched, decoded, ?_⟩
  have course := faithful.course
  rw [faulted] at course
  cases course with
  | unfetched refused =>
      rw [fetched] at refused
      cases refused
  | undecoded otherFetched undecoded =>
      rw [fetched] at otherFetched
      cases otherFetched
      rw [decoded] at undecoded
      cases undecoded
  | failed otherFetched otherDecoded _ executed =>
      rw [fetched] at otherFetched
      cases otherFetched
      rw [decoded] at otherDecoded
      cases otherDecoded
      rw [executed]

end Taken

theorem Batch.head?_turns {batch : Batch σ} {image : CodeImage} {handler : Handler σ}
    (funded : batch.budget ≠ 0) :
    (batch.turns image handler).head? = some (batch.take image handler) := by
  rcases (batch.turn image handler).running_or_ended with ⟨next, running⟩ | ended
  · rw [turns_running funded running, List.head?_cons]
  · rw [turns_ended funded ended, List.head?_cons]

namespace Processor

/-- The processor with another memory. -/
def setMemory (processor : Processor σ) (memory : Memory) : Processor σ :=
  { processor with host := { processor.host with memory } }

/-- The processor with one more region in its memory, mapped last. -/
def extend (processor : Processor σ) (mapped : MappedRegion) : Processor σ :=
  processor.setMemory (processor.host.memory.extend mapped)

/-- A run that ended with a turn whose load or store was refused, after some units were charged. The
turn started on the rest of the budget, and has changed neither the core nor what the host owns. -/
structure RefusedAt (processor : Processor σ) (count charged : Nat) (access : InvalidAccess)
    (image : CodeImage) (earlier : List (Taken σ)) (taken : Taken σ) (format : TransferFormat) :
    Prop where
  found : processor.imageAt (processor.batch count).core.pc = .ok image
  turns : (processor.batch count).turns image .refuseAll = earlier ++ [taken]
  executes : taken.instruction? = some (.transfer format)
  faulted : taken.turn = .faulted (.invalidAccess access) taken.finish
  core : taken.finish.core = taken.start.core
  host : taken.finish.host = taken.start.host
  even : odd taken.start.core.pc = false
  budget : taken.start.budget = count - charged
  retired : taken.start.retired = charged
  left : (processor.run .refuseAll count).1 = processor.absorb (some image) taken.finish
  executed : (processor.run .refuseAll count).1.executed = processor.executed + charged

variable {processor : Processor σ} {count charged : Nat}

theorem refusedAt_of_run (reachable : Reachable processor)
    (transfer : Taken.LastIs (·.transfersOne) (processor.turns .refuseAll count))
    {access : InvalidAccess}
    (refused : (processor.run .refuseAll count).2 = .faulted (.invalidAccess access))
    (executed : (processor.run .refuseAll count).1.executed = processor.executed + charged) :
    ∃ image earlier taken format,
      RefusedAt processor count charged access image earlier taken format := by
  obtain ⟨taken, isLast, transfers⟩ := transfer
  obtain ⟨earlier, shape⟩ := List.getLast?_eq_some_iff.1 isLast
  obtain ⟨image, found, split, run⟩ := turns_split shape
  obtain ⟨format, executes⟩ := Taken.exists_of_transfersOne transfers
  have faithful := Batch.faithful_of_turns split
  rw [Batch.run_eq_of_turns split] at run
  rw [run] at refused
  have faulted := Turn.eq_faulted refused
  have incomplete : taken.turn.completes = false := by rw [faulted]; rfl
  obtain ⟨_, uncharged⟩ := faithful.spent_of_incomplete incomplete
  have account := Batch.start_account split
  obtain ⟨core, host⟩ := (faithful.faultedOn faulted).kept (by
    rw [executes]
    rintro _ ⟨⟩
    rfl)
  obtain ⟨word, fetched, _⟩ := faithful.decoded_of_instruction? executes
  have total : processor.executed + taken.finish.retired = processor.executed + charged := by
    rw [← executed, run]
    rfl
  have whole : (processor.batch count).budget + (processor.batch count).retired = count := rfl
  refine ⟨image, earlier, taken, format, ?_⟩
  exact
    { found
      turns := split
      executes
      faulted
      core
      host
      even := CodeImage.fetch_even (imageAt_even reachable.image_even found) fetched
      budget := by omega
      retired := by omega
      left := by rw [run]
      executed }

/-- A run finds the same code with one more region mapped. -/
theorem imageAt_extend {pc : Word} {image : CodeImage} (found : processor.imageAt pc = .ok image)
    (mapped : MappedRegion) : (processor.extend mapped).imageAt pc = .ok image := by
  have same : (processor.extend mapped).image = processor.image := rfl
  rw [imageAt] at found
  rw [imageAt, same]
  split at found
  · exact found
  · exact CodeImage.build_extend found mapped

namespace RefusedAt

variable {access : InvalidAccess} {image : CodeImage} {earlier : List (Taken σ)} {taken : Taken σ}
  {format : TransferFormat}
  (refusal : RefusedAt processor count charged access image earlier taken format)

include refusal

theorem faithful : taken.Faithful image .refuseAll :=
  Batch.faithful_of_turns refusal.turns

theorem decoded :
    ∃ word, image.fetch taken.start.core.pc = .ok word ∧ decode word = .ok (.transfer format) :=
  refusal.faithful.decoded_of_instruction? refusal.executes

theorem rest_ne_zero : count - charged ≠ 0 := by
  rw [← refusal.budget]
  exact refusal.faithful.funded

theorem memory :
    (processor.run .refuseAll count).1.host.memory = taken.start.host.memory := by
  rw [refusal.left]
  change taken.finish.host.memory = taken.start.host.memory
  rw [refusal.host]

theorem image_extend (mapped : MappedRegion) :
    ((processor.run .refuseAll count).1.extend mapped).image = some image := by
  rw [refusal.left]
  rfl

/-- With one more region mapped before it, the run goes as far as before, and then on from there. -/
theorem run_once (mapped : MappedRegion) :
    (processor.extend mapped).run .refuseAll count =
      ((processor.extend mapped).absorb (some image)
          ((taken.start.extend mapped).run image .refuseAll).1,
        ((taken.start.extend mapped).run image .refuseAll).2) := by
  have some_ : count ≠ 0 := by
    have rest := refusal.rest_ne_zero
    omega
  rw [run_found some_ (imageAt_extend refusal.found mapped),
    ← Batch.run_extend refusal.turns mapped]
  rfl

/-- The batch that goes on after one more region was mapped is alike to the one that, with that
region, the refused turn would have started from. -/
theorem retry_alike (mapped : MappedRegion) :
    Batch.Alike charged 0
      (((processor.run .refuseAll count).1.extend mapped).batch (count - charged))
      ((taken.start.extend mapped).settled.recording taken.finish.history) where
  core := by
    rw [refusal.left]
    change (Core.ofFile taken.finish.core.toFile).Alike taken.start.core
    rw [refusal.core]
    exact Core.ofFile_toFile_alike refusal.even
  memory := congrArg (Memory.extend · mapped) refusal.memory
  state := by
    rw [refusal.left]
    change taken.finish.host.state = taken.start.host.state
    rw [refusal.host]
  history := by
    rw [refusal.left]
    rfl
  refunded := rfl
  budget := refusal.budget
  retired := refusal.retired.trans (Nat.zero_add charged).symm

/-- Running the rest of the count comes to what one run comes to with the region mapped before, but
for the history. -/
theorem run_retry (mapped : MappedRegion) :
    ∃ history,
      ((processor.run .refuseAll count).1.extend mapped).run .refuseAll (count - charged) =
        ({ ((processor.extend mapped).run .refuseAll count).1 with history },
          ((processor.extend mapped).run .refuseAll count).2) := by
  obtain ⟨word, fetched, decoded⟩ := refusal.decoded
  obtain ⟨ending, settled⟩ :=
    (taken.start.extend mapped).run_settled .refuseAll refusal.faithful.funded fetched decoded
      (transfer_ordinary format) rfl
  obtain ⟨history, recorded⟩ := (taken.start.extend mapped).settled.run_recording image .refuseAll
    taken.finish.history
  obtain ⟨ends, sameEnding, _⟩ := (refusal.retry_alike mapped).run_same image .refuseAll
  rw [recorded] at ends sameEnding
  have executed : ((processor.run .refuseAll count).1.extend mapped).executed =
    (processor.extend mapped).executed + charged := refusal.executed
  refine ⟨history, ?_⟩
  rw [refusal.run_once, run_of_image (refusal.image_extend mapped), absorb_alike ends executed,
    ← sameEnding, ending]
  -- The history is kept apart, and packing the core drops the refund mark.
  let pack (last : Batch σ) : Processor σ :=
    (processor.extend mapped).absorb (some image) (last.recording history)
  have packed : pack (Batch.settled _) = pack (Batch.settled _) := congrArg pack settled
  exact Prod.ext packed rfl

/-- The retried turn goes on if the one that was never refused does. -/
theorem retry_goesOn (mapped : MappedRegion) :
    ((((processor.run .refuseAll count).1.extend mapped).batch (count - charged)).turn image
        .refuseAll).goesOn =
      ((taken.start.extend mapped).turn image .refuseAll).goesOn := by
  obtain ⟨word, fetched, decoded⟩ := refusal.decoded
  have alike := refusal.retry_alike mapped
  obtain ⟨history, recorded⟩ := (taken.start.extend mapped).settled.turn_recording image .refuseAll
    taken.finish.history
  rw [(alike.turn refusal.rest_ne_zero image .refuseAll).goesOn, recorded, Turn.recording_goesOn]
  rcases (taken.start.extend mapped).turn_settled .refuseAll fetched decoded
    (transfer_ordinary format) rfl with ⟨next, turn, settled⟩ | ⟨cause, last, turn, settled⟩
  · rw [turn, settled]
  · rw [turn, settled]
    rfl

/-- A region that grants the refused access lets the turn go on. -/
theorem goesOn_of_granted {mapped : MappedRegion}
    (grants : mapped.Grants taken.start.host.memory access) :
    ((taken.start.extend mapped).turn image .refuseAll).goesOn := by
  obtain ⟨word, fetched, decoded, refused⟩ :=
    refusal.faithful.executed_of_faulted refusal.executes refusal.faulted
  have sameFetch : image.fetch (taken.start.extend mapped).core.pc = .ok word := fetched
  have completes : (execute word (.transfer format)
      ((taken.start.extend mapped).fetch word).machine).fault = none :=
    Transfer.perform_granted refused grants
  rw [Batch.turn_of_decoded sameFetch decoded (transfer_ordinary format), Batch.step_eq]
  generalize execute word (.transfer format) ((taken.start.extend mapped).fetch word).machine =
    step at completes ⊢
  obtain ⟨machine, fault⟩ := step
  cases completes
  rfl

/-- So the retried turn, which executes the same instruction, completes. -/
theorem retry_granted {mapped : MappedRegion}
    (grants : mapped.Grants taken.start.host.memory access) :
    ∃ retried ∈ (((processor.run .refuseAll count).1.extend mapped).turns .refuseAll
      (count - charged)).head?, retried.transfersOne ∧ retried.turn.completes := by
  have goesOn := refusal.goesOn_of_granted grants
  have alike := refusal.retry_alike mapped
  have found : ((processor.run .refuseAll count).1.extend mapped).imageAt
      (((processor.run .refuseAll count).1.extend mapped).batch (count - charged)).core.pc =
        .ok image := by
    rw [imageAt, refusal.image_extend]
  rw [← refusal.retry_goesOn] at goesOn
  rw [turns_eq found, Batch.head?_turns refusal.rest_ne_zero]
  refine ⟨_, rfl, ?_, Turn.completes_of_goesOn goesOn⟩
  have fetched : ((((processor.run .refuseAll count).1.extend mapped).batch (count - charged)).take
      image .refuseAll).fetched = taken.fetched := by
    rw [refusal.faithful.fetched, Batch.take, alike.core.pc]
    rfl
  rw [Taken.transfersOne, Taken.instruction?, fetched]
  change (match taken.instruction? with
    | some (Instruction.transfer _) => true
    | _ => false) = true
  rw [refusal.executes]

end RefusedAt

/-- Remap and retry. If a run that refuses every interrupt ends because a load or store of one datum
was refused its access, and the host then maps some RAM, wherever it is free, then that RAM could
have been mapped before the run as well; and running the rest of the count leaves the processor, but
for its history, as one run with that RAM mapped before would have left it, and ends as that one
does. If the RAM holds the refused bytes, and they are aligned as memory asks, the load or store
completes when it is retried. -/
theorem run_remapped (processor : Processor σ) (count charged : Nat) {access : InvalidAccess}
    {name : String} {start size : Word} {region : Region} {memory : Memory}
    (reachable : Reachable processor)
    (transfer : Taken.LastIs (·.transfersOne) (processor.turns .refuseAll count))
    (refused : (processor.run .refuseAll count).2 = .faulted (.invalidAccess access))
    (executed : (processor.run .refuseAll count).1.executed = processor.executed + charged)
    (mapped : (processor.run .refuseAll count).1.host.memory.mapRam name start size =
      .ok (region, memory)) :
    ∃ before, processor.host.memory.mapRam name start size = .ok (region, before) ∧
      (∃ history,
        ((processor.run .refuseAll count).1.setMemory memory).run .refuseAll (count - charged) =
          ({ ((processor.setMemory before).run .refuseAll count).1 with history },
            ((processor.setMemory before).run .refuseAll count).2)) ∧
      (region.contains access.address access.size.toNat →
        memory.aligned access.address access.size.toNat →
          ∃ retried ∈ (((processor.run .refuseAll count).1.setMemory memory).turns .refuseAll
            (count - charged)).head?, retried.transfersOne ∧ retried.turn.completes) := by
  obtain ⟨image, earlier, taken, format, refusal⟩ :=
    refusedAt_of_run reachable transfer refused executed
  have layout : (processor.run .refuseAll count).1.host.memory.layout =
      processor.host.memory.layout := by
    rw [refusal.memory]
    exact Batch.start_layout refusal.turns
  obtain ⟨accepted, rfl, rfl⟩ := Memory.map_eq_ok_iff.1 mapped
  have free : processor.host.memory.accepts start (Contents.zeros size.toNat).size := by
    rw [Memory.accepts_iff] at accepted ⊢
    rw [← layout]
    exact accepted
  refine ⟨_, Memory.map_eq_ok_iff.2 ⟨free, rfl, rfl⟩, refusal.run_retry _, ?_⟩
  intro holds aligned
  apply refusal.retry_granted
  rw [← refusal.memory]
  exact ⟨(Memory.accepts_iff.1 accepted).2, rfl, holds, aligned⟩

/-- A program that stores into memory that is not there yet, with a free first half of a BL just
before the store. -/
def storingAhead : Processor Unit := ofWords [0x2180, 0xF000, 0x6009, 0x2007]

/-- The RAM that the store needs. -/
def missingRam : MappedRegion :=
  { name := "ram", region := ⟨0x80, 16⟩, access := .readWrite, contents := .zeros 16 }

theorem run_remapped_storingAhead :
    Reachable storingAhead ∧
      Taken.LastIs (·.transfersOne) (storingAhead.turns .refuseAll 3) ∧
      (storingAhead.run .refuseAll 3).2 = .faulted (.invalidAccess ⟨0x80, 4⟩) ∧
      (storingAhead.run .refuseAll 3).1.executed = storingAhead.executed + 1 ∧
      (storingAhead.run .refuseAll 3).1.host.memory.mapRam "ram" 0x80 16 =
        .ok (⟨0x80, 16⟩, (storingAhead.run .refuseAll 3).1.host.memory.extend missingRam) ∧
      (∃ history,
        ((storingAhead.run .refuseAll 3).1.extend missingRam).run .refuseAll 2 =
          ({ ((storingAhead.extend missingRam).run .refuseAll 3).1 with history }, .exhausted)) ∧
      ∃ retried ∈ (((storingAhead.run .refuseAll 3).1.extend missingRam).turns .refuseAll 2).head?,
        retried.transfersOne ∧ retried.turn.completes := by
  have reachable : Reachable storingAhead := .create _
  have transfer : Taken.LastIs (·.transfersOne) (storingAhead.turns .refuseAll 3) := by
    decide +kernel
  have refused : (storingAhead.run .refuseAll 3).2 = .faulted (.invalidAccess ⟨0x80, 4⟩) := by
    decide +kernel
  have executed : (storingAhead.run .refuseAll 3).1.executed = storingAhead.executed + 1 := by
    decide +kernel
  have mapped : (storingAhead.run .refuseAll 3).1.host.memory.mapRam "ram" 0x80 16 =
      .ok (⟨0x80, 16⟩, (storingAhead.run .refuseAll 3).1.host.memory.extend missingRam) :=
    Memory.map_eq_ok_iff.2 ⟨by decide +kernel, rfl, rfl⟩
  have exhausted : ((storingAhead.extend missingRam).run .refuseAll 3).2 = .exhausted := by
    decide +kernel
  obtain ⟨before, free, ⟨history, retry⟩, granted⟩ :=
    run_remapped storingAhead 3 1 reachable transfer refused executed mapped
  obtain ⟨_, _, rfl⟩ := Memory.map_eq_ok_iff.1 free
  refine ⟨reachable, transfer, refused, executed, mapped, ⟨history, ?_⟩, ?_⟩
  · rw [← exhausted]
    exact retry
  · exact granted (by decide) (by decide +kernel)

end Processor

end ThumbMachine
