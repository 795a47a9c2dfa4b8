/-
Module: ThumbMachine.Proofs.Snapshot
Purpose: Code is fetched from a snapshot. The first run that finds its code takes it, and whatever
  the guest, the host or its handlers do afterwards, instruction words are those of that moment: one
  for each even address whose two bytes lie in the code region, and none elsewhere.
Main exports: CodeImage.Shows, CodeImage.build_shows, CodeImage.build_refused, Processor.Unfound,
  Processor.Later, Processor.code_snapshot
-/
import ThumbMachine.Proofs.AddressSpace
import ThumbMachine.Proofs.Alignment

namespace ThumbMachine

variable {σ : Type}

/-! ## Taking a snapshot -/

namespace CodeImage

/-- The image is that of a region as a memory holds it: a fetch finds the halfword that memory holds
at an even address whose two bytes lie in the region, and every other fetch is refused. -/
structure Shows (image : CodeImage) (region : Region) (memory : Memory) : Prop where
  source : image.region = region
  inside : ∀ address, odd address = false → region.contains address 2 →
    ∃ word, memory.halfword? address = some word ∧ image.fetch address = .ok word
  outside : ∀ address, ¬ (odd address = false ∧ region.contains address 2) →
    image.fetch address = .error ⟨address, 2⟩

/-- The first even address from the start of a region on. -/
def baseOf (region : Region) : Nat := (region.start.toNat + 1) / 2 * 2

/-- How many halfwords a region has from its first even address on. -/
def countOf (region : Region) : Nat := (region.stop - baseOf region) / 2

/-- The image of a region from its halfwords. -/
def ofHalfwords (region : Region) (word : Nat → Halfword) : CodeImage :=
  { region
    base := BitVec.ofNat 32 (baseOf region)
    halfwords := ((List.range (countOf region)).map word).toArray }

theorem mapM_eq_ok {α β ε : Type} {action : α → Except ε β} {result : α → β} {items : List α}
    (each : ∀ item ∈ items, action item = .ok (result item)) :
    items.mapM action = .ok (items.map result) := by
  induction items with
  | nil => rfl
  | cons item rest inductionHypothesis =>
      have first := each item List.mem_cons_self
      have others := inductionHypothesis fun other member =>
        each other (List.mem_cons_of_mem item member)
      rw [List.mapM_cons, first, others]
      rfl

theorem build_of_found {memory : Memory} {pc : Word} {region : Region} {word : Nat → Halfword}
    (found : memory.findRegion pc 2 = .ok region)
    (readable : ∀ index < countOf region,
      memory.readHalfword (BitVec.ofNat 32 (baseOf region + 2 * index)) = .ok (word index)) :
    build memory pc = .ok (ofHalfwords region word) := by
  have words : (List.range (countOf region)).mapM
      (fun index => memory.readHalfword (BitVec.ofNat 32 (baseOf region + 2 * index))) =
        .ok ((List.range (countOf region)).map word) := by
    apply mapM_eq_ok
    intro index member
    exact readable index (List.mem_range.1 member)
  rw [build, found]
  change (do
    let halfwords ← (List.range (countOf region)).mapM fun index =>
      memory.readHalfword (BitVec.ofNat 32 (baseOf region + 2 * index))
    return { region, base := BitVec.ofNat 32 (baseOf region), halfwords := halfwords.toArray } :
      Except InvalidAccess CodeImage) = _
  rw [words]
  rfl

/-- Between the first even address of a region and its end, the even addresses with both bytes in
the region are those of its halfwords. -/
theorem index_of_inside {region : Region} {address : Word} (even : odd address = false)
    (contained : region.contains address 2) :
    ∃ index < countOf region, baseOf region + 2 * index = address.toNat := by
  have inside := Region.contains_iff.1 contained
  rw [odd_eq, decide_eq_false_iff_not] at even
  refine ⟨(address.toNat - baseOf region) / 2, ?_, ?_⟩
  · rw [countOf, baseOf]
    omega
  · rw [baseOf]
    omega

theorem contains_of_index {region : Region} {address : Word} {index : Nat}
    (small : index < countOf region) (place : baseOf region + 2 * index = address.toNat) :
    odd address = false ∧ region.contains address 2 := by
  rw [countOf, baseOf] at small
  rw [baseOf] at place
  constructor
  · rw [odd_eq, decide_eq_false_iff_not]
    omega
  · rw [Region.contains_iff]
    omega

theorem base_ofHalfwords {region : Region} (word : Nat → Halfword)
    (bounded : baseOf region < 0x100000000) :
    (ofHalfwords region word).base.toNat = baseOf region := by
  rw [ofHalfwords]
  exact Word.toNat_ofNat_of_lt bounded

/-- A fetch finds the halfword whose place its address is. -/
theorem fetch_ofHalfwords {region : Region} (word : Nat → Halfword) {address : Word} {index : Nat}
    (bounded : baseOf region < 0x100000000) (small : index < countOf region)
    (place : baseOf region + 2 * index = address.toNat) :
    (ofHalfwords region word).fetch address = .ok (word index) := by
  have distance : (address.toNat - baseOf region) / 2 = index := by omega
  rw [fetch, base_ofHalfwords word bounded, if_pos (by omega), distance]
  simp [ofHalfwords, small]

/-- A fetch at an address that is no halfword's place is refused. -/
theorem fetch_ofHalfwords_refused {region : Region} (word : Nat → Halfword) {address : Word}
    (bounded : baseOf region < 0x100000000)
    (absent : ¬ ∃ index < countOf region, baseOf region + 2 * index = address.toNat) :
    (ofHalfwords region word).fetch address = .error ⟨address, 2⟩ := by
  rw [fetch, base_ofHalfwords word bounded]
  split
  · rename_i reached
    have beyond : countOf region ≤ (address.toNat - baseOf region) / 2 := by
      apply Nat.le_of_not_lt
      intro small
      exact absent ⟨_, small, by omega⟩
    have none_ : (ofHalfwords region word).halfwords[(address.toNat - baseOf region) / 2]? =
        none := by
      simp [ofHalfwords, beyond]
    rw [none_]
    rfl
  · rfl

/-- A halfword of a region at an even address is aligned, so even a strict memory hands it out. -/
theorem readable_of_inside {memory : Memory} (valid : memory.Valid) {mapped : MappedRegion}
    (member : mapped ∈ memory.regions) {address : Word} (even : odd address = false)
    (inside : mapped.region.contains address 2) :
    ∃ word, memory.halfword? address = some word ∧ memory.readHalfword address = .ok word := by
  apply Memory.readHalfword_of_mem valid member _ inside
  rw [odd_eq, decide_eq_false_iff_not] at even
  have rest : address.toNat % 2 = 0 := by omega
  simp [Memory.aligned, rest]

/-- The halfword of a region that memory shows at the place of an index. -/
def shownAt (memory : Memory) (region : Region) (index : Nat) : Halfword :=
  (memory.halfword? (BitVec.ofNat 32 (baseOf region + 2 * index))).getD 0

theorem toNat_place {region : Region} (bounded : region.stop ≤ 0x100000000) {index : Nat}
    (inRange : index < countOf region) :
    baseOf region + 2 * index = (BitVec.ofNat 32 (baseOf region + 2 * index)).toNat := by
  rw [countOf] at inRange
  exact (Word.toNat_ofNat_of_lt (by omega)).symm

/-- The snapshot of a region that holds two bytes at an even address is always taken. -/
theorem build_shows {memory : Memory} (valid : memory.Valid) {mapped : MappedRegion}
    (member : mapped ∈ memory.regions) {pc : Word} (even : odd pc = false)
    (holds : mapped.holds pc 2) :
    ∃ image, build memory pc = .ok image ∧ image.Shows mapped.region memory := by
  have bounded := valid.bounded _ (List.mem_map_of_mem member)
  have found : memory.findRegion pc 2 = .ok mapped.region := by
    rw [Memory.findRegion, Memory.locate?_of_mem valid member Nat.two_pos holds]
  have small : baseOf mapped.region < 0x100000000 := by
    obtain ⟨index, _, place⟩ := index_of_inside even holds
    have := pc.isLt
    omega
  have words : ∀ index < countOf mapped.region,
      memory.readHalfword (BitVec.ofNat 32 (baseOf mapped.region + 2 * index)) =
        .ok (shownAt memory mapped.region index) := by
    intro index inRange
    obtain ⟨isEven, inside⟩ := contains_of_index inRange (toNat_place bounded inRange)
    obtain ⟨held, bytes, read⟩ := readable_of_inside valid member isEven inside
    rw [read, shownAt, bytes, Option.getD_some]
  refine ⟨ofHalfwords mapped.region (shownAt memory mapped.region), build_of_found found words,
    rfl, ?_, ?_⟩
  · intro address isEven inside
    obtain ⟨held, bytes, _⟩ := readable_of_inside valid member isEven inside
    obtain ⟨index, inRange, place⟩ := index_of_inside isEven inside
    refine ⟨held, bytes, ?_⟩
    rw [fetch_ofHalfwords _ small inRange place, shownAt, place, BitVec.ofNat_toNat,
      BitVec.setWidth_eq, bytes, Option.getD_some]
  · intro address outside
    apply fetch_ofHalfwords_refused _ small
    rintro ⟨index, inRange, place⟩
    exact outside (contains_of_index inRange place)

/-- A refused fetch names its address and the two bytes of a word. -/
theorem eq_of_fetch_refused {image : CodeImage} {pc : Word} {access : InvalidAccess}
    (refused : image.fetch pc = .error access) : access = ⟨pc, 2⟩ := by
  rw [fetch] at refused
  split at refused
  · split at refused
    · cases refused
    · cases refused
      rfl
  · cases refused
    rfl

/-- Where no region holds the two bytes at an address, no snapshot is taken for it. -/
theorem build_refused {memory : Memory} {pc : Word}
    (unmapped : ∀ mapped ∈ memory.regions, mapped.holds pc 2 = false) :
    build memory pc = .error ⟨pc, 2⟩ := by
  have refused : memory.findRegion pc 2 = .error ⟨pc, 2⟩ := by
    rw [Memory.findRegion, Memory.locate?_eq_none_iff.2 unmapped]
    rfl
  rw [build, refused]
  rfl

end CodeImage

/-! ## Keeping it -/

namespace Processor

/-- Whether a run finds code: it has something to run, and the two bytes at its program counter, bit
0 of which it drops, lie in a region. -/
def FindsCode (processor : Processor σ) (count : Nat) : Prop :=
  count ≠ 0 ∧ ∃ mapped ∈ processor.host.memory.regions,
    mapped.holds (halfwordAligned processor.host.registers.pc) 2

/-- The processors that no run of which has found code yet. Between the runs, the host may have
changed all it owns; its memory is one that can be assembled. -/
inductive Unfound : Processor σ → Prop where
  | create (host : Host σ) (assembled : host.memory.Assembled) : Unfound (create host)
  | run {processor : Processor σ} (handler : Handler σ) {count : Nat} (before : Unfound processor)
      (lost : ¬ processor.FindsCode count) : Unfound (processor.run handler count).1
  | change {processor : Processor σ} (host : Host σ) (assembled : host.memory.Assembled)
      (before : Unfound processor) : Unfound { processor with host }

/-- What a processor may become: after runs with any handlers, and after any changes of what its
host owns. -/
inductive Later (processor : Processor σ) : Processor σ → Prop where
  | same : Later processor processor
  | run {reached : Processor σ} (handler : Handler σ) (count : Nat)
      (before : Later processor reached) : Later processor (reached.run handler count).1
  | change {reached : Processor σ} (host : Host σ) (before : Later processor reached) :
      Later processor { reached with host }

variable {processor : Processor σ} {handler : Handler σ} {count : Nat}

/-- A run keeps the snapshot it finds. -/
theorem image_run {image : CodeImage} (taken : processor.image = some image) :
    (processor.run handler count).1.image = some image := by
  rw [run_of_image taken]
  rfl

/-- No snapshot is ever taken again. -/
theorem Later.image {reached : Processor σ} {image : CodeImage} (later : Later processor reached)
    (taken : processor.image = some image) : reached.image = some image := by
  induction later with
  | same => exact taken
  | run handler count before inductionHypothesis => exact image_run inductionHypothesis
  | change host before inductionHypothesis => exact inductionHypothesis

/-- Every turn is taken on the image that the run has found. -/
theorem faithful_of_mem {image : CodeImage}
    (found : processor.imageAt (processor.batch count).core.pc = .ok image) {taken : Taken σ}
    (member : taken ∈ processor.turns handler count) : taken.Faithful image handler := by
  obtain ⟨earlier, later, shape⟩ := List.append_of_mem member
  rw [turns_eq found] at shape
  exact Batch.faithful_of_turns shape

/-- A run without a snapshot that finds no code changes nothing but bit 0 of the stored program
counter. -/
theorem run_of_lost (handler : Handler σ) (untaken : processor.image = none)
    (lost : ¬ processor.FindsCode count) :
    (processor.run handler count).1.image = none ∧
      (processor.run handler count).1.host.memory = processor.host.memory ∧
      (count ≠ 0 → (processor.run handler count).2 =
        .faulted (.invalidAccess ⟨halfwordAligned processor.host.registers.pc, 2⟩)) := by
  by_cases none_ : count = 0
  · subst none_
    rw [run_zero]
    exact ⟨untaken, rfl, fun some_ => absurd rfl some_⟩
  · have unmapped : ∀ mapped ∈ processor.host.memory.regions,
        mapped.holds (processor.batch count).core.pc 2 = false := by
      intro mapped member
      rw [Bool.eq_false_iff]
      intro holds
      exact lost ⟨none_, mapped, member, holds⟩
    have refused : processor.imageAt (processor.batch count).core.pc =
        .error ⟨(processor.batch count).core.pc, 2⟩ := by
      rw [imageAt, untaken]
      exact CodeImage.build_refused unmapped
    rw [run_unfound none_ refused]
    exact ⟨untaken, rfl, fun _ => rfl⟩

theorem Unfound.image (unfound : Unfound processor) : processor.image = none := by
  induction unfound with
  | create host assembled => rfl
  | run handler before lost inductionHypothesis =>
      exact (run_of_lost handler inductionHypothesis lost).1
  | change host assembled before inductionHypothesis => exact inductionHypothesis

/-- Nothing was executed yet, so memory is as the host assembled it. -/
theorem Unfound.assembled (unfound : Unfound processor) : processor.host.memory.Assembled := by
  induction unfound with
  | create host assembled => exact assembled
  | run handler before lost inductionHypothesis =>
      rw [(run_of_lost handler before.image lost).2.1]
      exact inductionHypothesis
  | change host assembled before inductionHypothesis => exact assembled

/-- Code is a snapshot. As long as no run has found code there is none. The first run that finds its
code takes it, from the region that holds the two bytes at its program counter: every turn of that
run and of all later ones fetches from it and comes to what the fetched word does, and the code
region stays that region, whatever is run, stored, mapped or otherwise changed. A run before it that
has something to run is refused those two bytes, and takes none. -/
theorem code_snapshot (processor : Processor σ) (handler : Handler σ) (count : Nat)
    (unfound : Unfound processor) (some_ : count ≠ 0) :
    processor.codeRegion = none ∧
      (∀ mapped ∈ processor.host.memory.regions,
        mapped.holds (halfwordAligned processor.host.registers.pc) 2 →
          ∃ image, image.Shows mapped.region processor.host.memory ∧
            (∀ taken ∈ processor.turns handler count,
              taken.fetched = image.fetch taken.start.core.pc ∧
                taken.turn = taken.start.turn image handler) ∧
            ∀ later, Later (processor.run handler count).1 later →
              later.codeRegion = some mapped.region ∧ later.image = some image ∧
                ∀ handler count, ∀ taken ∈ later.turns handler count,
                  taken.fetched = image.fetch taken.start.core.pc ∧
                    taken.turn = taken.start.turn image handler) ∧
      ((∀ mapped ∈ processor.host.memory.regions,
          mapped.holds (halfwordAligned processor.host.registers.pc) 2 = false) →
        (processor.run handler count).2 =
            .faulted (.invalidAccess ⟨halfwordAligned processor.host.registers.pc, 2⟩) ∧
          (processor.run handler count).1.codeRegion = none) := by
  have untaken := unfound.image
  refine ⟨by rw [codeRegion, untaken]; rfl, ?_, ?_⟩
  · intro mapped member holds
    obtain ⟨image, built, shows_⟩ :=
      CodeImage.build_shows unfound.assembled.valid member (odd_halfwordAligned _) holds
    have found : processor.imageAt (processor.batch count).core.pc = .ok image := by
      rw [imageAt, untaken]
      exact built
    refine ⟨image, shows_, ?_, ?_⟩
    · intro taken inTurns
      have faithful := faithful_of_mem found inTurns
      exact ⟨faithful.fetched, faithful.turn⟩
    intro later after
    have snapshot : (processor.run handler count).1.image = some image := by
      rw [run_found some_ found]
      rfl
    have kept := after.image snapshot
    refine ⟨?_, kept, ?_⟩
    · rw [codeRegion, kept]
      exact congrArg some shows_.source
    · intro handler count taken inTurns
      have faithful := faithful_of_mem (by rw [imageAt, kept]) inTurns
      exact ⟨faithful.fetched, faithful.turn⟩
  · intro unmapped
    have lost : ¬ processor.FindsCode count := by
      rintro ⟨_, mapped, member, holds⟩
      rw [unmapped mapped member] at holds
      cases holds
    obtain ⟨none_, _, refused⟩ := run_of_lost handler untaken lost
    refine ⟨refused some_, ?_⟩
    rw [codeRegion, none_]
    rfl

/-- Five bytes of code up to the end of the address space, from an odd address on, in a strict
memory. -/
def topCode : Host Unit where
  registers := RegisterFile.zero.setPc 0xFFFFFFFC
  memory :=
    { config := ⟨true⟩
      regions :=
        [{ name := "code"
           region := ⟨0xFFFFFFFB, 5⟩
           access := .readOnly
           contents := .ofBytes [0xAA, 0x05, 0x20, 0x07, 0x21] }] }
  state := ()

theorem code_snapshot_topCode :
    Unfound (create topCode) ∧ 2 ≠ 0 ∧
      ∃ image : CodeImage, image.Shows ⟨0xFFFFFFFB, 5⟩ topCode.memory ∧
        image.fetch 0xFFFFFFFE = .ok 0x2107 ∧
        ((create topCode).run .refuseAll 2).1.codeRegion = some ⟨0xFFFFFFFB, 5⟩ := by
  have mapped : (Memory.empty ⟨true⟩).mapRom "code" 0xFFFFFFFB [0xAA, 0x05, 0x20, 0x07, 0x21] =
      .ok (⟨0xFFFFFFFB, 5⟩, topCode.memory) :=
    Memory.map_eq_ok_iff.2 ⟨by decide, rfl, rfl⟩
  have assembled : topCode.memory.Assembled := .map (.empty ⟨true⟩) mapped
  have unfound : Unfound (create topCode) := .create topCode assembled
  obtain ⟨_, found, _⟩ := code_snapshot (create topCode) .refuseAll 2 unfound (by decide)
  obtain ⟨image, shows_, _, kept⟩ := found _ (List.mem_singleton_self _) (by decide)
  refine ⟨unfound, by decide, image, shows_, ?_, (kept _ .same).1⟩
  obtain ⟨word, held, fetched⟩ := shows_.inside 0xFFFFFFFE (by decide) (by decide)
  have bytes : topCode.memory.halfword? 0xFFFFFFFE = some 0x2107 := by decide +kernel
  rw [fetched, ← Option.some.inj (bytes.symm.trans held)]

end Processor

end ThumbMachine
