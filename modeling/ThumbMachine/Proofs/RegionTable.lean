/-
Module: ThumbMachine.Proofs.RegionTable
Purpose: The table of regions as any requests leave it. Whatever was asked of a memory that began
  without regions, granted or refused, every region has its bytes and no more, ends inside the
  address space, and shares no address with another; a block is mapped exactly where such a region
  can be added.
Main exports: Region.Has, Region.overlaps_iff_shared, Memory.answer, Memory.after, Memory.Change,
  Memory.change_answer, Memory.after_induction, Memory.assembled_after, Memory.Tabled,
  Memory.Admits, Memory.Maps, Memory.Sound, Memory.sound_after
-/
import ThumbMachine.Memory.Command
import ThumbMachine.Proofs.Framing

namespace ThumbMachine

/-! ## Addresses of a region -/

namespace Region

/-- Whether an address lies in the block. -/
def Has (region : Region) (address : Word) : Prop :=
  region.start.toNat ≤ address.toNat ∧ address.toNat < region.stop

/-- Blocks of at least one byte overlap exactly where they share an address: the later of their
starts, if any. -/
theorem overlaps_iff_shared {one other : Region} (left : 1 ≤ one.size.toNat)
    (right : 1 ≤ other.size.toNat) :
    one.overlaps other = true ↔ ∃ address, one.Has address ∧ other.Has address := by
  rw [overlaps_iff]
  constructor
  · intro overlap
    by_cases later : one.start.toNat ≤ other.start.toNat
    · refine ⟨other.start, ⟨later, overlap.2⟩, Nat.le_refl _, ?_⟩
      rw [stop]
      omega
    · refine ⟨one.start, ⟨Nat.le_refl _, ?_⟩, by omega, overlap.1⟩
      rw [stop]
      omega
  · rintro ⟨address, ⟨fromOne, toOne⟩, fromOther, toOther⟩
    omega

end Region

/-! ## Bytes of a region -/

namespace Contents

/-- All the bytes in order. -/
def toList (contents : Contents) : List Byte := contents.slice 0 contents.size

@[simp] theorem length_toList (contents : Contents) : contents.toList.length = contents.size :=
  length_slice contents 0 contents.size

theorem getElem?_toList {contents : Contents} {offset : Nat} (inside : offset < contents.size) :
    contents.toList[offset]? = some (contents.get offset) := by
  rw [toList, slice, List.getElem?_map, List.getElem?_range inside, Option.map_some, Nat.zero_add]

theorem toList_zeros (size : Nat) : (zeros size).toList = List.replicate size 0 := by
  apply List.ext_getElem
  · simp [zeros]
  · intro index _ _
    simp [toList, slice]

theorem toList_ofBytes (bytes : List Byte) : (ofBytes bytes).toList = bytes := by
  apply List.ext_getElem
  · simp [ofBytes]
  · intro index _ bound
    simp [toList, slice, get_ofBytes, bound]

/-- Nothing is kept past the last byte. -/
structure Confined (contents : Contents) : Prop where
  given : contents.given.size ≤ contents.size
  stored : ∀ offset ∈ contents.stored, offset < contents.size

theorem confined_zeros (size : Nat) : (zeros size).Confined where
  given := Nat.zero_le size
  stored offset member := by simp [zeros] at member

theorem confined_ofBytes (bytes : List Byte) : (ofBytes bytes).Confined where
  given := Nat.le_of_eq (by simp [ofBytes])
  stored offset member := by simp [ofBytes] at member

theorem Confined.set {contents : Contents} (confined : contents.Confined) {offset : Nat}
    (byte : Byte) (inside : offset < contents.size) : (contents.set offset byte).Confined where
  given := confined.given
  stored other member := by
    rcases Std.TreeMap.mem_insert.1 member with same | before
    · rw [Std.LawfulEqCmp.compare_eq_iff_eq] at same
      exact same ▸ inside
    · exact confined.stored other before

/-- Bytes that fit are kept where they fit. -/
theorem Confined.splice {contents : Contents} (confined : contents.Confined) {offset : Nat}
    {bytes : List Byte} (fits : offset + bytes.length ≤ contents.size) :
    (contents.splice offset bytes).Confined := by
  induction bytes generalizing contents offset with
  | nil => exact confined
  | cons byte rest inductionHypothesis =>
      rw [List.length_cons] at fits
      have first := confined.set byte (show offset < contents.size by omega)
      have fitting : offset + 1 + rest.length ≤ (contents.set offset byte).size := by
        change offset + 1 + rest.length ≤ contents.size
        omega
      exact inductionHypothesis first fitting

end Contents

namespace Memory

open Contents

variable {memory next : Memory}

/-! ## Requests in sequence -/

/-- The memory once a request was answered; a refused one leaves it as it was. -/
def answer (memory : Memory) (command : Command) : Memory :=
  match memory.perform command with
  | .ok (_, next) => next
  | .error _ => memory

/-- The memory once some requests were answered in turn. -/
def after (memory : Memory) (commands : List Command) : Memory := commands.foldl answer memory

theorem answer_of_granted {command : Command} {reply : Reply}
    (granted : memory.perform command = .ok (reply, next)) : memory.answer command = next := by
  rw [answer, granted]

theorem answer_of_refused {command : Command} {access : InvalidAccess}
    (refused : memory.perform command = .error access) : memory.answer command = memory := by
  rw [answer, refused]

/-- What an answer can do to a memory: nothing, add a region, or replace bytes in one that holds
them. -/
inductive Change (memory : Memory) : Memory → Prop where
  | none : Change memory memory
  | mapped {next : Memory} {name : String} {start : Word} {contents : Contents} {access : Access}
      {region : Region} (confined : contents.Confined)
      (granted : memory.map name start contents access = .ok (region, next)) : Change memory next
  | replaced {address : Word} {bytes : List Byte} {found : MappedRegion}
      (located : memory.locate? address bytes.length = some found) :
      Change memory (memory.replace address bytes)

/-- A request changes memory as what it stands for does when it is granted. -/
theorem change_of_asked {command : Command} {α : Type} (asked : Except InvalidAccess α)
    {outcome : α → Reply × Memory} (performed : memory.perform command = asked.map outcome)
    (changes : ∀ value, asked = .ok value → memory.Change (outcome value).2) :
    memory.Change (memory.answer command) := by
  cases granted : asked with
  | error access =>
      rw [granted] at performed
      rw [answer_of_refused performed]
      exact .none
  | ok value =>
      rw [granted] at performed
      rw [answer_of_granted performed]
      exact changes value granted

theorem change_of_loaded {address : Word} {bytes : List Byte}
    (loaded : memory.load address bytes = .ok next) : memory.Change next := by
  obtain ⟨⟨found, located⟩, rfl⟩ := load_eq_ok_iff.1 loaded
  exact .replaced located

theorem change_of_written {datum : Datum} {address value : Word}
    (written : datum.write memory address value = .ok next) : memory.Change next := by
  obtain ⟨bytes, _, eq⟩ := datum.write_eq address value
  rw [eq] at written
  obtain ⟨_, ⟨found, located, _⟩, rfl⟩ := writeBytes_eq_ok_iff.1 written
  exact .replaced located

/-- Every request, granted or refused, does one of these. -/
theorem change_answer (memory : Memory) (command : Command) :
    memory.Change (memory.answer command) := by
  cases command with
  | mapRam name start size =>
      apply change_of_asked (memory.mapRam name start size) rfl
      exact fun _ mapped => .mapped (confined_zeros size.toNat) mapped
  | mapRom name start bytes =>
      apply change_of_asked (memory.mapRom name start bytes) rfl
      exact fun _ mapped => .mapped (confined_ofBytes bytes) mapped
  | load address bytes =>
      apply change_of_asked (memory.load address bytes) rfl
      exact fun _ loaded => change_of_loaded loaded
  | write datum address value =>
      apply change_of_asked (datum.write memory address value) rfl
      exact fun _ written => change_of_written written
  | findRegion address length =>
      exact change_of_asked (memory.findRegion address length) rfl fun _ _ => .none
  | fetchCode address =>
      exact change_of_asked (memory.readHalfword address) rfl fun _ _ => .none
  | read datum address =>
      exact change_of_asked (datum.read memory address) rfl fun _ _ => .none
  | dump address length =>
      exact change_of_asked (memory.dump address length) rfl fun _ _ => .none
  | regions => exact .none
  | config => exact .none

/-- What holds of a memory and is kept by every change holds after any requests. -/
theorem after_induction {motive : Memory → Prop} {memory : Memory} (start : motive memory)
    (change : ∀ reached next, motive reached → reached.Change next → motive next)
    (commands : List Command) : motive (memory.after commands) := by
  induction commands generalizing memory with
  | nil => exact start
  | cons command rest inductionHypothesis =>
      exact inductionHypothesis (change memory _ start (memory.change_answer command))

/-! ## What every table keeps -/

theorem Assembled.change (assembled : memory.Assembled) (change : memory.Change next) :
    next.Assembled := by
  cases change with
  | none => exact assembled
  | mapped _ granted => exact .map assembled granted
  | replaced located => exact .load assembled (load_eq_ok_iff.2 ⟨⟨_, located⟩, rfl⟩)

/-- Requests assemble address spaces. -/
theorem assembled_after (config : MemoryConfig) (commands : List Command) :
    ((empty config).after commands).Assembled :=
  after_induction (.empty config) (fun _ _ assembled change => assembled.change change) commands

end Memory

/-- A region has a byte for each of its addresses, one at least, and keeps nothing past them. -/
structure MappedRegion.Filled (mapped : MappedRegion) : Prop where
  nonempty : 1 ≤ mapped.region.size.toNat
  full : mapped.contents.size = mapped.region.size.toNat
  confined : mapped.contents.Confined

namespace MappedRegion

variable {mapped : MappedRegion} {address : Word}

theorem holds_iff {length : Nat} :
    mapped.holds address length = true ↔
      mapped.region.start.toNat ≤ address.toNat ∧ address.toNat + length ≤ mapped.region.stop :=
  Region.contains_iff

/-- A range that lies in a filled region lies in its bytes. -/
theorem Filled.slice (filled : mapped.Filled) {length : Nat} (holds : mapped.holds address length) :
    mapped.offset address + length ≤ mapped.contents.size := by
  obtain ⟨low, high⟩ := holds_iff.1 holds
  rw [Region.stop] at high
  rw [filled.full, offset]
  omega

theorem Filled.write (filled : mapped.Filled) {bytes : List Byte}
    (holds : mapped.holds address bytes.length) : (mapped.write address bytes).Filled where
  nonempty := filled.nonempty
  full := (Contents.size_splice _ _ _).trans filled.full
  confined := filled.confined.splice (filled.slice holds)

end MappedRegion

namespace Memory

variable {memory next : Memory}

/-- A region after a change of the first one that passes a test was there before, or is that one. -/
theorem mem_modifyFirst {test : MappedRegion → Bool} {change : MappedRegion → MappedRegion}
    {regions : List MappedRegion} {mapped : MappedRegion}
    (member : mapped ∈ modifyFirst test change regions) :
    mapped ∈ regions ∨ ∃ found ∈ regions, test found ∧ mapped = change found := by
  induction regions with
  | nil => cases member
  | cons first rest inductionHypothesis =>
      rw [modifyFirst] at member
      split at member
      · rename_i passes
        rcases List.mem_cons.1 member with same | later
        · exact Or.inr ⟨first, List.mem_cons_self, passes, same⟩
        · exact Or.inl (List.mem_cons_of_mem first later)
      · rcases List.mem_cons.1 member with rfl | later
        · exact Or.inl List.mem_cons_self
        · rcases inductionHypothesis later with before | ⟨found, there, passes, same⟩
          · exact Or.inl (List.mem_cons_of_mem first before)
          · exact Or.inr ⟨found, List.mem_cons_of_mem first there, passes, same⟩

theorem filled_change (filled : ∀ mapped ∈ memory.regions, mapped.Filled)
    (change : memory.Change next) : ∀ mapped ∈ next.regions, mapped.Filled := by
  cases change with
  | none => exact filled
  | @mapped _ name start contents access region confined granted =>
      obtain ⟨accepted, rfl, rfl⟩ := map_eq_ok_iff.1 granted
      obtain ⟨⟨some_, small, _⟩, _⟩ := accepts_iff.1 accepted
      have size : contents.size = (BitVec.ofNat 32 contents.size).toNat :=
        (Word.toNat_ofNat_of_lt small).symm
      intro mapped member
      rcases List.mem_append.1 member with before | new
      · exact filled mapped before
      · rw [List.mem_singleton.1 new]
        exact ⟨Nat.le_trans some_ (Nat.le_of_eq size), size, confined⟩
  | @replaced address bytes found located =>
      intro mapped member
      rcases mem_modifyFirst member with before | ⟨other, there, holds, rfl⟩
      · exact filled mapped before
      · exact (filled other there).write holds

theorem filled_after (config : MemoryConfig) (commands : List Command) :
    ∀ mapped ∈ ((empty config).after commands).regions, mapped.Filled := by
  apply after_induction (motive := fun memory => ∀ mapped ∈ memory.regions, mapped.Filled)
  · intro mapped member
    cases member
  · intro reached next filled change
    exact filled_change filled change

/-- The table of regions is in order: each region has at least one address, ends inside the address
space and holds exactly as many bytes as its size says, with nothing kept past them; and no address
lies in two regions. -/
structure Tabled (memory : Memory) : Prop where
  nonempty : ∀ mapped ∈ memory.regions, 1 ≤ mapped.region.size.toNat
  bounded : ∀ mapped ∈ memory.regions, mapped.region.stop ≤ 0x100000000
  full : ∀ mapped ∈ memory.regions,
    mapped.contents.toList.length = mapped.region.size.toNat ∧ mapped.contents.Confined
  apart : memory.regions.Pairwise fun one other =>
    ∀ address, ¬ (one.region.Has address ∧ other.region.Has address)

/-- Where every region is filled, apart means without a shared address. -/
theorem Valid.tabled (valid : memory.Valid) (filled : ∀ mapped ∈ memory.regions, mapped.Filled) :
    memory.Tabled where
  nonempty mapped member := (filled mapped member).nonempty
  bounded mapped member := valid.bounded _ (List.mem_map_of_mem member)
  full mapped member :=
    ⟨mapped.contents.length_toList.trans (filled mapped member).full,
      (filled mapped member).confined⟩
  apart := by
    have apart := valid.apart
    rw [layout, List.pairwise_map] at apart
    apply apart.imp_of_mem
    intro one other left right clear address shared
    have overlap := (Region.overlaps_iff_shared (filled one left).nonempty
        (filled other right).nonempty).2
      ⟨address, shared⟩
    rw [clear] at overlap
    cases overlap

/-! ## Mapping -/

/-- A block of some size can be added at an address: it has at least one byte and at most as many as
a word can count, ends inside the address space, and shares no address with a region mapped
before. -/
structure Admits (memory : Memory) (start : Word) (size : Nat) : Prop where
  nonempty : 1 ≤ size
  small : size ≤ 0xFFFFFFFF
  inside : start.toNat + size ≤ 0x100000000
  clear : ∀ mapped ∈ memory.regions, ∀ address, mapped.region.Has address →
    ¬ (start.toNat ≤ address.toNat ∧ address.toNat < start.toNat + size)

/-- What mapping checks is that the block can be added. -/
theorem accepts_iff_admits (filled : ∀ mapped ∈ memory.regions, mapped.Filled) {start : Word}
    {size : Nat} : memory.accepts start size = true ↔ memory.Admits start size := by
  have shared (some_ : 0 < size) (small : size < 0x100000000) :
      (∀ region ∈ memory.layout, region.overlaps ⟨start, BitVec.ofNat 32 size⟩ = false) ↔
        ∀ mapped ∈ memory.regions, ∀ address, mapped.region.Has address →
          ¬ (start.toNat ≤ address.toNat ∧ address.toNat < start.toNat + size) := by
    have counted := Word.toNat_ofNat_of_lt small
    rw [layout, List.forall_mem_map]
    apply forall₂_congr
    intro mapped member
    rw [← Bool.not_eq_true, Region.overlaps_iff_shared (filled mapped member).nonempty
      (show 1 ≤ (BitVec.ofNat 32 size).toNat by omega), not_exists]
    apply forall_congr'
    intro address
    rw [not_and, Region.Has, Region.Has, Region.stop, Region.stop, counted]
  rw [accepts_iff]
  constructor
  · rintro ⟨⟨some_, small, inside⟩, clear⟩
    exact ⟨some_, Nat.le_of_lt_succ small, inside, (shared some_ small).1 clear⟩
  · rintro ⟨some_, small, inside, clear⟩
    exact ⟨⟨some_, Nat.lt_succ_of_le small, inside⟩,
      (shared some_ (Nat.lt_succ_of_le small)).2 clear⟩

/-- What a request to map some bytes comes to. Where the block can be added, the answer is its
region, and memory has it as one more, with the name, the access right and the bytes asked for;
otherwise the request is refused, and memory is as it was. -/
structure Maps (memory : Memory) (command : Command) (name : String) (start : Word)
    (access : Access) (bytes : List Byte) : Prop where
  granted : memory.Admits start bytes.length → ∃ region contents,
    region = ⟨start, BitVec.ofNat 32 bytes.length⟩ ∧ contents.toList = bytes ∧
      memory.perform command =
        .ok (.region region, memory.extend { name, region, access, contents })
  refused : ¬ memory.Admits start bytes.length →
    memory.perform command = .error (.of start bytes.length) ∧ memory.answer command = memory

theorem maps_of_performed (filled : ∀ mapped ∈ memory.regions, mapped.Filled) {command : Command}
    {name : String} {start : Word} {access : Access} {contents : Contents} {bytes : List Byte}
    (holds : contents.toList = bytes)
    (performed : memory.perform command =
      (memory.map name start contents access).map fun granted => (.region granted.1, granted.2)) :
    memory.Maps command name start access bytes := by
  have size : contents.size = bytes.length := by rw [← holds, Contents.length_toList]
  constructor
  · intro admitted
    have accepted := (accepts_iff_admits filled).2 admitted
    refine ⟨_, contents, rfl, holds, ?_⟩
    rw [performed, map, size, if_pos accepted]
    rfl
  · intro excluded
    have declined : ¬ memory.accepts start contents.size = true := by
      rw [size, accepts_iff_admits filled]
      exact excluded
    have refused : memory.perform command = .error (.of start bytes.length) := by
      rw [performed, map, if_neg declined, size]
      rfl
    exact ⟨refused, answer_of_refused refused⟩

/-! ## The table after any requests -/

/-- The table of regions is in order and stays so: a request to map zeros, or a byte string, adds
exactly the region asked for or changes nothing, and whatever range a look-up finds lies in the
bytes of the region it finds. -/
structure Sound (memory : Memory) : Prop where
  tabled : memory.Tabled
  mapRam : ∀ name start size, memory.Maps (.mapRam name start size) name start .readWrite
    (List.replicate size.toNat 0)
  mapRom : ∀ name start bytes, memory.Maps (.mapRom name start bytes) name start .readOnly bytes
  slices : ∀ address length mapped, memory.locate? address length = some mapped →
    mapped.region.start.toNat ≤ address.toNat ∧
      mapped.offset address + length ≤ mapped.contents.size

/-- Any requests in any order, each granted or refused, leave a memory that began without regions
with its table in order. -/
theorem sound_after (config : MemoryConfig) (commands : List Command) :
    ((empty config).after commands).Sound := by
  have filled := filled_after config commands
  constructor
  · exact (assembled_after config commands).valid.tabled filled
  · intro name start size
    exact maps_of_performed filled (Contents.toList_zeros size.toNat) rfl
  · intro name start bytes
    exact maps_of_performed filled (Contents.toList_ofBytes bytes) rfl
  · intro address length mapped located
    obtain ⟨member, holds⟩ := locate?_some located
    exact ⟨(MappedRegion.holds_iff.1 holds).1, (filled mapped member).slice holds⟩

end Memory

end ThumbMachine
