/-
Module: ThumbMachine.Proofs.AddressSpace
Purpose: What holds of every address space that can be assembled: its regions end inside the address
  space and do not overlap, so that a range lies in at most one of them and a look-up finds that
  one; and the view of an address space as bytes, through which its halfwords are read.
Main exports: Memory.Assembled, Memory.Valid, Memory.Assembled.valid, Memory.readBytes_eq_ok_iff,
  Memory.writeBytes_eq_ok_iff, Memory.locate?_of_mem, Memory.locate?_eq_some_iff, Memory.byte?,
  Memory.halfword?, Memory.readHalfword_of_mem
-/
import ThumbMachine.Memory.Basic

namespace ThumbMachine

/-! ## Numbers as words -/

namespace Word

theorem toNat_ofNat_of_lt {number : Nat} (small : number < 0x100000000) :
    (BitVec.ofNat 32 number).toNat = number := by
  rw [BitVec.toNat_ofNat]
  exact Nat.mod_eq_of_lt small

/-- The address some way behind another, where there is one. -/
theorem toNat_add_ofNat {address : Word} {index : Nat}
    (inside : address.toNat + index < 0x100000000) :
    (address + BitVec.ofNat 32 index).toNat = address.toNat + index := by
  rw [BitVec.toNat_add, BitVec.toNat_ofNat, Nat.add_mod_mod]
  exact Nat.mod_eq_of_lt inside

end Word

/-! ## Regions -/

namespace Region

theorem contains_iff {region : Region} {address : Word} {length : Nat} :
    region.contains address length = true ↔
      region.start.toNat ≤ address.toNat ∧ address.toNat + length ≤ region.stop := by
  rw [contains, Bool.and_eq_true, decide_eq_true_eq, decide_eq_true_eq]

theorem overlaps_iff {one other : Region} :
    one.overlaps other = true ↔
      one.start.toNat < other.stop ∧ other.start.toNat < one.stop := by
  rw [overlaps, Bool.and_eq_true, decide_eq_true_eq, decide_eq_true_eq]

/-- Regions that both hold a range of at least one byte overlap. -/
theorem overlaps_of_contains {one other : Region} {address : Word} {length : Nat}
    (some_ : 0 < length) (left : one.contains address length)
    (right : other.contains address length) : one.overlaps other = true := by
  rw [contains_iff] at left right
  rw [overlaps_iff]
  omega

end Region

namespace Memory

/-! ## Assembled address spaces -/

/-- The address spaces that can be assembled: from one without regions, by mapping further ones and
by putting bytes into them, as the host or as the guest does. -/
inductive Assembled : Memory → Prop where
  | empty (config : MemoryConfig) : Assembled (empty config)
  | map {memory next : Memory} {name : String} {start : Word} {contents : Contents}
      {access : Access} {region : Region} (before : Assembled memory)
      (mapped : memory.map name start contents access = .ok (region, next)) : Assembled next
  | load {memory next : Memory} {address : Word} {bytes : List Byte} (before : Assembled memory)
      (loaded : memory.load address bytes = .ok next) : Assembled next
  | write {memory next : Memory} {address : Word} {bytes : List Byte} (before : Assembled memory)
      (written : memory.writeBytes address bytes = .ok next) : Assembled next

/-- The regions of an address space without their bytes, in the order of mapping. -/
def layout (memory : Memory) : List Region := memory.regions.map (·.region)

/-- The address space with one more region, mapped last. -/
def extend (memory : Memory) (mapped : MappedRegion) : Memory :=
  { memory with regions := memory.regions ++ [mapped] }

theorem layout_extend (memory : Memory) (mapped : MappedRegion) :
    (memory.extend mapped).layout = memory.layout ++ [mapped.region] :=
  List.map_append

/-- Every region ends inside the address space, and no two of them overlap. -/
structure Valid (memory : Memory) : Prop where
  bounded : ∀ region ∈ memory.layout, region.stop ≤ 0x100000000
  apart : memory.layout.Pairwise fun one other => one.overlaps other = false

/-- What a change keeps of every region, a change of one keeps of the whole table. -/
theorem map_modifyFirst {α : Type} {view : MappedRegion → α} (test : MappedRegion → Bool)
    (change : MappedRegion → MappedRegion) (keeps : ∀ mapped, view (change mapped) = view mapped)
    (regions : List MappedRegion) :
    (modifyFirst test change regions).map view = regions.map view := by
  induction regions with
  | nil => rfl
  | cons mapped rest inductionHypothesis =>
      rw [modifyFirst]
      split
      · rw [List.map_cons, List.map_cons, keeps]
      · rw [List.map_cons, List.map_cons, inductionHypothesis]

/-- Putting bytes into memory moves no region. -/
@[simp] theorem layout_replace (memory : Memory) (address : Word) (bytes : List Byte) :
    (memory.replace address bytes).layout = memory.layout :=
  map_modifyFirst (·.holds address bytes.length) (·.write address bytes) (fun _ => rfl)
    memory.regions

/-- What putting bytes into memory comes to, and what it found. -/
theorem load_eq_ok_iff {memory next : Memory} {address : Word} {bytes : List Byte} :
    memory.load address bytes = .ok next ↔
      (∃ mapped, memory.locate? address bytes.length = some mapped) ∧
        next = memory.replace address bytes := by
  rw [load]
  constructor
  · intro loaded
    split at loaded
    · rename_i mapped located
      cases loaded
      exact ⟨⟨mapped, located⟩, rfl⟩
    · cases loaded
  · rintro ⟨⟨mapped, located⟩, rfl⟩
    simp only [located]

/-- What a successful read comes to, and what it found. -/
theorem readBytes_eq_ok_iff {memory : Memory} {address : Word} {length : Nat} {bytes : List Byte} :
    memory.readBytes address length = .ok bytes ↔
      memory.aligned address length ∧
        ∃ mapped, memory.locate? address length = some mapped ∧
          bytes = mapped.read address length := by
  rw [readBytes]
  constructor
  · intro read
    split at read
    · rename_i aligned
      split at read
      · rename_i mapped located
        cases read
        exact ⟨aligned, mapped, located, rfl⟩
      · cases read
    · cases read
  · rintro ⟨aligned, mapped, located, rfl⟩
    simp only [aligned, if_true, located]

/-- What a successful write comes to, and what it found. -/
theorem writeBytes_eq_ok_iff {memory next : Memory} {address : Word} {bytes : List Byte} :
    memory.writeBytes address bytes = .ok next ↔
      memory.aligned address bytes.length ∧
        (∃ mapped, memory.locate? address bytes.length = some mapped ∧
          mapped.access = .readWrite) ∧
        next = memory.replace address bytes := by
  rw [writeBytes]
  constructor
  · intro written
    split at written
    · rename_i aligned
      split at written
      · rename_i mapped located
        split at written
        · rename_i writable
          cases written
          exact ⟨aligned, ⟨mapped, located, writable⟩, rfl⟩
        · cases written
      · cases written
    · cases written
  · rintro ⟨aligned, ⟨mapped, located, writable⟩, rfl⟩
    simp only [aligned, if_true, located, writable]

/-- A refused read names its range. -/
theorem eq_of_readBytes_refused {memory : Memory} {address : Word} {length : Nat}
    {access : InvalidAccess} (refused : memory.readBytes address length = .error access) :
    access = InvalidAccess.of address length := by
  rw [readBytes] at refused
  split at refused
  · split at refused
    · cases refused
    · cases refused
      rfl
  · cases refused
    rfl

/-- A refused write names its range. -/
theorem eq_of_writeBytes_refused {memory : Memory} {address : Word} {bytes : List Byte}
    {access : InvalidAccess} (refused : memory.writeBytes address bytes = .error access) :
    access = InvalidAccess.of address bytes.length := by
  rw [writeBytes] at refused
  split at refused
  · split at refused
    · split at refused
      · cases refused
      · cases refused
        rfl
    · cases refused
      rfl
  · cases refused
    rfl

/-- What mapping checks, and what it adds. -/
theorem map_eq_ok_iff {memory next : Memory} {name : String} {start : Word} {contents : Contents}
    {access : Access} {region : Region} :
    memory.map name start contents access = .ok (region, next) ↔
      memory.accepts start contents.size ∧ region = ⟨start, BitVec.ofNat 32 contents.size⟩ ∧
        next = memory.extend { name, region, access, contents } := by
  rw [map]
  constructor
  · intro mapped
    split at mapped
    · rename_i accepted
      cases mapped
      exact ⟨accepted, rfl, rfl⟩
    · cases mapped
  · rintro ⟨accepted, rfl, rfl⟩
    rw [if_pos accepted]
    rfl

theorem accepts_iff {memory : Memory} {start : Word} {size : Nat} :
    memory.accepts start size = true ↔
      (0 < size ∧ size < 0x100000000 ∧ start.toNat + size ≤ 0x100000000) ∧
        ∀ region ∈ memory.layout, region.overlaps ⟨start, BitVec.ofNat 32 size⟩ = false := by
  simp [accepts, layout, and_assoc]

theorem valid_empty (config : MemoryConfig) : (empty config).Valid where
  bounded _ member := nomatch member
  apart := .nil

theorem Valid.map {memory next : Memory} (valid : memory.Valid) {name : String} {start : Word}
    {contents : Contents} {access : Access} {region : Region}
    (mapped : memory.map name start contents access = .ok (region, next)) : next.Valid := by
  obtain ⟨accepted, rfl, rfl⟩ := map_eq_ok_iff.1 mapped
  obtain ⟨⟨_, small, inside⟩, clear⟩ := accepts_iff.1 accepted
  have size := Word.toNat_ofNat_of_lt small
  constructor
  · rw [layout_extend]
    intro region member
    rcases List.mem_append.1 member with old | new
    · exact valid.bounded region old
    · rw [List.mem_singleton.1 new, Region.stop, size]
      exact inside
  · rw [layout_extend, List.pairwise_append]
    refine ⟨valid.apart, List.pairwise_singleton _ _, ?_⟩
    intro old member new isNew
    rw [List.mem_singleton.1 isNew]
    exact clear old member

theorem Valid.replace {memory : Memory} (valid : memory.Valid) (address : Word)
    (bytes : List Byte) : (memory.replace address bytes).Valid where
  bounded := by
    rw [layout_replace]
    exact valid.bounded
  apart := by
    rw [layout_replace]
    exact valid.apart

theorem Assembled.valid {memory : Memory} (assembled : memory.Assembled) : memory.Valid := by
  induction assembled with
  | empty config => exact valid_empty config
  | map before mapped inductionHypothesis => exact inductionHypothesis.map mapped
  | load before loaded inductionHypothesis =>
      rw [(load_eq_ok_iff.1 loaded).2]
      exact inductionHypothesis.replace _ _
  | write before written inductionHypothesis =>
      rw [(writeBytes_eq_ok_iff.1 written).2.2]
      exact inductionHypothesis.replace _ _

/-! ## Look-up -/

/-- What a look-up finds is a region that holds the range. -/
theorem locate?_some {memory : Memory} {address : Word} {length : Nat} {mapped : MappedRegion}
    (located : memory.locate? address length = some mapped) :
    mapped ∈ memory.regions ∧ mapped.holds address length := by
  have member := List.mem_of_find?_eq_some located
  have holds := List.find?_some located
  exact ⟨member, holds⟩

/-- In a valid address space a look-up finds the region that holds a range, whichever was mapped
first. -/
theorem locate?_of_mem {memory : Memory} (valid : memory.Valid) {mapped : MappedRegion}
    (member : mapped ∈ memory.regions) {address : Word} {length : Nat} (some_ : 0 < length)
    (holds : mapped.holds address length) : memory.locate? address length = some mapped := by
  have apart := valid.apart
  rw [layout, List.pairwise_map] at apart
  rw [locate?]
  generalize memory.regions = regions at member apart
  induction apart with
  | nil => cases member
  | @cons first rest clear _ inductionHypothesis =>
      rw [List.find?_cons]
      rcases List.mem_cons.1 member with rfl | later
      · rw [holds]
      · split
        · rename_i earlier
          have overlap := Region.overlaps_of_contains some_ earlier holds
          rw [clear mapped later] at overlap
          cases overlap
        · exact inductionHypothesis later

/-- In a valid address space a look-up of at least one byte finds the region that holds the
range. -/
theorem locate?_eq_some_iff {memory : Memory} (valid : memory.Valid) {address : Word} {length : Nat}
    (some_ : 0 < length) {mapped : MappedRegion} :
    memory.locate? address length = some mapped ↔
      mapped ∈ memory.regions ∧ mapped.holds address length := by
  constructor
  · exact locate?_some
  · rintro ⟨member, holds⟩
    exact locate?_of_mem valid member some_ holds

theorem locate?_eq_none_iff {memory : Memory} {address : Word} {length : Nat} :
    memory.locate? address length = none ↔
      ∀ mapped ∈ memory.regions, mapped.holds address length = false := by
  rw [locate?, List.find?_eq_none]
  simp

/-! ## Memory as bytes -/

/-- The byte at an address, in whichever region the address lies. -/
def byte? (memory : Memory) (address : Word) : Option Byte :=
  (memory.locate? address 1).map fun mapped => mapped.contents.get (mapped.offset address)

/-- The halfword at an address: the byte there is the low one, the byte after it the high one. -/
def halfword? (memory : Memory) (address : Word) : Option Halfword :=
  match memory.byte? address, memory.byte? (address + 1) with
  | some low, some high => some (high ++ low)
  | _, _ => none

theorem value_pair (low high : Byte) :
    BitVec.ofNat 16 (LittleEndian.value [low, high]) = high ++ low := by
  apply BitVec.eq_of_toNat_eq
  have lowBound := low.isLt
  have highBound := high.isLt
  rw [BitVec.toNat_append, BitVec.toNat_ofNat, ← Nat.shiftLeft_add_eq_or_of_lt lowBound,
    Nat.shiftLeft_eq]
  simp only [LittleEndian.value]
  omega

/-- An aligned halfword in a region of a valid address space can be read, and is the one that the
bytes of memory show. -/
theorem readHalfword_of_mem {memory : Memory} (valid : memory.Valid) {mapped : MappedRegion}
    (member : mapped ∈ memory.regions) {address : Word} (aligned : memory.aligned address 2)
    (holds : mapped.holds address 2) :
    ∃ word, memory.halfword? address = some word ∧ memory.readHalfword address = .ok word := by
  have inside := Region.contains_iff.1 holds
  have bound := valid.bounded _ (List.mem_map_of_mem member)
  have next : (address + 1).toNat = address.toNat + 1 :=
    Word.toNat_add_ofNat (show address.toNat + 1 < 0x100000000 by omega)
  have low : memory.byte? address = some (mapped.contents.get (mapped.offset address)) := by
    rw [byte?, locate?_of_mem valid member Nat.one_pos (Region.contains_iff.2 (by omega))]
    rfl
  have high : memory.byte? (address + 1) =
      some (mapped.contents.get (mapped.offset address + 1)) := by
    have later : mapped.holds (address + 1) 1 := Region.contains_iff.2 (by omega)
    have place : mapped.offset (address + 1) = mapped.offset address + 1 := by
      rw [MappedRegion.offset, MappedRegion.offset]
      omega
    rw [byte?, locate?_of_mem valid member Nat.one_pos later, Option.map_some, place]
  refine ⟨_, by rw [halfword?, low, high], ?_⟩
  rw [readHalfword, readDatum, readBytes, if_pos aligned,
    locate?_of_mem valid member Nat.two_pos holds]
  exact congrArg Except.ok (value_pair _ _)

end Memory

end ThumbMachine
