/-
Module: ThumbMachine.Proofs.MappingOrder
Purpose: What the order of mapping has to do with look-ups. Regions that can be mapped in one order
  can be mapped in any, and a look-up of at least one byte answers the same in each: the region that
  has the bytes. A look-up of no bytes does so too, except where a region ends at the address asked
  for.
Main exports: Memory.Mapping, Memory.mapAll, Memory.mapAll_eq_ok_iff, Memory.locate?_perm,
  Memory.Settled, Memory.settled_iff
-/
import ThumbMachine.Proofs.ByteMap

namespace ThumbMachine

theorem Region.overlaps_comm (one other : Region) : one.overlaps other = other.overlaps one :=
  Bool.and_comm _ _

namespace Memory

/-! ## Mapping in some order -/

/-- A region to be mapped. -/
structure Mapping where
  name : String
  start : Word
  contents : Contents
  access : Access

namespace Mapping

/-- Writable zeros. -/
def ram (name : String) (start size : Word) : Mapping :=
  { name, start, contents := Contents.zeros size.toNat, access := .readWrite }

/-- A byte string that the guest cannot write to. -/
def rom (name : String) (start : Word) (bytes : List Byte) : Mapping :=
  { name, start, contents := Contents.ofBytes bytes, access := .readOnly }

/-- The region once it is mapped. -/
def mapped (mapping : Mapping) : MappedRegion :=
  { name := mapping.name
    region := ⟨mapping.start, BitVec.ofNat 32 mapping.contents.size⟩
    access := mapping.access
    contents := mapping.contents }

/-- It has as many bytes as a word can count, one at least, and ends inside the address space. -/
def Fits (mapping : Mapping) : Prop :=
  0 < mapping.contents.size ∧ mapping.contents.size < 0x100000000 ∧
    mapping.start.toNat + mapping.contents.size ≤ 0x100000000

end Mapping

/-- Maps one more region, as mapping zeros and mapping a byte string do. -/
def add (memory : Memory) (mapping : Mapping) : Except InvalidAccess (Region × Memory) :=
  memory.map mapping.name mapping.start mapping.contents mapping.access

example (memory : Memory) (name : String) (start size : Word) (bytes : List Byte) :
    memory.add (.ram name start size) = memory.mapRam name start size ∧
      memory.add (.rom name start bytes) = memory.mapRom name start bytes := ⟨rfl, rfl⟩

/-- Maps some regions in turn, up to the first refusal. -/
def mapAll (memory : Memory) : List Mapping → Except InvalidAccess Memory
  | [] => .ok memory
  | mapping :: rest => do
      let (_, next) ← memory.add mapping
      next.mapAll rest

variable {memory next : Memory} {mapping : Mapping} {mappings other : List Mapping} {address : Word}
  {length : Nat}

/-- The address space with some more regions, mapped last. -/
def extendAll (memory : Memory) (mappings : List Mapping) : Memory :=
  { memory with regions := memory.regions ++ mappings.map (·.mapped) }

theorem extendAll_nil (memory : Memory) : memory.extendAll [] = memory := by
  rw [extendAll, List.map_nil, List.append_nil]

theorem extendAll_cons (memory : Memory) (mapping : Mapping) (rest : List Mapping) :
    memory.extendAll (mapping :: rest) = (memory.extend mapping.mapped).extendAll rest := by
  rw [extendAll, extendAll, extend, List.append_assoc]
  rfl

/-- Some regions can be mapped together: each fits, and none overlaps another, nor one mapped
before. -/
structure Compatible (memory : Memory) (mappings : List Mapping) : Prop where
  fits : ∀ mapping ∈ mappings, mapping.Fits
  clear : ∀ mapping ∈ mappings, ∀ region ∈ memory.layout,
    region.overlaps mapping.mapped.region = false
  apart : mappings.Pairwise fun one other => one.mapped.region.overlaps other.mapped.region = false

/-- The order they come in makes no difference to that. -/
theorem Compatible.perm (compatible : memory.Compatible mappings) (perm : other.Perm mappings) :
    memory.Compatible other where
  fits mapping member := compatible.fits mapping (perm.mem_iff.1 member)
  clear mapping member := compatible.clear mapping (perm.mem_iff.1 member)
  apart := by
    apply (perm.pairwise_iff _).2 compatible.apart
    intro one other apart
    rw [Region.overlaps_comm, apart]

/-- The first of some regions is checked against those mapped before, the others against it as
well. -/
theorem compatible_cons {rest : List Mapping} : memory.Compatible (mapping :: rest) ↔
    memory.accepts mapping.start mapping.contents.size ∧
      (memory.extend mapping.mapped).Compatible rest := by
  rw [accepts_iff]
  constructor
  · rintro ⟨fits, clear, apart⟩
    rw [List.forall_mem_cons] at fits clear
    rw [List.pairwise_cons] at apart
    refine ⟨⟨fits.1, clear.1⟩, fits.2, ?_, apart.2⟩
    intro later member region there
    rw [layout_extend] at there
    rcases List.mem_append.1 there with before | new
    · exact clear.2 later member region before
    · rw [List.mem_singleton.1 new]
      exact apart.1 later member
  · rintro ⟨⟨fits, clear⟩, others⟩
    have further := others.clear
    rw [layout_extend] at further
    refine ⟨List.forall_mem_cons.2 ⟨fits, others.fits⟩, List.forall_mem_cons.2 ⟨clear, ?_⟩,
      List.pairwise_cons.2 ⟨?_, others.apart⟩⟩
    · intro later member region before
      exact further later member region (List.mem_append_left _ before)
    · intro later member
      exact further later member _ (List.mem_append_right _ (List.mem_singleton_self _))

theorem add_eq_ok_iff {region : Region} : memory.add mapping = .ok (region, next) ↔
    memory.accepts mapping.start mapping.contents.size ∧ region = mapping.mapped.region ∧
      next = memory.extend mapping.mapped := by
  rw [add, map_eq_ok_iff]
  constructor
  · rintro ⟨accepted, rfl, rfl⟩
    exact ⟨accepted, rfl, rfl⟩
  · rintro ⟨accepted, rfl, rfl⟩
    exact ⟨accepted, rfl, rfl⟩

theorem mapAll_cons_eq_ok_iff {rest : List Mapping} : memory.mapAll (mapping :: rest) = .ok next ↔
    memory.accepts mapping.start mapping.contents.size ∧
      (memory.extend mapping.mapped).mapAll rest = .ok next := by
  rw [mapAll]
  cases added : memory.add mapping with
  | error access =>
      constructor
      · intro mapped
        cases mapped
      · rintro ⟨accepted, _⟩
        rw [add_eq_ok_iff.2 ⟨accepted, rfl, rfl⟩] at added
        cases added
  | ok granted =>
      obtain ⟨accepted, _, eq⟩ := add_eq_ok_iff.1 added
      rw [← eq]
      exact (and_iff_right accepted).symm

/-- What mapping some regions in turn checks, and what it adds. -/
theorem mapAll_eq_ok_iff : memory.mapAll mappings = .ok next ↔
    memory.Compatible mappings ∧ next = memory.extendAll mappings := by
  induction mappings generalizing memory with
  | nil =>
      have compatible : memory.Compatible [] := ⟨nofun, nofun, .nil⟩
      rw [mapAll, extendAll_nil, Except.ok.injEq]
      exact ⟨fun same => ⟨compatible, same.symm⟩, fun both => both.2.symm⟩
  | cons mapping rest inductionHypothesis =>
      rw [mapAll_cons_eq_ok_iff, inductionHypothesis, compatible_cons, extendAll_cons, and_assoc]

theorem Valid.mapAll (valid : memory.Valid) (mapped : memory.mapAll mappings = .ok next) :
    next.Valid := by
  induction mappings generalizing memory with
  | nil =>
      cases mapped
      exact valid
  | cons mapping rest inductionHypothesis =>
      obtain ⟨accepted, others⟩ := mapAll_cons_eq_ok_iff.1 mapped
      exact inductionHypothesis (valid.map (add_eq_ok_iff.2 ⟨accepted, rfl, rfl⟩)) others

/-! ## Looking up -/

/-- A look-up of at least one byte does not depend on the order of the regions. -/
theorem locate?_perm {reordered : Memory} (valid : memory.Valid) (again : reordered.Valid)
    (perm : reordered.regions.Perm memory.regions) (some_ : 0 < length) :
    reordered.locate? address length = memory.locate? address length := by
  apply Option.ext
  intro mapped
  rw [locate?_eq_some_iff again some_, locate?_eq_some_iff valid some_, perm.mem_iff]

/-- Where no region ends at the address, no bytes are looked up as one byte is. -/
theorem locate?_zero (clear : ∀ mapped ∈ memory.regions, mapped.region.stop ≠ address.toNat) :
    memory.locate? address 0 = memory.locate? address 1 := by
  rw [locate?, locate?, ← List.head?_filter, ← List.head?_filter]
  congr 1
  apply List.filter_congr
  intro mapped member
  have apart := clear mapped member
  rw [Bool.eq_iff_iff, MappedRegion.holds_iff, MappedRegion.holds_iff]
  omega

/-- A look-up asks for at least one byte, or for none at an address where no region ends. -/
def Definite (memory : Memory) (address : Word) (length : Nat) : Prop :=
  0 < length ∨ ∀ mapped ∈ memory.regions, mapped.region.stop ≠ address.toNat

/-- A definite look-up does not depend on the order of the regions. -/
theorem Definite.findRegion_perm (definite : memory.Definite address length) {reordered : Memory}
    (valid : memory.Valid) (again : reordered.Valid)
    (perm : reordered.regions.Perm memory.regions) :
    reordered.findRegion address length = memory.findRegion address length := by
  have located : reordered.locate? address length = memory.locate? address length := by
    rcases definite with some_ | clear
    · exact locate?_perm valid again perm some_
    · rcases Nat.eq_zero_or_pos length with rfl | some_
      · have reorderedClear : ∀ mapped ∈ reordered.regions, mapped.region.stop ≠ address.toNat :=
          fun mapped member => clear mapped (perm.mem_iff.1 member)
        rw [locate?_zero clear, locate?_zero reorderedClear]
        exact locate?_perm valid again perm Nat.one_pos
      · exact locate?_perm valid again perm some_
  rw [findRegion, findRegion, located]

/-- What a definite look-up finds has the address and covers the range. -/
theorem Definite.located (definite : memory.Definite address length) {mapped : MappedRegion}
    (located : memory.locate? address length = some mapped) :
    mapped ∈ memory.regions ∧ mapped.region.Has address ∧ mapped.region.Covers address length := by
  obtain ⟨member, holds⟩ := locate?_some located
  obtain ⟨low, high⟩ := MappedRegion.holds_iff.1 holds
  refine ⟨member, ⟨low, ?_⟩, ?_⟩
  · rcases definite with some_ | clear
    · omega
    · have apart := clear mapped member
      omega
  · intro index inside
    omega

/-- How a look-up should come out for regions that were mapped in some order: in every order they
can be mapped as well and the answer is the same; a region that is found has the address and covers
the range; and there is none where no region has the address. -/
structure Settled (config : MemoryConfig) (mappings : List Mapping) (memory : Memory)
    (address : Word) (length : Nat) : Prop where
  same : ∀ other, other.Perm mappings → ∃ reordered, (empty config).mapAll other = .ok reordered ∧
    reordered.findRegion address length = memory.findRegion address length
  found : ∀ region, memory.findRegion address length = .ok region →
    region.Has address ∧ region.Covers address length
  lost : (∀ mapped ∈ memory.regions, ¬ mapped.region.Has address) →
    memory.findRegion address length = .error (.of address length)

theorem Definite.settled {config : MemoryConfig}
    (mapped : (empty config).mapAll mappings = .ok memory)
    (definite : memory.Definite address length) :
    Settled config mappings memory address length where
  same other perm := by
    obtain ⟨compatible, rfl⟩ := mapAll_eq_ok_iff.1 mapped
    have again := mapAll_eq_ok_iff.2 ⟨compatible.perm perm, rfl⟩
    have valid := valid_empty config
    exact ⟨_, again, definite.findRegion_perm (valid.mapAll mapped) (valid.mapAll again)
      (perm.map Mapping.mapped)⟩
  found region found := by
    rw [findRegion] at found
    split at found
    · rename_i mapped located
      cases found
      exact (definite.located located).2
    · cases found
  lost none_ := by
    rw [findRegion]
    split
    · rename_i mapped located
      obtain ⟨member, has, _⟩ := definite.located located
      exact absurd has (none_ mapped member)
    · rfl

/-- A region that ends at an address is found there by a look-up of no bytes if it is mapped
first. -/
theorem findRegion_first {config : MemoryConfig} {rest : List Mapping}
    (ends : mapping.mapped.region.stop = address.toNat) :
    ((empty config).extendAll (mapping :: rest)).findRegion address 0 =
      .ok mapping.mapped.region := by
  have holds : mapping.mapped.holds address 0 := by
    rw [MappedRegion.holds_iff, ← ends]
    exact ⟨Nat.le_add_right _ _, Nat.le_refl _⟩
  have located : ((empty config).extendAll (mapping :: rest)).locate? address 0 =
      some mapping.mapped :=
    List.find?_cons_of_pos holds
  rw [findRegion, located]

/-- For regions mapped in some order, exactly the definite look-ups are settled. Where a region ends
at the address, a look-up of no bytes finds that one if it is mapped first, although it does not
have the address. -/
theorem settled_iff {config : MemoryConfig} (mapped : (empty config).mapAll mappings = .ok memory)
    (address : Word) (length : Nat) :
    Settled config mappings memory address length ↔ memory.Definite address length := by
  constructor
  · intro settled
    rcases Nat.eq_zero_or_pos length with rfl | some_
    · refine Or.inr fun region member ends => ?_
      obtain ⟨_, rfl⟩ := mapAll_eq_ok_iff.1 mapped
      obtain ⟨mapping, listed, rfl⟩ := List.mem_map.1 member
      obtain ⟨before, after, rfl⟩ := List.append_of_mem listed
      obtain ⟨reordered, again, same⟩ := settled.same _ List.perm_middle.symm
      obtain ⟨_, rfl⟩ := mapAll_eq_ok_iff.1 again
      rw [findRegion_first ends] at same
      obtain ⟨⟨_, short⟩, _⟩ := settled.found _ same.symm
      exact Nat.lt_irrefl _ (ends ▸ short)
    · exact Or.inl some_
  · exact Definite.settled mapped

/-- Two regions, the second beginning where the first ends. -/
def adjacent : List Mapping := [.ram "low" 0 16, .ram "high" 16 16]

/-- At the address where one region ends and the next begins, a look-up of one byte is settled and a
look-up of none is not. -/
theorem settled_iff_adjacent :
    ∃ memory, (empty ⟨false⟩).mapAll adjacent = .ok memory ∧
      Settled ⟨false⟩ adjacent memory 16 1 ∧ ¬ Settled ⟨false⟩ adjacent memory 16 0 := by
  refine ⟨_, rfl, (settled_iff rfl 16 1).2 (Or.inl Nat.one_pos), ?_⟩
  rw [settled_iff rfl 16 0]
  rintro (some_ | clear)
  · exact Nat.lt_irrefl 0 some_
  · exact clear _ List.mem_cons_self rfl

/-- There a look-up of no bytes finds the region that was mapped first; and it finds the lower
region, which does not have the address, even where no other is mapped. -/
theorem empty_lookup_depends_on_order :
    ((empty ⟨false⟩).mapAll adjacent).bind (·.findRegion 16 0) = .ok ⟨0, 16⟩ ∧
      ((empty ⟨false⟩).mapAll adjacent.reverse).bind (·.findRegion 16 0) = .ok ⟨16, 16⟩ ∧
        ((empty ⟨false⟩).mapAll (adjacent.take 1)).bind (·.findRegion 16 0) = .ok ⟨0, 16⟩ ∧
          ¬ Region.Has ⟨0, 16⟩ 16 := by
  refine ⟨rfl, rfl, rfl, ?_⟩
  rintro ⟨_, short⟩
  exact Nat.lt_irrefl 16 short

end Memory

end ThumbMachine
