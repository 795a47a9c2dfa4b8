/-
Module: ThumbMachine.Proofs.ByteMap
Purpose: Memory as a map from addresses to bytes. Reading a datum, writing one and putting bytes
  into memory are what they say on that map, granted exactly where one region covers the range and
  the access is allowed; a refusal names the range and changes nothing.
Main exports: Region.Covers, Datum.split, Memory.replace_regions, Memory.byte?_replace,
  Memory.Overwritten, Memory.Reads, Memory.Puts, Memory.Flat, Memory.flat_after
-/
import Mathlib.Algebra.BigOperators.Ring.Finset
import ThumbMachine.Proofs.RegionTable

namespace ThumbMachine

/-! ## Numbers as bytes -/

namespace LittleEndian

/-- A byte string denotes the sum of its bytes, each weighted by its place. -/
theorem value_map_range (byte : Nat → Byte) (count : Nat) :
    value ((List.range count).map byte) =
      ∑ index ∈ Finset.range count, (byte index).toNat * 256 ^ index := by
  induction count generalizing byte with
  | zero => rfl
  | succ count inductionHypothesis =>
      rw [List.range_succ_eq_map, List.map_cons, List.map_map, value, Finset.sum_range_succ',
        inductionHypothesis, Finset.mul_sum, Nat.pow_zero, Nat.mul_one, Nat.add_comm]
      congr 1
      apply Finset.sum_congr rfl
      intro index _
      rw [Nat.pow_succ']
      exact Nat.mul_left_comm 256 _ _

theorem value_lt (bytes : List Byte) : value bytes < 256 ^ bytes.length := by
  induction bytes with
  | nil => exact Nat.one_pos
  | cons byte rest inductionHypothesis =>
      have bound := byte.isLt
      rw [value, List.length_cons, Nat.pow_succ']
      omega

/-- Each byte of a number is cut out of it at its place. -/
theorem bytes_eq_map (count number : Nat) :
    bytes count number = (List.range count).map fun index =>
      BitVec.ofNat 8 (number / 256 ^ index) := by
  induction count generalizing number with
  | zero => rfl
  | succ count inductionHypothesis =>
      rw [List.range_succ_eq_map, List.map_cons, List.map_map, bytes, inductionHypothesis,
        Nat.pow_zero, Nat.div_one]
      congr 1
      apply List.map_congr_left
      intro index _
      rw [Function.comp_apply, Nat.pow_succ', Nat.div_div_eq_div_mul]

/-- The low bytes of a number are those of its low part. -/
theorem bytes_mod (count number : Nat) :
    bytes count (number % 256 ^ count) = bytes count number := by
  induction count generalizing number with
  | zero => rfl
  | succ count inductionHypothesis =>
      have low : BitVec.ofNat 8 (number % 256 ^ (count + 1)) = BitVec.ofNat 8 number := by
        apply BitVec.eq_of_toNat_eq
        rw [BitVec.toNat_ofNat, BitVec.toNat_ofNat, Nat.pow_succ']
        exact Nat.mod_mul_right_mod number 256 _
      have high : number % 256 ^ (count + 1) / 256 = number / 256 % 256 ^ count := by
        rw [Nat.pow_succ']
        exact Nat.mod_mul_right_div_self number 256 _
      rw [bytes, bytes, low, high, inductionHypothesis]

end LittleEndian

theorem Memory.length_of_readBytes {memory : Memory} {address : Word} {length : Nat}
    {bytes : List Byte} (read : memory.readBytes address length = .ok bytes) :
    bytes.length = length := by
  obtain ⟨_, mapped, _, rfl⟩ := readBytes_eq_ok_iff.1 read
  exact mapped.contents.length_slice _ _

namespace Datum

theorem bytes_pos (datum : Datum) : 0 < datum.bytes := by
  cases datum <;> decide

/-- The low bytes of a word, the least significant first. -/
def split (datum : Datum) (value : Word) : List Byte :=
  (List.range datum.bytes).map fun index => value.extractLsb' (8 * index) 8

@[simp] theorem length_split (datum : Datum) (value : Word) :
    (datum.split value).length = datum.bytes := by
  simp [split]

theorem split_eq (datum : Datum) (value : Word) :
    datum.split value = LittleEndian.bytes datum.bytes value.toNat := by
  rw [split, LittleEndian.bytes_eq_map]
  apply List.map_congr_left
  intro index _
  rw [BitVec.extractLsb', Nat.shiftRight_eq_div_pow, Nat.pow_mul]

example : halfword.split 0xCAFEF00D = [0x0D, 0xF0] := by decide

/-- A datum is written as the bytes it is made of. -/
theorem write_eq_split (datum : Datum) (memory : Memory) (address value : Word) :
    datum.write memory address value = memory.writeBytes address (datum.split value) := by
  rw [split_eq]
  cases datum with
  | word => rfl
  | halfword =>
      have low : (value.setWidth 16).toNat = value.toNat % 256 ^ 2 := BitVec.toNat_setWidth 16 value
      rw [write, Memory.writeHalfword, Memory.writeDatum, low, LittleEndian.bytes_mod, bytes]
  | byte =>
      have low : (value.setWidth 8).toNat = value.toNat % 256 ^ 1 := BitVec.toNat_setWidth 8 value
      rw [write, Memory.writeByte, Memory.writeDatum, low, LittleEndian.bytes_mod, bytes]

/-- A datum is read as the number its bytes denote. -/
theorem read_eq_value (datum : Datum) (memory : Memory) (address : Word) :
    datum.read memory address = (memory.readBytes address datum.bytes).map fun bytes =>
      BitVec.ofNat 32 (LittleEndian.value bytes) := by
  cases read : memory.readBytes address datum.bytes with
  | error access =>
      obtain ⟨ofBytes, eq⟩ := datum.read_eq address
      rw [eq, read]
      rfl
  | ok bytes =>
      have bound := LittleEndian.value_lt bytes
      rw [Memory.length_of_readBytes read] at bound
      cases datum with
      | word =>
          change memory.readBytes address 4 = .ok bytes at read
          rw [Datum.read, Memory.readWord, Memory.readDatum, read]
      | halfword =>
          change memory.readBytes address 2 = .ok bytes at read
          rw [Datum.read, Memory.readHalfword, Memory.readDatum, read]
          exact congrArg Except.ok (BitVec.setWidth_ofNat_of_le_of_lt (by decide) bound)
      | byte =>
          change memory.readBytes address 1 = .ok bytes at read
          rw [Datum.read, Memory.readByte, Memory.readDatum, read]
          exact congrArg Except.ok (BitVec.setWidth_ofNat_of_le_of_lt (by decide) bound)

end Datum

/-! ## Ranges of addresses -/

/-- Whether the `length` bytes from an address on all lie in the block. None does that would come
after the last address of all. -/
def Region.Covers (region : Region) (address : Word) (length : Nat) : Prop :=
  ∀ index < length, region.start.toNat ≤ address.toNat + index ∧ address.toNat + index < region.stop

theorem MappedRegion.holds_iff_covers {mapped : MappedRegion} {address : Word} {length : Nat}
    (some_ : 0 < length) :
    mapped.holds address length = true ↔ mapped.region.Covers address length := by
  rw [holds_iff]
  constructor
  · rintro ⟨low, high⟩ index inside
    omega
  · intro covers
    have first := covers 0 some_
    have last := covers (length - 1) (Nat.sub_one_lt_of_lt some_)
    omega

/-- The byte at an address of a region after a write: the one written there, or else the one that
was there. -/
theorem MappedRegion.get_write {mapped : MappedRegion} {address other : Word} {bytes : List Byte}
    (holds : mapped.holds address bytes.length) (has : mapped.holds other 1) :
    (mapped.write address bytes).contents.get ((mapped.write address bytes).offset other) =
      if address.toNat ≤ other.toNat ∧ other.toNat < address.toNat + bytes.length then
        bytes.getD (other.toNat - address.toNat) 0
      else mapped.contents.get (mapped.offset other) := by
  obtain ⟨behind, _⟩ := holds_iff.1 holds
  obtain ⟨first, _⟩ := holds_iff.1 has
  have place : mapped.offset other - mapped.offset address = other.toNat - address.toNat := by
    rw [offset, offset]
    omega
  have inside : (mapped.offset address ≤ mapped.offset other ∧
      mapped.offset other < mapped.offset address + bytes.length) ↔
        (address.toNat ≤ other.toNat ∧ other.toNat < address.toNat + bytes.length) := by
    rw [offset, offset]
    omega
  change (mapped.contents.splice (mapped.offset address) bytes).get (mapped.offset other) = _
  rw [Contents.get_splice, place]
  simp only [inside]

namespace Memory

variable {memory : Memory} {address : Word}

/-- Whether an access of some bytes is where the configuration allows it. -/
def Suits (memory : Memory) (address : Word) (length : Nat) : Prop :=
  memory.config.strictAlignment = false ∨ length ∣ address.toNat

theorem aligned_iff {length : Nat} :
    memory.aligned address length = true ↔ memory.Suits address length := by
  rw [aligned, Suits, Bool.or_eq_true, Bool.not_eq_true', beq_iff_eq, Nat.dvd_iff_mod_eq_zero]

/-- A look-up finds the one region that covers the range. -/
theorem locate?_eq_some_iff_covers (valid : memory.Valid) {length : Nat} (some_ : 0 < length)
    {mapped : MappedRegion} : memory.locate? address length = some mapped ↔
      mapped ∈ memory.regions ∧ mapped.region.Covers address length := by
  rw [locate?_eq_some_iff valid some_, MappedRegion.holds_iff_covers some_]

/-! ## The byte at an address -/

theorem byte?_of_has (valid : memory.Valid) {mapped : MappedRegion}
    (member : mapped ∈ memory.regions) (has : mapped.region.Has address) :
    memory.byte? address = some (mapped.contents.get (mapped.offset address)) := by
  have holds : mapped.holds address 1 := MappedRegion.holds_iff.2 has
  rw [byte?, locate?_of_mem valid member Nat.one_pos holds, Option.map_some]

theorem byte?_eq_none_iff :
    memory.byte? address = none ↔ ∀ mapped ∈ memory.regions, ¬ mapped.region.Has address := by
  rw [byte?, Option.map_eq_none_iff, locate?_eq_none_iff]
  apply forall₂_congr
  intro mapped _
  rw [← Bool.not_eq_true, MappedRegion.holds_iff]
  rfl

/-- The bytes at the addresses of a range are those of the region that covers it, one after the
other. -/
theorem byte?_of_covers (valid : memory.Valid) {mapped : MappedRegion}
    (member : mapped ∈ memory.regions) {length index : Nat}
    (covers : mapped.region.Covers address length) (inside : index < length) :
    memory.byte? (address + BitVec.ofNat 32 index) =
      some (mapped.contents.get (mapped.offset address + index)) := by
  have first := covers 0 (Nat.zero_lt_of_lt inside)
  have covered := covers index inside
  have bound := valid.bounded _ (List.mem_map_of_mem member)
  have place := Word.toNat_add_ofNat (Nat.lt_of_lt_of_le covered.2 bound)
  have has : mapped.region.Has (address + BitVec.ofNat 32 index) := by
    rw [Region.Has, place]
    exact covered
  have behind : mapped.offset (address + BitVec.ofNat 32 index) =
      mapped.offset address + index := by
    rw [MappedRegion.offset, MappedRegion.offset, place]
    exact Nat.sub_add_comm first.1
  rw [byte?_of_has valid member has, behind]

/-! ## Replacing bytes -/

/-- Where no two regions pass a test, changing the first that passes it changes each that does. -/
theorem modifyFirst_eq_map {test : MappedRegion → Bool} {change : MappedRegion → MappedRegion}
    {regions : List MappedRegion}
    (single : regions.Pairwise fun one other => test one → test other = false) :
    modifyFirst test change regions =
      regions.map fun mapped => if test mapped then change mapped else mapped := by
  induction single with
  | nil => rfl
  | @cons first rest fails _ inductionHypothesis =>
      rw [modifyFirst, List.map_cons]
      split
      · rename_i passes
        have kept : rest.map (fun mapped => if test mapped then change mapped else mapped) =
            rest := by
          rw [List.map_congr_left, List.map_id]
          intro mapped member
          rw [fails mapped member passes]
          rfl
        rw [kept]
      · rw [inductionHypothesis]

/-- Bytes that a region covers are replaced in that region alone. -/
theorem replace_regions (valid : memory.Valid) {bytes : List Byte} (some_ : bytes ≠ []) :
    (memory.replace address bytes).regions = memory.regions.map fun mapped =>
      if mapped.holds address bytes.length then mapped.write address bytes else mapped := by
  apply modifyFirst_eq_map
  have apart := valid.apart
  rw [layout, List.pairwise_map] at apart
  apply apart.imp
  intro one other clear left
  rw [Bool.eq_false_iff]
  intro right
  have overlap := Region.overlaps_of_contains (List.length_pos_iff.2 some_) left right
  rw [clear] at overlap
  cases overlap

/-- A look-up after a replacement finds the region it found before, with the bytes replaced if it is
the one that has them. -/
theorem locate?_replace (valid : memory.Valid) {bytes : List Byte} (some_ : bytes ≠ [])
    (other : Word) (length : Nat) : (memory.replace address bytes).locate? other length =
      (memory.locate? other length).map fun mapped =>
        if mapped.holds address bytes.length then mapped.write address bytes else mapped := by
  have kept : ((·.holds other length) ∘ fun mapped : MappedRegion =>
      if mapped.holds address bytes.length then mapped.write address bytes else mapped) =
        (·.holds other length) := by
    funext mapped
    rw [Function.comp_apply]
    split
    · rfl
    · rfl
  rw [locate?, replace_regions valid some_, List.find?_map, kept]
  rfl

/-- The byte at an address after a replacement: the one put there, or else the one that was
there. -/
theorem byte?_replace (valid : memory.Valid) {bytes : List Byte} (some_ : bytes ≠ [])
    {found : MappedRegion} (located : memory.locate? address bytes.length = some found)
    (other : Word) :
    (memory.replace address bytes).byte? other =
      if address.toNat ≤ other.toNat ∧ other.toNat < address.toNat + bytes.length then
        bytes[other.toNat - address.toNat]?
      else memory.byte? other := by
  rw [byte?, locate?_replace valid some_, byte?]
  split
  · rename_i within
    obtain ⟨member, holds⟩ := locate?_some located
    have covers := MappedRegion.holds_iff.1 holds
    have has : found.holds other 1 := MappedRegion.holds_iff.2 (by omega)
    have place : other.toNat - address.toNat < bytes.length := by omega
    rw [locate?_of_mem valid member Nat.one_pos has, Option.map_some, Option.map_some, if_pos holds,
      MappedRegion.get_write holds has, if_pos within, List.getD_eq_getElem?_getD,
      List.getElem?_eq_getElem place]
    rfl
  · rename_i outside
    cases seen : memory.locate? other 1 with
    | none => rfl
    | some mapped =>
        rw [Option.map_some, Option.map_some, Option.map_some]
        split
        · rename_i holds
          rw [MappedRegion.get_write holds (locate?_some seen).2, if_neg outside]
        · rfl

/-- The names, bounds and access rights of the regions, in the order of mapping. -/
def table (memory : Memory) : List (String × Region × Access) :=
  memory.regions.map fun mapped => (mapped.name, mapped.region, mapped.access)

/-- The byte map with the bytes of a range replaced: the new ones stand there in order, and every
other byte, the table of regions and the configuration are as before. -/
structure Overwritten (memory : Memory) (address : Word) (bytes : List Byte) (next : Memory) :
    Prop where
  placed : ∀ index < bytes.length, next.byte? (address + BitVec.ofNat 32 index) = bytes[index]?
  others : ∀ other, (∀ index < bytes.length, other ≠ address + BitVec.ofNat 32 index) →
    next.byte? other = memory.byte? other
  table : next.table = memory.table
  config : next.config = memory.config

theorem overwritten_replace (valid : memory.Valid) {bytes : List Byte} (some_ : bytes ≠ [])
    {found : MappedRegion} (located : memory.locate? address bytes.length = some found) :
    memory.Overwritten address bytes (memory.replace address bytes) where
  placed index inside := by
    obtain ⟨member, holds⟩ := locate?_some located
    have bound := valid.bounded _ (List.mem_map_of_mem member)
    have covers := MappedRegion.holds_iff.1 holds
    have place := Word.toNat_add_ofNat (show address.toNat + index < 0x100000000 by omega)
    rw [byte?_replace valid some_ located, place, if_pos (by omega), Nat.add_sub_cancel_left]
  others other apart := by
    rw [byte?_replace valid some_ located, if_neg]
    rintro ⟨low, high⟩
    apply apart (other.toNat - address.toNat) (by omega)
    apply BitVec.eq_of_toNat_eq
    have bound := other.isLt
    rw [Word.toNat_add_ofNat (by omega)]
    omega
  table := map_modifyFirst (·.holds address bytes.length) (·.write address bytes) (fun _ => rfl)
    memory.regions
  config := rfl

end Memory

/-- A refusal that names a range: its address and its length, or the largest word for a length past
it. -/
structure InvalidAccess.Names (access : InvalidAccess) (address : Word) (length : Nat) : Prop where
  address : access.address = address
  size : access.size.toNat = min length 0xFFFFFFFF

theorem InvalidAccess.of_names (address : Word) (length : Nat) :
    (of address length).Names address length where
  address := rfl
  size := Word.toNat_ofNat_of_lt (Nat.lt_of_le_of_lt (Nat.min_le_right _ _) (by decide))

namespace Memory

variable {memory : Memory} {address : Word}

/-! ## Accesses on the byte map -/

/-- One region covers a range. -/
def Covers (memory : Memory) (address : Word) (length : Nat) : Prop :=
  ∃ mapped ∈ memory.regions, mapped.region.Covers address length

/-- One region covers a range, and it is writable. -/
def CoversWritable (memory : Memory) (address : Word) (length : Nat) : Prop :=
  ∃ mapped ∈ memory.regions, mapped.region.Covers address length ∧ mapped.access = .readWrite

theorem CoversWritable.covers {length : Nat} (writable : memory.CoversWritable address length) :
    memory.Covers address length := by
  obtain ⟨mapped, member, covers, _⟩ := writable
  exact ⟨mapped, member, covers⟩

/-- Reading a datum on the byte map. Where one region covers it and the configuration allows the
address, it is the number its bytes denote; otherwise the refusal names it. -/
structure Reads (memory : Memory) (datum : Datum) (address : Word) : Prop where
  granted : memory.Covers address datum.bytes ∧ memory.Suits address datum.bytes →
    ∃ (value : Word) (byte : Nat → Byte), datum.read memory address = .ok value ∧
      (∀ index < datum.bytes, memory.byte? (address + BitVec.ofNat 32 index) = some (byte index)) ∧
      value.toNat = ∑ index ∈ Finset.range datum.bytes, (byte index).toNat * 256 ^ index
  refused : ¬ (memory.Covers address datum.bytes ∧ memory.Suits address datum.bytes) →
    ∃ access, datum.read memory address = .error access ∧ access.Names address datum.bytes

/-- Putting bytes at an address of the byte map, with the outcome it has. Where it is allowed, they
replace those of their range; otherwise the refusal names the range. -/
structure Puts (memory : Memory) (address : Word) (bytes : List Byte) (allowed : Prop)
    (outcome : Except InvalidAccess Memory) : Prop where
  granted : allowed → ∃ next, outcome = .ok next ∧ memory.Overwritten address bytes next
  refused : ¬ allowed → ∃ access, outcome = .error access ∧ access.Names address bytes.length

/-- Bytes that were put somewhere were allowed there. -/
theorem Puts.of_ok {bytes : List Byte} {allowed : Prop} {next : Memory}
    (puts : memory.Puts address bytes allowed (.ok next)) :
    allowed ∧ memory.Overwritten address bytes next := by
  by_cases granted : allowed
  · obtain ⟨_, ⟨⟩, overwritten⟩ := puts.granted granted
    exact ⟨granted, overwritten⟩
  · obtain ⟨_, ⟨⟩, _⟩ := puts.refused granted

theorem reads (valid : memory.Valid) (datum : Datum) (address : Word) :
    memory.Reads datum address where
  granted := by
    rintro ⟨⟨mapped, member, covers⟩, suits⟩
    have located := (locate?_eq_some_iff_covers valid datum.bytes_pos).2 ⟨member, covers⟩
    have read := readBytes_eq_ok_iff.2 ⟨aligned_iff.2 suits, mapped, located, rfl⟩
    have value := datum.read_eq_value memory address
    rw [read] at value
    refine ⟨_, fun index => mapped.contents.get (mapped.offset address + index), value, ?_, ?_⟩
    · exact fun _ inside => byte?_of_covers valid member covers inside
    · have bound := LittleEndian.value_lt (mapped.read address datum.bytes)
      rw [length_of_readBytes read] at bound
      have fits : 256 ^ datum.bytes ≤ 2 ^ 32 := by
        cases datum <;> decide
      rw [BitVec.toNat_ofNat, Nat.mod_eq_of_lt (Nat.lt_of_lt_of_le bound fits), MappedRegion.read,
        Contents.slice, LittleEndian.value_map_range]
  refused := by
    intro excluded
    rw [datum.read_eq_value]
    cases read : memory.readBytes address datum.bytes with
    | error access =>
        rw [eq_of_readBytes_refused read]
        exact ⟨_, rfl, InvalidAccess.of_names address datum.bytes⟩
    | ok bytes =>
        obtain ⟨aligned, mapped, located, _⟩ := readBytes_eq_ok_iff.1 read
        have found := (locate?_eq_some_iff_covers valid datum.bytes_pos).1 located
        exact absurd ⟨⟨mapped, found⟩, aligned_iff.1 aligned⟩ excluded

/-- A datum is written where the one region that covers it is writable and its address is
allowed. -/
theorem write_puts (valid : memory.Valid) (datum : Datum) (address value : Word) :
    memory.Puts address (datum.split value)
      (memory.CoversWritable address datum.bytes ∧ memory.Suits address datum.bytes)
      (datum.write memory address value) := by
  have length := datum.length_split value
  have some_ : datum.split value ≠ [] := by
    rw [← List.length_pos_iff, length]
    exact datum.bytes_pos
  rw [datum.write_eq_split]
  constructor
  · rintro ⟨⟨mapped, member, covers, writable⟩, suits⟩
    have located := (locate?_eq_some_iff_covers valid datum.bytes_pos).2 ⟨member, covers⟩
    rw [← length] at located suits
    exact ⟨_, writeBytes_eq_ok_iff.2 ⟨aligned_iff.2 suits, ⟨mapped, located, writable⟩, rfl⟩,
      overwritten_replace valid some_ located⟩
  · intro excluded
    cases written : memory.writeBytes address (datum.split value) with
    | error access =>
        rw [eq_of_writeBytes_refused written]
        exact ⟨_, rfl, InvalidAccess.of_names address _⟩
    | ok next =>
        obtain ⟨aligned, ⟨mapped, located, writable⟩, _⟩ := writeBytes_eq_ok_iff.1 written
        rw [length] at located aligned
        obtain ⟨member, covers⟩ := (locate?_eq_some_iff_covers valid datum.bytes_pos).1 located
        exact absurd ⟨⟨mapped, member, covers, writable⟩, aligned_iff.1 aligned⟩ excluded

/-- The host puts bytes wherever one region covers them. -/
theorem load_puts (valid : memory.Valid) (address : Word) {bytes : List Byte} (some_ : bytes ≠ []) :
    memory.Puts address bytes (memory.Covers address bytes.length) (memory.load address bytes) := by
  have found (mapped : MappedRegion) : memory.locate? address bytes.length = some mapped ↔
      mapped ∈ memory.regions ∧ mapped.region.Covers address bytes.length :=
    locate?_eq_some_iff_covers valid (List.length_pos_iff.2 some_)
  constructor
  · rintro ⟨mapped, covers⟩
    have located := (found mapped).2 covers
    exact ⟨_, load_eq_ok_iff.2 ⟨⟨mapped, located⟩, rfl⟩, overwritten_replace valid some_ located⟩
  · intro excluded
    rw [load]
    cases located : memory.locate? address bytes.length with
    | none => exact ⟨_, rfl, InvalidAccess.of_names address bytes.length⟩
    | some mapped => exact absurd ⟨mapped, (found mapped).1 located⟩ excluded

/-! ## The byte map after any requests -/

/-- Memory is its byte map. The map shows at each address of a region the byte of the region that
belongs there and nothing elsewhere; data are read from it and written to it, and the host puts
bytes into it, as the byte map says; and a refused request changes nothing. -/
structure Flat (memory : Memory) : Prop where
  shown : ∀ mapped ∈ memory.regions, ∀ address, mapped.region.Has address →
    memory.byte? address = mapped.contents.toList[mapped.offset address]?
  unmapped : ∀ address, memory.byte? address = none ↔
    ∀ mapped ∈ memory.regions, ¬ mapped.region.Has address
  read : ∀ datum address, memory.Reads datum address
  write : ∀ (datum : Datum) address value, memory.Puts address (datum.split value)
    (memory.CoversWritable address datum.bytes ∧ memory.Suits address datum.bytes)
    (datum.write memory address value)
  load : ∀ address bytes, bytes ≠ [] →
    memory.Puts address bytes (memory.Covers address bytes.length) (memory.load address bytes)
  refused : ∀ command access, memory.perform command = .error access →
    memory.answer command = memory

/-- Whatever was asked of a memory that began without regions, it is its byte map. -/
theorem flat_after (config : MemoryConfig) (commands : List Command) :
    ((empty config).after commands).Flat := by
  have valid := (assembled_after config commands).valid
  have filled := filled_after config commands
  generalize (empty config).after commands = memory at valid filled
  constructor
  · intro mapped member address has
    have holds : mapped.holds address 1 := MappedRegion.holds_iff.2 has
    have inside : mapped.offset address < mapped.contents.size := (filled mapped member).slice holds
    rw [byte?_of_has valid member has, Contents.getElem?_toList inside]
  · exact fun _ => byte?_eq_none_iff
  · exact reads valid
  · exact write_puts valid
  · exact fun address _ some_ => load_puts valid address some_
  · exact fun _ _ => answer_of_refused

/-- Eight writable bytes in a strict memory, with a word put into the first four. -/
def scratch : Memory :=
  (empty ⟨true⟩).after [.mapRam "ram" 0x20000000 8, .load 0x20000000 [0x78, 0x56, 0x34, 0x12]]

theorem scratch_coversWritable {address : Word} {length : Nat} (low : 0x20000000 ≤ address.toNat)
    (high : address.toNat + length ≤ 0x20000008) : scratch.CoversWritable address length := by
  refine ⟨_, List.mem_singleton_self _, ?_, rfl⟩
  intro index inside
  change 0x20000000 ≤ _ ∧ _ < 0x20000008
  omega

/-- The word is read from its four bytes. A halfword written over the upper two replaces these and
leaves the others as they were. There a word is refused, since its address is no multiple of 4. -/
theorem flat_after_scratch :
    Datum.word.read scratch 0x20000000 = .ok 0x12345678 ∧
      (∃ next, Datum.halfword.write scratch 0x20000002 0xCAFEF00D = .ok next ∧
        next.byte? 0x20000001 = some 0x56 ∧ next.byte? 0x20000002 = some 0x0D ∧
        next.byte? 0x20000003 = some 0xF0) ∧
      ∃ access, Datum.word.read scratch 0x20000002 = .error access ∧
        access.Names 0x20000002 4 := by
  have flat : scratch.Flat := flat_after _ _
  have low : scratch.CoversWritable 0x20000000 4 := scratch_coversWritable (by decide) (by decide)
  have high : scratch.CoversWritable 0x20000002 2 := scratch_coversWritable (by decide) (by decide)
  have strict : ¬ scratch.Suits 0x20000002 4 := by
    rw [← aligned_iff]
    decide
  refine ⟨?_, ?_, (flat.read .word 0x20000002).refused fun granted => strict granted.2⟩
  · obtain ⟨value, byte, read, held, sum⟩ :=
      (flat.read .word 0x20000000).granted ⟨low.covers, .inr (by decide)⟩
    have shown (index : Nat) (inside : index < 4) :
        [0x78, 0x56, 0x34, 0x12][index]? = some (byte index) := by
      rw [← held index inside]
      decide +revert +kernel
    have first : byte 0 = 0x78 := Option.some.inj (shown 0 (by decide)).symm
    have second : byte 1 = 0x56 := Option.some.inj (shown 1 (by decide)).symm
    have third : byte 2 = 0x34 := Option.some.inj (shown 2 (by decide)).symm
    have fourth : byte 3 = 0x12 := Option.some.inj (shown 3 (by decide)).symm
    rw [read]
    apply congrArg Except.ok
    apply BitVec.eq_of_toNat_eq
    rw [sum]
    simp [Datum.bytes, Finset.sum_range_succ, first, second, third, fourth]
  · obtain ⟨next, written, overwritten⟩ :=
      (flat.write .halfword 0x20000002 0xCAFEF00D).granted ⟨high, .inr (by decide)⟩
    refine ⟨next, written, ?_, overwritten.placed 0 (by decide), overwritten.placed 1 (by decide)⟩
    rw [overwritten.others 0x20000001 (by decide)]
    decide +kernel

end Memory

end ThumbMachine
