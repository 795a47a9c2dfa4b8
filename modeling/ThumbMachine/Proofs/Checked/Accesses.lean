/-
Module: ThumbMachine.Proofs.Checked.Accesses
Purpose: Memory once more, with the checks on the way to its bytes: bounds added up on 64 bits,
  offsets that stay above zero, a region number that names a region, slices inside its bytes. Where
  every region has a byte for each of its addresses no check fails, and accesses come to what they
  come to without them.
Main exports: Checked.locate, Checked.read, Checked.write, Checked.findRegion, Checked.buildImage,
  Memory.Filled, Memory.Accessible, Memory.Filled.accessible, Checked.buildImage_eq
-/
import ThumbMachine.CodeImage
import ThumbMachine.Proofs.Checked.Primitives
import ThumbMachine.Proofs.Effects
import ThumbMachine.Proofs.RegionTable

namespace ThumbMachine

namespace Checked

/-! ## Finding a region -/

/-- The end of a region. -/
def stop (region : Region) : Checked Nat := sum64 region.start.toNat region.size.toNat

/-- Whether a range lies in a region. -/
def contains (region : Region) (address : Word) (length : Nat) : Checked Bool := do
  if region.start.toNat ≤ address.toNat then
    let last ← sum64 address.toNat length
    let stop ← stop region
    return decide (last ≤ stop)
  else
    return false

/-- The number of the first region that a range lies in. -/
def locate (address : Word) (length : Nat) : List MappedRegion → Checked (Option Nat)
  | [] => return none
  | mapped :: rest => do
      if ← contains mapped.region address length then
        return some 0
      else
        return (← locate address length rest).map (· + 1)

/-- The region with a number. -/
def regionAt (regions : List MappedRegion) (index : Nat) : Checked MappedRegion :=
  match regions[index]? with
  | some mapped => .ok mapped
  | none => .error .regionMissing

/-- The region that a range lies in. -/
def findRegion (memory : Memory) (address : Word) (length : Nat) :
    Checked (Except InvalidAccess Region) := do
  match ← locate address length memory.regions with
  | none => return .error (.of address length)
  | some index => return .ok (← regionAt memory.regions index).region

/-! ## Reaching its bytes -/

/-- Whether an access is aligned as strictly as the configuration asks. -/
def aligned (memory : Memory) (address : Word) (length : Nat) : Checked Bool := do
  if memory.config.strictAlignment then
    return (← remainder address.toNat length) == 0
  else
    return true

/-- Where a range starts in the bytes of its region. -/
def sliceAt (mapped : MappedRegion) (address : Word) (length : Nat) : Checked Nat := do
  let first ← difference address.toNat mapped.region.start.toNat
  let last ← sum64 first length
  ensure (first ≤ last ∧ last ≤ mapped.contents.size) .sliceOutside
  return first

/-- Reads a range of bytes. -/
def readBytes (memory : Memory) (address : Word) (length : Nat) :
    Checked (Except InvalidAccess (List Byte)) := do
  if ← aligned memory address length then
    match ← locate address length memory.regions with
    | none => return .error (.of address length)
    | some index => do
        let mapped ← regionAt memory.regions index
        let first ← sliceAt mapped address length
        let bytes := mapped.contents.slice first length
        ensure (bytes.length = length) .lengthMismatch
        return .ok bytes
  else
    return .error (.of address length)

/-- Writes a range of bytes. -/
def writeBytes (memory : Memory) (address : Word) (length : Nat) (bytes : List Byte) :
    Checked (Except InvalidAccess Memory) := do
  if ← aligned memory address length then
    match ← locate address length memory.regions with
    | none => return .error (.of address length)
    | some index => do
        let mapped ← regionAt memory.regions index
        match mapped.access with
        | .readOnly => return .error (.of address length)
        | .readWrite => do
            let first ← sliceAt mapped address length
            ensure (bytes.length = length) .lengthMismatch
            let written := { mapped with contents := mapped.contents.splice first bytes }
            return .ok { memory with regions := memory.regions.set index written }
  else
    return .error (.of address length)

/-- Reads a little-endian datum of `count` bytes. -/
def readDatum (memory : Memory) (count : Nat) (address : Word) :
    Checked (Except InvalidAccess (BitVec (8 * count))) := do
  return (← readBytes memory address count).map fun bytes =>
    BitVec.ofNat _ (LittleEndian.value bytes)

/-- Reads a datum and fills the word above it with zeros. -/
def read (datum : Datum) (memory : Memory) (address : Word) : Checked (Except InvalidAccess Word) :=
  match datum with
  | .word => readDatum memory 4 address
  | .halfword => do return (← readDatum memory 2 address).map (·.setWidth 32)
  | .byte => do return (← readDatum memory 1 address).map (·.setWidth 32)

/-- Writes the low bytes of a word. -/
def write (datum : Datum) (memory : Memory) (address value : Word) :
    Checked (Except InvalidAccess Memory) :=
  match datum with
  | .word => writeBytes memory address 4 (LittleEndian.bytes 4 value.toNat)
  | .halfword => writeBytes memory address 2 (LittleEndian.bytes 2 (value.setWidth 16).toNat)
  | .byte => writeBytes memory address 1 (LittleEndian.bytes 1 (value.setWidth 8).toNat)

/-! ## Taking a code snapshot -/

/-- The next even number, or the number itself. -/
def nextEven (number : Nat) : Checked Nat := do
  match ← remainder number 2 with
  | 0 => return number
  | rest => sum64 number (← difference 2 rest)

/-- Reads the halfwords with some numbers, counted from a base. -/
def readHalfwords (memory : Memory) (base : Nat) :
    List Nat → Checked (Except InvalidAccess (List Halfword))
  | [] => return .ok []
  | index :: rest => do
      let doubled ← product64 index 2
      let place ← sum64 base doubled
      match ← readDatum memory 2 (BitVec.ofNat 32 place) with
      | .error access => return .error access
      | .ok word =>
          match ← readHalfwords memory base rest with
          | .error access => return .error access
          | .ok words => return .ok (word :: words)

/-- Takes the snapshot of the region that holds two bytes at `pc`. -/
def buildImage (memory : Memory) (pc : Word) : Checked (Except InvalidAccess CodeImage) := do
  match ← findRegion memory pc 2 with
  | .error access => return .error access
  | .ok region => do
      let base ← nextEven region.start.toNat
      let count := ((← stop region) - base) / 2
      match ← readHalfwords memory base (List.range count) with
      | .error access => return .error access
      | .ok halfwords =>
          return .ok { region, base := BitVec.ofNat 32 base, halfwords := halfwords.toArray }

end Checked

namespace Memory

/-- Every region has a byte for each of its addresses. -/
def Filled (memory : Memory) : Prop := ∀ mapped ∈ memory.regions, mapped.Filled

/-- Writes do not change how many bytes a region has. -/
theorem Filled.written {memory next : Memory} (filled : memory.Filled)
    (written : memory.Written next) :
    next.Filled := by
  induction written with
  | same => exact filled
  | write before granted inductionHypothesis =>
      exact filled_change inductionHypothesis (change_of_written granted)

/-- However a memory is accessed, no check fails, and the access comes to what it comes to without
checks. -/
structure Accessible (memory : Memory) : Prop where
  read : ∀ datum address, Checked.read datum memory address = .ok (datum.read memory address)
  write : ∀ datum address value,
    Checked.write datum memory address value = .ok (datum.write memory address value)
  findRegion : ∀ address length, length < 0x100000000 →
    Checked.findRegion memory address length = .ok (memory.findRegion address length)

end Memory

namespace Checked

/-! ## No check fails -/

theorem stop_eq (region : Region) : stop region = .ok region.stop := by
  have first := region.start.isLt
  have last := region.size.isLt
  rw [stop, sum64_eq (by omega), Region.stop]

theorem contains_eq (region : Region) (address : Word) {length : Nat}
    (small : length < 0x100000000) :
    contains region address length = .ok (region.contains address length) := by
  have bound := address.isLt
  rw [contains, Region.contains]
  split
  · rename_i behind
    rw [sum64_eq (by omega), ok_bind, stop_eq, ok_bind, decide_eq_true behind, Bool.true_and]
    rfl
  · rename_i before
    rw [decide_eq_false before, Bool.false_and]
    rfl

/-- What a search for the first region that passes a test comes to. -/
inductive Located (test : MappedRegion → Bool) (regions : List MappedRegion) :
    Option Nat → Prop where
  | missing (none_ : regions.find? test = none) : Located test regions none
  | found {index : Nat} {mapped : MappedRegion} (there : regions[index]? = some mapped)
      (first : regions.find? test = some mapped)
      (replaced : ∀ change : MappedRegion → MappedRegion,
        regions.set index (change mapped) = Memory.modifyFirst test change regions) :
      Located test regions (some index)

theorem locate_eq (address : Word) {length : Nat} (small : length < 0x100000000)
    (regions : List MappedRegion) :
    ∃ number, locate address length regions = .ok number ∧
      Located (·.holds address length) regions number := by
  induction regions with
  | nil => exact ⟨none, rfl, .missing rfl⟩
  | cons head rest inductionHypothesis =>
      have checked : contains head.region address length = .ok (head.holds address length) :=
        contains_eq head.region address small
      rw [locate, checked, ok_bind]
      cases holds : head.holds address length with
      | true =>
          refine ⟨some 0, by rw [if_pos rfl]; rfl, .found rfl ?_ fun change => ?_⟩
          · exact List.find?_cons_of_pos holds
          · rw [Memory.modifyFirst, if_pos holds]
            rfl
      | false =>
          obtain ⟨number, searched, located⟩ := inductionHypothesis
          have passed : ¬ head.holds address length = true := by
            rw [holds]
            exact Bool.false_ne_true
          have skipped : (head :: rest).find? (·.holds address length) =
              rest.find? (·.holds address length) := List.find?_cons_of_neg passed
          rw [if_neg Bool.false_ne_true, searched, ok_bind]
          cases located with
          | missing none_ => exact ⟨none, rfl, .missing (skipped.trans none_)⟩
          | @found index mapped there first replaced =>
              refine ⟨some (index + 1), rfl, .found there (skipped.trans first) ?_⟩
              intro change
              rw [Memory.modifyFirst, if_neg passed, ← replaced]
              rfl

variable {memory : Memory}

theorem findRegion_eq (memory : Memory) (address : Word) {length : Nat}
    (small : length < 0x100000000) :
    findRegion memory address length = .ok (memory.findRegion address length) := by
  obtain ⟨number, searched, located⟩ := locate_eq address small memory.regions
  rw [findRegion, searched, ok_bind, Memory.findRegion, Memory.locate?]
  cases located with
  | missing none_ =>
      rw [none_]
      rfl
  | found there first _ =>
      rw [first]
      dsimp only
      rw [regionAt, there]
      rfl

theorem aligned_eq (memory : Memory) (address : Word) {length : Nat} (some_ : length ≠ 0) :
    aligned memory address length = .ok (memory.aligned address length) := by
  rw [aligned, Memory.aligned]
  cases memory.config.strictAlignment with
  | true =>
      rw [if_pos rfl, remainder_eq some_]
      rfl
  | false => rfl

theorem sliceAt_eq {mapped : MappedRegion} (filled : mapped.Filled) {address : Word} {length : Nat}
    (small : length < 0x100000000) (holds : mapped.holds address length) :
    sliceAt mapped address length = .ok (mapped.offset address) := by
  have behind := (MappedRegion.holds_iff.1 holds).1
  have inside := filled.slice holds
  have bound := address.isLt
  rw [MappedRegion.offset] at inside
  rw [sliceAt, difference_eq behind, ok_bind, sum64_eq (by omega), ok_bind, ensure_of (by omega)]
  rfl

theorem readBytes_eq (filled : memory.Filled) (address : Word) {length : Nat} (some_ : length ≠ 0)
    (small : length < 0x100000000) :
    readBytes memory address length = .ok (memory.readBytes address length) := by
  rw [readBytes, aligned_eq memory address some_, ok_bind, Memory.readBytes]
  split
  · obtain ⟨number, searched, located⟩ := locate_eq address small memory.regions
    rw [searched, ok_bind, Memory.locate?]
    cases located with
    | missing none_ =>
        rw [none_]
        rfl
    | @found index mapped there first _ =>
        obtain ⟨member, holds⟩ := Memory.locate?_some first
        have sliced := sliceAt_eq (filled mapped member) small holds
        have whole := mapped.contents.length_slice (mapped.offset address) length
        rw [first]
        dsimp only
        rw [regionAt, there]
        dsimp only
        rw [ok_bind, sliced, ok_bind, ensure_of whole]
        rfl
  · rfl

/-- A region with fewer bytes than addresses would be read past its end. -/
example :
    readBytes
      { config := ⟨false⟩
        regions :=
          [{ name := "short", region := ⟨0, 4⟩, access := .readOnly, contents := .ofBytes [1] }] }
      2 2 = .error .sliceOutside := by
  decide +kernel

theorem writeBytes_eq (filled : memory.Filled) (address : Word) (bytes : List Byte)
    (some_ : bytes.length ≠ 0) (small : bytes.length < 0x100000000) :
    writeBytes memory address bytes.length bytes = .ok (memory.writeBytes address bytes) := by
  rw [writeBytes, aligned_eq memory address some_, ok_bind, Memory.writeBytes]
  split
  · obtain ⟨number, searched, located⟩ := locate_eq address small memory.regions
    rw [searched, ok_bind, Memory.locate?]
    cases located with
    | missing none_ =>
        rw [none_]
        rfl
    | @found index mapped there first replaced =>
        obtain ⟨member, holds⟩ := Memory.locate?_some first
        have sliced := sliceAt_eq (filled mapped member) small holds
        rw [first]
        dsimp only
        rw [regionAt, there]
        dsimp only
        rw [ok_bind]
        cases access : mapped.access with
        | readOnly => rfl
        | readWrite =>
            dsimp only
            rw [sliced, ok_bind, ensure_of rfl, ok_bind]
            have placed := replaced (·.write address bytes)
            rw [MappedRegion.write, access] at placed
            rw [Memory.replace, ← placed]
            rfl
  · rfl

theorem readDatum_eq (filled : memory.Filled) (address : Word) {count : Nat} (some_ : count ≠ 0)
    (small : count < 0x100000000) :
    readDatum memory count address = .ok (memory.readDatum count address) := by
  rw [readDatum, readBytes_eq filled address some_ small]
  rfl

theorem read_eq (filled : memory.Filled) (datum : Datum) (address : Word) :
    read datum memory address = .ok (datum.read memory address) := by
  cases datum with
  | word => exact readDatum_eq filled address (by decide) (by decide)
  | halfword =>
      rw [read, readDatum_eq filled address (by decide) (by decide)]
      rfl
  | byte =>
      rw [read, readDatum_eq filled address (by decide) (by decide)]
      rfl

/-- A number of bytes given with their count. -/
theorem writeCounted_eq (filled : memory.Filled) (address : Word) (count number : Nat)
    (some_ : count ≠ 0) (small : count < 0x100000000) :
    writeBytes memory address count (LittleEndian.bytes count number) =
      .ok (memory.writeBytes address (LittleEndian.bytes count number)) := by
  have counted := LittleEndian.length_bytes count number
  have written := writeBytes_eq filled address (LittleEndian.bytes count number)
    (by rw [counted]; exact some_) (by rw [counted]; exact small)
  rwa [counted] at written

theorem write_eq (filled : memory.Filled) (datum : Datum) (address value : Word) :
    write datum memory address value = .ok (datum.write memory address value) := by
  cases datum with
  | word => exact writeCounted_eq filled address 4 value.toNat (by decide) (by decide)
  | halfword =>
      exact writeCounted_eq filled address 2 (value.setWidth 16).toNat (by decide) (by decide)
  | byte => exact writeCounted_eq filled address 1 (value.setWidth 8).toNat (by decide) (by decide)

theorem readWord_eq (filled : memory.Filled) (address : Word) :
    read .word memory address = .ok (memory.readWord address) :=
  read_eq filled .word address

theorem writeWord_eq (filled : memory.Filled) (address value : Word) :
    write .word memory address value = .ok (memory.writeWord address value) :=
  write_eq filled .word address value

theorem readHalfword_eq (filled : memory.Filled) (address : Word) :
    readDatum memory 2 address = .ok (memory.readHalfword address) :=
  readDatum_eq filled address (by decide) (by decide)

theorem nextEven_eq {number : Nat} (small : number < 0x100000000) :
    nextEven number = .ok ((number + 1) / 2 * 2) := by
  rw [nextEven, remainder_eq (by decide), ok_bind]
  split
  · rename_i even
    exact congrArg _ (by omega)
  · rename_i rest odd
    have least : number % 2 < 2 := Nat.mod_lt _ (by decide)
    have one : number % 2 ≠ 0 := odd
    rw [difference_eq (Nat.le_of_lt least), ok_bind, sum64_eq (by omega)]
    exact congrArg _ (by omega)

theorem readHalfwords_eq (filled : memory.Filled) {base : Nat} (low : base ≤ 0x100000000)
    {indices : List Nat} (near : ∀ index ∈ indices, index ≤ 0x100000000) :
    readHalfwords memory base indices =
      .ok (indices.mapM fun index => memory.readHalfword (BitVec.ofNat 32 (base + 2 * index))) := by
  induction indices with
  | nil => rfl
  | cons index rest inductionHypothesis =>
      have here := near index List.mem_cons_self
      have later := inductionHypothesis fun other member =>
        near other (List.mem_cons_of_mem index member)
      rw [readHalfwords, product64_eq (by omega), ok_bind, sum64_eq (by omega), ok_bind,
        readHalfword_eq filled, ok_bind, List.mapM_cons, Nat.mul_comm index 2]
      cases memory.readHalfword (BitVec.ofNat 32 (base + 2 * index)) with
      | error access => rfl
      | ok word =>
          dsimp only
          rw [later, ok_bind]
          cases rest.mapM fun index => memory.readHalfword (BitVec.ofNat 32 (base + 2 * index)) with
          | error access => rfl
          | ok words => rfl

/-- Taking a snapshot fails no check. -/
theorem buildImage_eq (filled : memory.Filled) (pc : Word) :
    buildImage memory pc = .ok (CodeImage.build memory pc) := by
  rw [buildImage, findRegion_eq memory pc (by decide), ok_bind, CodeImage.build]
  cases memory.findRegion pc 2 with
  | error access => rfl
  | ok region =>
      have first := region.start.isLt
      have last := region.size.isLt
      have near : ∀ index ∈ List.range ((region.stop - (region.start.toNat + 1) / 2 * 2) / 2),
          index ≤ 0x100000000 := by
        intro index member
        have bound := List.mem_range.1 member
        rw [Region.stop] at bound
        omega
      dsimp only
      rw [nextEven_eq first, ok_bind, stop_eq, ok_bind, readHalfwords_eq filled (by omega) near,
        ok_bind]
      change _ = Except.ok (do
        let halfwords ← (List.range ((region.stop - (region.start.toNat + 1) / 2 * 2) / 2)).mapM
          fun index => memory.readHalfword
            (BitVec.ofNat 32 ((region.start.toNat + 1) / 2 * 2 + 2 * index))
        return CodeImage.mk region (BitVec.ofNat 32 ((region.start.toNat + 1) / 2 * 2))
          halfwords.toArray)
      cases (List.range ((region.stop - (region.start.toNat + 1) / 2 * 2) / 2)).mapM fun index =>
          memory.readHalfword (BitVec.ofNat 32 ((region.start.toNat + 1) / 2 * 2 + 2 * index)) with
      | error access => rfl
      | ok halfwords => rfl

end Checked

/-- Where every region has all its bytes, every access passes its checks. -/
theorem Memory.Filled.accessible {memory : Memory} (filled : memory.Filled) :
    memory.Accessible where
  read := Checked.read_eq filled
  write := Checked.write_eq filled
  findRegion address _ small := Checked.findRegion_eq memory address small

end ThumbMachine
