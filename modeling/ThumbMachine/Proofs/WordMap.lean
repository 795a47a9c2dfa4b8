/-
Module: ThumbMachine.Proofs.WordMap
Purpose: Words in memory, one after the other. Reading words at some places yields those that the
  byte map shows there, storing them puts them there and touches no other byte, and both go as far
  as the first place that is refused. Whether a place is refused does not depend on what was stored
  before.
Main exports: Memory.word?, Memory.Grants, GrantedUpTo, Memory.ReadsUpTo, Memory.StoresUpTo,
  Memory.loadEach_reads, Memory.storeEach_stores
-/
import ThumbMachine.Proofs.ByteMap

namespace ThumbMachine

/-! ## One word -/

namespace Word

/-- The address a number of words upward. -/
def above (address : Word) (index : Nat) : Word := address + BitVec.ofNat 32 (4 * index)

/-- The address a number of words downward. -/
def below (address : Word) (count : Nat) : Word := address - BitVec.ofNat 32 (4 * count)

@[simp] theorem above_zero (address : Word) : address.above 0 = address := by
  simp [above]

@[simp] theorem below_zero (address : Word) : address.below 0 = address := by
  simp [below]

theorem above_succ (address : Word) (index : Nat) :
    address.above (index + 1) = (address + 4).above index := by
  rw [above, above]
  bv_omega

/-- The words above the lowest one. -/
theorem shift_above (address : Word) :
    (fun index => address.above (index + 1)) = (address + 4).above :=
  funext address.above_succ

theorem above_add_four (address : Word) (index : Nat) :
    address.above index + 4 = address.above (index + 1) := by
  rw [above, above]
  bv_omega

theorem below_succ (address : Word) (count : Nat) :
    address.below (count + 1) = (address - 4).below count := by
  rw [below, below]
  bv_omega

/-- Words counted upward from the lowest of them are those counted downward from the highest. -/
theorem above_below (address : Word) {index count : Nat} (within : index ≤ count) :
    (address.below count).above index = address.below (count - index) := by
  rw [above, below, below]
  bv_omega

/-- No byte of the word at one address is one of the word at the other. -/
def Apart (one other : Word) : Prop :=
  ∀ left < 4, ∀ right < 4, one + BitVec.ofNat 32 left ≠ other + BitVec.ofNat 32 right

/-- The places of up to sixteen words do not meet, also where the addresses wrap. -/
theorem above_apart (address : Word) {first later : Nat} (order : first < later)
    (small : later < 16) :
    (address.above first).Apart (address.above later) := by
  intro left leftSmall right rightSmall
  rw [above, above]
  bv_omega

theorem below_apart (address : Word) {first later : Nat} (order : first < later)
    (small : later < 16) :
    (address.below first).Apart (address.below later) := by
  intro left leftSmall right rightSmall
  rw [below, below]
  bv_omega

end Word

theorem cases_of_lt_four {index : Nat} (small : index < 4) :
    index = 0 ∨ index = 1 ∨ index = 2 ∨ index = 3 := by
  omega

/-- Each byte is cut out of the word that four bytes make. -/
theorem getElem?_bytes (first second third fourth : Byte) {index : Nat} (small : index < 4) :
    [first, second, third, fourth][index]? =
      some ((fourth ++ third ++ second ++ first).extractLsb' (8 * index) 8) := by
  rcases cases_of_lt_four small with rfl | rfl | rfl | rfl
  all_goals
    simp only [List.getElem?_cons_zero, List.getElem?_cons_succ, Option.some.injEq]
    apply BitVec.eq_of_getLsbD_eq
    intro position bound
    simp only [BitVec.getLsbD_append, BitVec.getLsbD_extractLsb', bound]
    grind

/-- A word is made of its bytes. -/
theorem append_bytes (value : Word) :
    value.extractLsb' 24 8 ++ value.extractLsb' 16 8 ++ value.extractLsb' 8 8 ++
      value.extractLsb' 0 8 =
      value := by
  apply BitVec.eq_of_getLsbD_eq
  intro position bound
  simp only [BitVec.getLsbD_append, BitVec.getLsbD_extractLsb']
  grind

theorem InvalidAccess.Names.eq {access : InvalidAccess} {address : Word}
    (names : access.Names address 4) :
    access = ⟨address, 4⟩ := by
  obtain ⟨place, size⟩ := access
  obtain ⟨rfl, four⟩ := names
  rw [InvalidAccess.mk.injEq]
  exact ⟨rfl, BitVec.eq_of_toNat_eq four⟩

namespace Memory

variable {memory next : Memory} {address value : Word}

/-- The word that the four bytes from an address on make, the first byte being the lowest. -/
def word? (memory : Memory) (address : Word) : Option Word :=
  match memory.byte? address, memory.byte? (address + 1), memory.byte? (address + 2),
      memory.byte? (address + 3) with
  | some first, some second, some third, some fourth => some (fourth ++ third ++ second ++ first)
  | _, _, _, _ => none

theorem word?_eq_some_iff :
    memory.word? address = some value ↔
      ∀ index < 4, memory.byte? (address + BitVec.ofNat 32 index) =
        some (value.extractLsb' (8 * index) 8) := by
  constructor
  · intro shown index small
    rw [word?] at shown
    split at shown
    · rename_i first second third fourth atFirst atSecond atThird atFourth
      cases shown
      have cut := getElem?_bytes first second third fourth small
      rcases cases_of_lt_four small with rfl | rfl | rfl | rfl
      · rw [BitVec.add_zero]
        exact atFirst.trans cut
      · exact atSecond.trans cut
      · exact atThird.trans cut
      · exact atFourth.trans cut
    · cases shown
  · intro bytes
    have first := bytes 0 (by decide)
    have second : memory.byte? (address + 1) = _ := bytes 1 (by decide)
    have third : memory.byte? (address + 2) = _ := bytes 2 (by decide)
    have fourth : memory.byte? (address + 3) = _ := bytes 3 (by decide)
    rw [BitVec.add_zero] at first
    rw [word?, first, second, third, fourth]
    exact congrArg some (append_bytes value)

/-- Whether memory grants a transfer of the word at an address. -/
def Grants (memory : Memory) (direction : Direction) (address : Word) : Prop :=
  memory.Suits address 4 ∧
    match direction with
    | .load => memory.Covers address 4
    | .store => memory.CoversWritable address 4

/-- What can be stored somewhere can be loaded from there. -/
theorem Grants.load (granted : memory.Grants .store address) : memory.Grants .load address := by
  obtain ⟨suits, mapped, member, covers, _⟩ := granted
  exact ⟨suits, mapped, member, covers⟩

/-- A granted word is the one that the byte map shows. -/
theorem readWord_of_granted (valid : memory.Valid) (granted : memory.Grants .load address) :
    ∃ value, memory.readWord address = .ok value ∧ memory.word? address = some value := by
  obtain ⟨value, byte, read, shown, total⟩ :=
    (reads valid .word address).granted ⟨granted.2, granted.1⟩
  refine ⟨value, read, word?_eq_some_iff.2 fun index small => ?_⟩
  rw [shown index small, Option.some.injEq]
  apply BitVec.eq_of_toNat_eq
  have one := (byte 0).isLt
  have two := (byte 1).isLt
  have three := (byte 2).isLt
  have four := (byte 3).isLt
  simp only [Datum.bytes, Finset.sum_range_succ, Finset.sum_range_zero] at total
  rw [BitVec.extractLsb'_toNat, Nat.shiftRight_eq_div_pow]
  rcases cases_of_lt_four small with rfl | rfl | rfl | rfl <;> omega

theorem readWord_of_refused (valid : memory.Valid) (refused : ¬ memory.Grants .load address) :
    memory.readWord address = .error ⟨address, 4⟩ := by
  obtain ⟨access, read, names⟩ :=
    (reads valid .word address).refused fun granted => refused ⟨granted.2, granted.1⟩
  obtain rfl := names.eq
  exact read

theorem writeWord_of_granted (valid : memory.Valid) (granted : memory.Grants .store address)
    (value : Word) :
    ∃ next, memory.writeWord address value = .ok next ∧
      memory.Overwritten address (Datum.word.split value) next :=
  (write_puts valid .word address value).granted ⟨granted.2, granted.1⟩

theorem writeWord_of_refused (valid : memory.Valid) (refused : ¬ memory.Grants .store address)
    (value : Word) : memory.writeWord address value = .error ⟨address, 4⟩ := by
  obtain ⟨access, written, names⟩ :=
    (write_puts valid .word address value).refused fun granted => refused ⟨granted.2, granted.1⟩
  obtain rfl := names.eq
  exact written

/-- A word is granted exactly where memory reads one. -/
theorem grants_load_iff (valid : memory.Valid) :
    memory.Grants .load address ↔ ∃ value, memory.readWord address = .ok value := by
  constructor
  · intro granted
    obtain ⟨value, read, _⟩ := readWord_of_granted valid granted
    exact ⟨value, read⟩
  · rintro ⟨value, read⟩
    by_contra refused
    cases (readWord_of_refused valid refused).symm.trans read

theorem grants_store_iff (valid : memory.Valid) (value : Word) :
    memory.Grants .store address ↔ ∃ next, memory.writeWord address value = .ok next := by
  constructor
  · intro granted
    obtain ⟨next, written, _⟩ := writeWord_of_granted valid granted value
    exact ⟨next, written⟩
  · rintro ⟨next, written⟩
    by_contra refused
    cases (writeWord_of_refused valid refused value).symm.trans written

/-! ## What is refused -/

theorem layout_eq_table (memory : Memory) : memory.layout = memory.table.map (·.2.1) := by
  rw [layout, table, List.map_map]
  rfl

/-- Bytes that are overwritten move no region. -/
theorem Valid.of_table (valid : memory.Valid) (table : next.table = memory.table) : next.Valid := by
  have same : next.layout = memory.layout := by rw [layout_eq_table, table, ← layout_eq_table]
  exact ⟨same ▸ valid.bounded, same ▸ valid.apart⟩

theorem covers_iff_table {length : Nat} :
    memory.Covers address length ↔ ∃ entry ∈ memory.table, entry.2.1.Covers address length := by
  simp [Covers, table]

theorem coversWritable_iff_table {length : Nat} :
    memory.CoversWritable address length ↔
      ∃ entry ∈ memory.table, entry.2.1.Covers address length ∧ entry.2.2 = .readWrite := by
  simp [CoversWritable, table]

/-- Whether a transfer is granted is up to the regions and the configuration, not to the bytes. -/
theorem grants_congr (table : next.table = memory.table) (config : next.config = memory.config)
    (direction : Direction) (address : Word) :
    next.Grants direction address ↔ memory.Grants direction address := by
  cases direction with
  | load => simp only [Grants, Suits, config, covers_iff_table, table]
  | store => simp only [Grants, Suits, config, coversWritable_iff_table, table]

end Memory

/-- Of some accesses in order, those that come before the first refused one: all of them, or as many
as lie before that one. -/
structure GrantedUpTo (grants : Nat → Prop) (count reached : Nat) : Prop where
  within : reached ≤ count
  granted : ∀ index < reached, grants index
  refused : reached < count → ¬ grants reached

namespace GrantedUpTo

variable {grants : Nat → Prop} {count reached : Nat}

theorem zero : GrantedUpTo grants 0 0 where
  within := Nat.le_refl 0
  granted _ small := nomatch small
  refused small := nomatch small

theorem of_refused (refused : ¬ grants 0) : GrantedUpTo grants (count + 1) 0 where
  within := Nat.zero_le _
  granted _ small := nomatch small
  refused _ := refused

theorem succ (first : grants 0)
    (later : GrantedUpTo (fun index => grants (index + 1)) count reached) :
    GrantedUpTo grants (count + 1) (reached + 1) where
  within := Nat.succ_le_succ later.within
  granted index small := by
    cases index with
    | zero => exact first
    | succ index => exact later.granted index (Nat.lt_of_succ_lt_succ small)
  refused small := later.refused (Nat.lt_of_succ_lt_succ small)

/-- One more access after a refused one. -/
theorem widen (earlier : GrantedUpTo grants count reached) (refused : ¬ grants reached) :
    GrantedUpTo grants (count + 1) reached where
  within := Nat.le_succ_of_le earlier.within
  granted := earlier.granted
  refused _ := refused

/-- One more access after granted ones. -/
theorem concat (all : GrantedUpTo grants count count) (last : grants count) :
    GrantedUpTo grants (count + 1) (count + 1) where
  within := Nat.le_refl _
  granted index small := by
    rcases Nat.lt_succ_iff_lt_or_eq.1 small with earlier | rfl
    · exact all.granted index earlier
    · exact last
  refused small := absurd small (Nat.lt_irrefl _)

/-- Where all are granted, all are reached. -/
theorem eq_of_granted (upTo : GrantedUpTo grants count reached)
    (all : ∀ index < count, grants index) :
    reached = count := by
  rcases Nat.lt_or_eq_of_le upTo.within with fewer | same
  · exact absurd (all reached fewer) (upTo.refused fewer)
  · exact same

end GrantedUpTo

namespace Memory

variable {memory next : Memory} {place : Nat → Word}

/-! ## Loading one word after the other -/

/-- The byte map shows some words at their places. -/
def Shows (memory : Memory) (place : Nat → Word) (values : List Word) : Prop :=
  ∀ index < values.length, memory.word? (place index) = values[index]?

theorem Shows.cons {value : Word} {rest : List Word} (first : memory.word? (place 0) = some value)
    (later : memory.Shows (fun index => place (index + 1)) rest) :
    memory.Shows place (value :: rest) := by
  intro index small
  cases index with
  | zero => exact first
  | succ index => exact later index (Nat.lt_of_succ_lt_succ small)

/-- The words at the first places, up to the first refused one. -/
def loadEach (memory : Memory) (place : Nat → Word) : (count : Nat) → List Word
  | 0 => []
  | count + 1 =>
      match memory.readWord (place 0) with
      | .ok value => value :: memory.loadEach (fun index => place (index + 1)) count
      | .error _ => []

/-- Words that are read: at each place before the first refused one, the word that the byte map
shows. -/
structure ReadsUpTo (memory : Memory) (place : Nat → Word) (count : Nat) (values : List Word) :
    Prop where
  upTo : GrantedUpTo (fun index => memory.Grants .load (place index)) count values.length
  shown : memory.Shows place values

theorem loadEach_reads (valid : memory.Valid) (place : Nat → Word) (count : Nat) :
    memory.ReadsUpTo place count (memory.loadEach place count) := by
  induction count generalizing place with
  | zero => exact ⟨.zero, fun _ small => nomatch small⟩
  | succ count inductionHypothesis =>
      rw [loadEach]
      by_cases granted : memory.Grants .load (place 0)
      · obtain ⟨value, read, shown⟩ := readWord_of_granted valid granted
        obtain ⟨upTo, later⟩ := inductionHypothesis fun index => place (index + 1)
        rw [read]
        exact ⟨upTo.succ granted, later.cons shown⟩
      · rw [readWord_of_refused valid granted]
        exact ⟨.of_refused granted, fun _ small => nomatch small⟩

theorem ReadsUpTo.widen {count : Nat} {values : List Word}
    (reads : memory.ReadsUpTo place count values)
    (refused : ¬ memory.Grants .load (place values.length)) :
    memory.ReadsUpTo place (count + 1) values :=
  ⟨reads.upTo.widen refused, reads.shown⟩

theorem ReadsUpTo.concat {count : Nat} {values : List Word} {value : Word}
    (reads : memory.ReadsUpTo place count values) (all : values.length = count)
    (granted : memory.Grants .load (place count))
    (shown : memory.word? (place count) = some value) :
    memory.ReadsUpTo place (count + 1) (values ++ [value]) := by
  subst all
  refine ⟨?_, fun index small => ?_⟩
  · rw [List.length_append]
    exact reads.upTo.concat granted
  · rw [List.length_append] at small
    rcases Nat.lt_succ_iff_lt_or_eq.1 small with earlier | rfl
    · rw [List.getElem?_append_left earlier]
      exact reads.shown index earlier
    · rw [List.getElem?_concat_length]
      exact shown

/-- Where every place is granted, what is read is all that memory shows. -/
theorem ReadsUpTo.eq_of_shows {values found : List Word}
    (reads : memory.ReadsUpTo place values.length found) (shown : memory.Shows place values)
    (granted : ∀ index < values.length, memory.Grants .load (place index)) : found = values := by
  have full := reads.upTo.eq_of_granted granted
  apply List.ext_getElem?
  intro index
  by_cases inside : index < values.length
  · rw [← reads.shown index (full.symm ▸ inside), shown index inside]
  · have outside : values.length ≤ index := Nat.le_of_not_lt inside
    rw [List.getElem?_eq_none outside, List.getElem?_eq_none (full.symm ▸ outside)]

/-! ## Storing one word after the other -/

/-- Some words stand at their places, and every other byte, the regions and the configuration are as
before. -/
structure Stored (memory : Memory) (place : Nat → Word) (values : List Word) (next : Memory) :
    Prop where
  placed : next.Shows place values
  others : ∀ address,
    (∀ index < values.length, ∀ byte < 4, address ≠ place index + BitVec.ofNat 32 byte) →
    next.byte? address = memory.byte? address
  table : next.table = memory.table
  config : next.config = memory.config

theorem stored_nil (memory : Memory) (place : Nat → Word) : memory.Stored place [] memory where
  placed _ small := nomatch small
  others _ _ := rfl
  table := rfl
  config := rfl

theorem word?_of_overwritten {address value : Word}
    (overwritten : memory.Overwritten address (Datum.word.split value) next) :
    next.word? address = some value := by
  rw [word?_eq_some_iff]
  intro index small
  have placed := overwritten.placed index (by simpa [Datum.bytes] using small)
  rw [placed, Datum.split, Datum.bytes, List.getElem?_map, List.getElem?_range small,
    Option.map_some]

/-- Words that are stored apart from a first one leave it where it stands. -/
theorem Stored.cons {middle : Memory} {value : Word} {rest : List Word}
    (overwritten : memory.Overwritten (place 0) (Datum.word.split value) middle)
    (later : middle.Stored (fun index => place (index + 1)) rest next)
    (apart : ∀ index < rest.length, (place 0).Apart (place (index + 1))) :
    memory.Stored place (value :: rest) next where
  placed := by
    apply Shows.cons _ later.placed
    have first := word?_eq_some_iff.1 (word?_of_overwritten overwritten)
    rw [word?_eq_some_iff]
    intro byte small
    rw [later.others _ fun index inside other below => apart index inside byte small other below]
    exact first byte small
  others address outside := by
    rw [later.others address fun index inside =>
      outside (index + 1) (Nat.succ_lt_succ inside)]
    apply overwritten.others
    intro byte small
    exact outside 0 (Nat.succ_pos _) byte (by simpa [Datum.bytes] using small)
  table := later.table.trans overwritten.table
  config := later.config.trans overwritten.config

/-- The same words, counted from the last place on. -/
theorem Stored.reverse {turned : Nat → Word} {values : List Word}
    (stored : memory.Stored place values next)
    (counted : ∀ index < values.length, turned index = place (values.length - 1 - index)) :
    memory.Stored turned values.reverse next where
  placed index small := by
    rw [List.length_reverse] at small
    rw [counted index small, List.getElem?_reverse small]
    exact stored.placed _ (by omega)
  others address outside := by
    apply stored.others
    intro index inside byte small
    have mirrored :=
      outside (values.length - 1 - index) (by rw [List.length_reverse]; omega) byte small
    rwa [counted _ (by omega), Nat.sub_sub_self (Nat.le_sub_one_of_lt inside)] at mirrored
  table := stored.table
  config := stored.config

/-- Stores words at their places up to the first refused one: how many were stored, and what memory
became. -/
def storeEach (memory : Memory) (place : Nat → Word) : List Word → Nat × Memory
  | [] => (0, memory)
  | value :: rest =>
      match memory.writeWord (place 0) value with
      | .ok next =>
          let later := next.storeEach (fun index => place (index + 1)) rest
          (later.1 + 1, later.2)
      | .error _ => (0, memory)

/-- Words that are stored: at each place before the first refused one, and nothing else. -/
structure StoresUpTo (memory : Memory) (place : Nat → Word) (values : List Word) (reached : Nat)
    (next : Memory) : Prop where
  upTo : GrantedUpTo (fun index => memory.Grants .store (place index)) values.length reached
  stored : memory.Stored place (values.take reached) next

/-- Where all words are stored, each place can be loaded from afterwards. -/
theorem StoresUpTo.grants {values : List Word}
    (stores : memory.StoresUpTo place values values.length next) {index : Nat}
    (inside : index < values.length) :
    next.Grants .load (place index) := by
  rw [grants_congr stores.stored.table stores.stored.config]
  exact (stores.upTo.granted index inside).load

/-- Words that are all stored downward stand upward from the last of them, and can be loaded from
there. -/
theorem StoresUpTo.upward {top : Word} {values : List Word}
    (stores : memory.StoresUpTo (fun index => top.below (index + 1)) values values.length next) :
    memory.Stored (top.below values.length).above values.reverse next ∧
      ∀ index < values.length, next.Grants .load ((top.below values.length).above index) := by
  have counted : ∀ index < values.length,
      (top.below values.length).above index = top.below (values.length - 1 - index + 1) := by
    intro index inside
    rw [top.above_below (Nat.le_of_lt inside)]
    congr 1
    omega
  constructor
  · have stored := stores.stored
    rw [List.take_length] at stored
    exact stored.reverse counted
  · intro index inside
    rw [counted index inside]
    exact stores.grants (by omega)

theorem storeEach_stores (valid : memory.Valid) (values : List Word)
    (apart : ∀ first later, first < later → later < values.length →
      (place first).Apart (place later)) :
    memory.StoresUpTo place values (memory.storeEach place values).1
      (memory.storeEach place values).2 := by
  induction values generalizing memory place with
  | nil => exact ⟨.zero, stored_nil memory place⟩
  | cons value rest inductionHypothesis =>
      rw [storeEach]
      by_cases granted : memory.Grants .store (place 0)
      · obtain ⟨middle, written, overwritten⟩ := writeWord_of_granted valid granted value
        have spread : ∀ first later, first < later → later < rest.length →
            (place (first + 1)).Apart (place (later + 1)) := fun first later order inside =>
          apart (first + 1) (later + 1) (Nat.succ_lt_succ order) (Nat.succ_lt_succ inside)
        obtain ⟨upTo, stored⟩ := inductionHypothesis (valid.of_table overwritten.table) spread
        simp only [grants_congr overwritten.table overwritten.config] at upTo
        rw [written]
        refine ⟨upTo.succ granted, stored.cons overwritten fun index inside => ?_⟩
        exact apart 0 (index + 1) (Nat.succ_pos index)
          (Nat.succ_lt_succ (Nat.lt_of_lt_of_le inside (List.length_take_le' _ _)))
      · rw [writeWord_of_refused valid granted]
        exact ⟨.of_refused granted, stored_nil memory place⟩

end Memory

end ThumbMachine
