/-
Module: ThumbMachine.Proofs.Framing
Purpose: What an instruction has to do with the regions of memory. It moves none, and if it
  completes, it does the same in an address space with one more.
Main exports: Memory.readBytes_extend, Memory.writeBytes_extend, Machine.Framed, execute_framed
-/
import ThumbMachine.Core.Execute
import ThumbMachine.Proofs.AddressSpace

namespace ThumbMachine

/-! ## One access -/

/-- What succeeds where another outcome does, succeeds there also after a change of the result. -/
theorem map_eq_ok {α β ε : Type} {one other : Except ε α} {change : α → β} {value : β}
    (keeps : ∀ result, one = .ok result → other = .ok result)
    (mapped : one.map change = .ok value) :
    other.map change = .ok value := by
  cases one with
  | error error => cases mapped
  | ok result =>
      rw [keeps result rfl]
      exact mapped

namespace Memory

variable {memory next : Memory} {address : Word}

/-- A look-up that found a region finds it again when another one was mapped last. -/
theorem locate?_extend {length : Nat} {found : MappedRegion}
    (located : memory.locate? address length = some found) (mapped : MappedRegion) :
    (memory.extend mapped).locate? address length = some found := by
  rw [locate?] at located
  rw [locate?, extend, List.find?_append, located]
  rfl

theorem modifyFirst_append {test : MappedRegion → Bool} {change : MappedRegion → MappedRegion}
    {regions : List MappedRegion} {found : MappedRegion} (passes : regions.find? test = some found)
    (further : List MappedRegion) :
    modifyFirst test change (regions ++ further) = modifyFirst test change regions ++ further := by
  induction regions with
  | nil => cases passes
  | cons first rest inductionHypothesis =>
      rw [List.cons_append, modifyFirst, modifyFirst]
      split
      · rfl
      · rename_i fails
        rw [List.find?_cons_of_neg fails] at passes
        rw [inductionHypothesis passes, List.cons_append]

theorem replace_extend {bytes : List Byte} {found : MappedRegion}
    (located : memory.locate? address bytes.length = some found) (mapped : MappedRegion) :
    (memory.extend mapped).replace address bytes = (memory.replace address bytes).extend mapped :=
  congrArg (Memory.mk memory.config) (modifyFirst_append located [mapped])

theorem readBytes_extend {length : Nat} {bytes : List Byte}
    (read : memory.readBytes address length = .ok bytes) (mapped : MappedRegion) :
    (memory.extend mapped).readBytes address length = .ok bytes := by
  obtain ⟨aligned, found, located, same⟩ := readBytes_eq_ok_iff.1 read
  rw [readBytes_eq_ok_iff]
  exact ⟨aligned, found, locate?_extend located mapped, same⟩

theorem writeBytes_extend {bytes : List Byte} (written : memory.writeBytes address bytes = .ok next)
    (mapped : MappedRegion) :
    (memory.extend mapped).writeBytes address bytes = .ok (next.extend mapped) := by
  obtain ⟨aligned, ⟨found, located, writable⟩, rfl⟩ := writeBytes_eq_ok_iff.1 written
  rw [writeBytes_eq_ok_iff]
  exact ⟨aligned, ⟨found, locate?_extend located mapped, writable⟩,
    (replace_extend located mapped).symm⟩

theorem readDatum_extend {count : Nat} {datum : BitVec (8 * count)}
    (read : memory.readDatum count address = .ok datum) (mapped : MappedRegion) :
    (memory.extend mapped).readDatum count address = .ok datum :=
  map_eq_ok (fun _ bytes => readBytes_extend bytes mapped) read

theorem layout_writeBytes {bytes : List Byte}
    (written : memory.writeBytes address bytes = .ok next) : next.layout = memory.layout := by
  rw [(writeBytes_eq_ok_iff.1 written).2.2]
  exact layout_replace memory address bytes

end Memory

namespace Datum

/-- A datum is read as a range of bytes. -/
theorem read_eq (datum : Datum) (address : Word) :
    ∃ value : List Byte → Word, ∀ memory : Memory,
      datum.read memory address = (memory.readBytes address datum.bytes).map value := by
  cases datum with
  | word => exact ⟨_, fun _ => rfl⟩
  | halfword =>
      refine ⟨fun bytes => (BitVec.ofNat 16 (LittleEndian.value bytes)).setWidth 32, ?_⟩
      intro memory
      rw [read, Memory.readHalfword, Memory.readDatum, bytes]
      cases memory.readBytes address 2 with
      | error access => rfl
      | ok held => rfl
  | byte =>
      refine ⟨fun bytes => (BitVec.ofNat 8 (LittleEndian.value bytes)).setWidth 32, ?_⟩
      intro memory
      rw [read, Memory.readByte, Memory.readDatum, bytes]
      cases memory.readBytes address 1 with
      | error access => rfl
      | ok held => rfl

/-- A datum is written as a range of bytes. -/
theorem write_eq (datum : Datum) (address value : Word) :
    ∃ written : List Byte, written.length = datum.bytes ∧ ∀ memory : Memory,
      datum.write memory address value = memory.writeBytes address written := by
  cases datum with
  | word => exact ⟨_, LittleEndian.length_bytes _ _, fun _ => rfl⟩
  | halfword => exact ⟨_, LittleEndian.length_bytes _ _, fun _ => rfl⟩
  | byte => exact ⟨_, LittleEndian.length_bytes _ _, fun _ => rfl⟩

variable {datum : Datum} {memory next : Memory} {address value : Word}

theorem read_extend (read : datum.read memory address = .ok value) (mapped : MappedRegion) :
    datum.read (memory.extend mapped) address = .ok value := by
  obtain ⟨ofBytes, eq⟩ := datum.read_eq address
  rw [eq] at read ⊢
  exact map_eq_ok (fun _ held => Memory.readBytes_extend held mapped) read

theorem write_extend (written : datum.write memory address value = .ok next)
    (mapped : MappedRegion) :
    datum.write (memory.extend mapped) address value = .ok (next.extend mapped) := by
  obtain ⟨bytes, _, eq⟩ := datum.write_eq address value
  rw [eq] at written ⊢
  exact Memory.writeBytes_extend written mapped

theorem layout_write (written : datum.write memory address value = .ok next) :
    next.layout = memory.layout := by
  obtain ⟨bytes, _, eq⟩ := datum.write_eq address value
  rw [eq] at written
  exact Memory.layout_writeBytes written

end Datum

/-! ## One instruction -/

namespace Machine

/-- The machine with one more region in its memory, mapped last. -/
def extend (machine : Machine) (mapped : MappedRegion) : Machine :=
  { machine with memory := machine.memory.extend mapped }

end Machine

/-- What comes of an instruction, in a memory with one more region. -/
def Step.extend (step : Step) (mapped : MappedRegion) : Step :=
  { step with machine := step.machine.extend mapped }

/-- Where a list transfer stands, in a memory with one more region. -/
def ListTransfer.extend (transfer : ListTransfer) (mapped : MappedRegion) : ListTransfer :=
  { transfer with machine := transfer.machine.extend mapped }

/-- An instruction moves no region, and if it completes, does not notice one more. -/
structure Machine.Framed (act : Machine → Step) (machine : Machine) : Prop where
  layout : (act machine).machine.memory.layout = machine.memory.layout
  extend : ∀ mapped, (act machine).fault = none →
    act (machine.extend mapped) = (act machine).extend mapped

/-- A list transfer moves no region, and if nothing is refused to it, does not notice one more. -/
structure ListTransfer.Framed (walk : Machine → ListTransfer) (machine : Machine) : Prop where
  layout : (walk machine).machine.memory.layout = machine.memory.layout
  extend : ∀ mapped, (walk machine).refused = none →
    walk (machine.extend mapped) = (walk machine).extend mapped

namespace Machine

variable {act : Machine → Step} {machine : Machine}

/-- An instruction that works on the core alone. -/
theorem framed_of_core
    (core : ∀ memory, act { machine with memory } =
      { act machine with machine := { (act machine).machine with memory } }) :
    Framed act machine := by
  have kept : (act machine).machine.memory = machine.memory :=
    congrArg (fun step : Step => step.machine.memory) (core machine.memory)
  constructor
  · rw [kept]
  · intro mapped _
    rw [Step.extend, extend, extend, kept]
    exact core (machine.memory.extend mapped)

theorem framed_of_failed (left : Machine) (cause : Fault)
    (layout : left.memory.layout = machine.memory.layout) (failed : act machine = left.fail cause) :
    Framed act machine where
  layout := by
    rw [failed]
    exact layout
  extend mapped completed := by
    rw [failed] at completed
    cases completed

theorem framed_of_completed (left : Machine) (layout : left.memory.layout = machine.memory.layout)
    (completed : act machine = ⟨left, none⟩)
    (wide : ∀ mapped, act (machine.extend mapped) = ⟨left.extend mapped, none⟩) :
    Framed act machine where
  layout := by
    rw [completed]
    exact layout
  extend mapped _ := by
    rw [completed, wide]
    rfl

/-- What an instruction does on this machine, with or without one more region, is what a framed one
does. -/
theorem Framed.congr {other : Machine → Step} (framed : Framed other machine)
    (here : act machine = other machine)
    (wide : ∀ mapped, act (machine.extend mapped) = other (machine.extend mapped)) :
    Framed act machine where
  layout := by rw [here, framed.layout]
  extend mapped completed := by
    rw [here] at completed ⊢
    rw [wide, framed.extend mapped completed]

theorem high_framed (machine : Machine) (op : HighOp) (source destination : Register) :
    Framed (·.high op source destination) machine := by
  apply framed_of_core
  intro memory
  cases op with
  | cmp => rfl
  | add =>
      simp only [high]
      split
      · rfl
      · rfl
  | mov =>
      simp only [high]
      split
      · rfl
      · rfl

theorem branchExchange_framed (machine : Machine) (source : Register) (link : Bool) :
    Framed (·.branchExchange source link) machine := by
  apply framed_of_core
  intro memory
  simp only [branchExchange]
  split
  · rfl
  · rfl

theorem deliver_framed (machine : Machine) (transfer : Transfer)
    (source : Memory → Except InvalidAccess Word)
    (keeps : ∀ mapped value, source machine.memory = .ok value →
      source (machine.memory.extend mapped) = .ok value) :
    Framed (fun machine => transfer.deliver machine (source machine.memory)) machine := by
  cases loaded : source machine.memory with
  | error access =>
      apply framed_of_failed machine (.invalidAccess access) rfl
      rw [loaded, Transfer.deliver]
  | ok value =>
      apply framed_of_completed (machine.write transfer.register.wide value).next.machine
      · rfl
      · rw [loaded]
        rfl
      · intro mapped
        have same : source (machine.extend mapped).memory = .ok value := keeps mapped value loaded
        rw [same]
        rfl

theorem perform_framed (machine : Machine) (transfer : Transfer) :
    Framed transfer.perform machine := by
  obtain ⟨kind, address, register⟩ := transfer
  cases kind with
  | store datum =>
      cases stored : datum.write machine.memory address (machine.core.read register.wide) with
      | error access =>
          apply framed_of_failed machine (.invalidAccess access) rfl
          simp only [Transfer.perform, stored]
      | ok memory =>
          apply framed_of_completed (Machine.next { machine with memory }).machine
          · exact Datum.layout_write stored
          · simp only [Transfer.perform, stored]
            rfl
          · intro mapped
            have same := Datum.write_extend stored mapped
            simp only [Transfer.perform, extend, same]
            rfl
  | load datum =>
      exact deliver_framed machine ⟨.load datum, address, register⟩ (datum.read · address)
        fun mapped value read => Datum.read_extend read mapped
  | loadSigned datum =>
      apply deliver_framed machine ⟨.loadSigned datum, address, register⟩ fun memory =>
        (datum.read memory address).map (signExtendLow · (8 * datum.bytes))
      intro mapped value read
      exact map_eq_ok (fun _ held => Datum.read_extend held mapped) read

end Machine

/-! ## Register lists -/

namespace ListTransfer

variable {walk rest : Machine → ListTransfer} {machine next : Machine}

theorem framed_of_refused (address : Word) (access : InvalidAccess)
    (refused : walk machine = ⟨machine, address, some access⟩) : Framed walk machine where
  layout := by rw [refused]
  extend mapped unrefused := by
    rw [refused] at unrefused
    cases unrefused

/-- A list transfer that has moved its first register, and whose rest is framed. -/
theorem Framed.after (framed : Framed rest next)
    (layout : next.memory.layout = machine.memory.layout) (first : walk machine = rest next)
    (wide : ∀ mapped, walk (machine.extend mapped) = rest (next.extend mapped)) :
    Framed walk machine where
  layout := by rw [first, framed.layout, layout]
  extend mapped unrefused := by
    rw [first] at unrefused ⊢
    rw [wide, framed.extend mapped unrefused]

theorem Framed.writeBack (framed : Framed walk machine) (register : Register) :
    Machine.Framed (fun machine => (walk machine).writeBack register) machine := by
  cases refused : (walk machine).refused with
  | some access =>
      apply Machine.framed_of_failed ((walk machine).machine.write register (walk machine).address)
        (.invalidAccess access) framed.layout
      simp only [ListTransfer.writeBack, refused]
  | none =>
      constructor
      · simp only [ListTransfer.writeBack, refused]
        exact framed.layout
      · intro mapped _
        simp only [framed.extend mapped refused, ListTransfer.writeBack, ListTransfer.extend,
          refused]
        rfl

end ListTransfer

namespace Machine

theorem loadList_framed (machine : Machine) (address : Word) (list : List LowRegister) :
    ListTransfer.Framed (·.loadList address list) machine := by
  induction list generalizing machine address with
  | nil => exact ⟨rfl, fun _ _ => rfl⟩
  | cons register rest inductionHypothesis =>
      cases read : machine.memory.readWord address with
      | error access =>
          apply ListTransfer.framed_of_refused address access
          simp only [loadList, read]
      | ok value =>
          have framed := inductionHypothesis (machine.write register.wide value) (address + 4)
          refine framed.after rfl ?_ ?_
          · simp only [loadList, read]
          · intro mapped
            have same : (machine.memory.extend mapped).readWord address = .ok value :=
              Memory.readDatum_extend read mapped
            simp only [loadList, extend, same]
            rfl

theorem storeList_framed (machine : Machine) (address : Word) (list : List LowRegister) :
    ListTransfer.Framed (·.storeList address list) machine := by
  induction list generalizing machine address with
  | nil => exact ⟨rfl, fun _ _ => rfl⟩
  | cons register rest inductionHypothesis =>
      cases written : machine.memory.writeWord address (machine.core.read register.wide) with
      | error access =>
          apply ListTransfer.framed_of_refused address access
          simp only [storeList, written]
      | ok memory =>
          have framed := inductionHypothesis { machine with memory } (address + 4)
          refine framed.after (Memory.layout_writeBytes written) ?_ ?_
          · simp only [storeList, written]
          · intro mapped
            have same : (machine.memory.extend mapped).writeWord address
                (machine.core.read register.wide) = .ok (memory.extend mapped) :=
              Memory.writeBytes_extend written mapped
            simp only [storeList, extend, same]

theorem pushList_framed (machine : Machine) (address : Word) (list : List Register) :
    ListTransfer.Framed (·.pushList address list) machine := by
  induction list generalizing machine address with
  | nil => exact ⟨rfl, fun _ _ => rfl⟩
  | cons register rest inductionHypothesis =>
      cases written : machine.memory.writeWord (address - 4) (machine.core.read register) with
      | error access =>
          apply ListTransfer.framed_of_refused (address - 4) access
          simp only [pushList, written]
      | ok memory =>
          have framed := inductionHypothesis { machine with memory } (address - 4)
          refine framed.after (Memory.layout_writeBytes written) ?_ ?_
          · simp only [pushList, written]
          · intro mapped
            have same : (machine.memory.extend mapped).writeWord (address - 4)
                (machine.core.read register) = .ok (memory.extend mapped) :=
              Memory.writeBytes_extend written mapped
            simp only [pushList, extend, same]

theorem blockTransfer_framed (machine : Machine) (direction : Direction) (base : LowRegister)
    (list : Byte) : Framed (·.blockTransfer direction base list) machine := by
  cases direction with
  | store =>
      have framed := machine.storeList_framed (machine.core.read base.wide) (listedRegisters list)
      exact (framed.writeBack base.wide).congr rfl fun _ => rfl
  | load =>
      have framed := machine.loadList_framed (machine.core.read base.wide) (listedRegisters list)
      exact (framed.writeBack base.wide).congr rfl fun _ => rfl

theorem push_framed (machine : Machine) (link : Bool) (list : Byte) :
    Framed (·.push link list) machine := by
  have framed := machine.pushList_framed (machine.core.read Register.sp)
    ((if link then [Register.lr] else []) ++ ((listedRegisters list).map LowRegister.wide).reverse)
  exact (framed.writeBack Register.sp).congr rfl fun _ => rfl

theorem pop_framed (machine : Machine) (branch : Bool) (list : Byte) :
    Framed (·.pop branch list) machine := by
  have framed := machine.loadList_framed (machine.core.read Register.sp) (listedRegisters list)
  have layout := framed.layout
  have extended (mapped : MappedRegion) :
      (machine.loadList (machine.core.read Register.sp) (listedRegisters list)).refused = none →
        (machine.extend mapped).loadList ((machine.extend mapped).core.read Register.sp)
            (listedRegisters list) =
          (machine.loadList (machine.core.read Register.sp) (listedRegisters list)).extend mapped :=
    framed.extend mapped
  generalize loaded : machine.loadList (machine.core.read Register.sp) (listedRegisters list) =
    transfer at layout extended
  obtain ⟨reached, address, refused⟩ := transfer
  cases refused with
  | some access =>
      apply framed_of_failed (reached.write Register.sp address) (.invalidAccess access) layout
      simp only [pop, loaded, ListTransfer.writeBack]
  | none =>
      have wide (mapped : MappedRegion) := extended mapped rfl
      cases branch with
      | false =>
          apply framed_of_completed (reached.write Register.sp address).next.machine layout
          · simp only [pop, loaded, ListTransfer.writeBack]
            rfl
          · intro mapped
            simp only [pop, wide, ListTransfer.extend, ListTransfer.writeBack]
            rfl
      | true =>
          cases popped : reached.memory.readWord address with
          | error access =>
              apply framed_of_failed (reached.write Register.sp address) (.invalidAccess access)
                layout
              simp only [pop, loaded, popped]
          | ok target =>
              by_cases thumb : target.getLsbD 0 = true
              · apply framed_of_completed ((reached.write Register.sp (address + 4)).goto
                  (halfwordAligned target)).machine layout
                · simp only [pop, loaded, popped, if_pos thumb]
                  rfl
                · intro mapped
                  have same : (reached.extend mapped).memory.readWord address = .ok target :=
                    Memory.readDatum_extend popped mapped
                  simp only [pop, wide, ListTransfer.extend, same, if_pos thumb]
                  rfl
              · apply framed_of_failed (reached.write Register.sp address) (.invalidTarget target)
                  layout
                simp only [pop, loaded, popped, if_neg thumb]

end Machine

open Machine in
/-- Every instruction moves no region, and if it completes, does not notice one more. -/
theorem execute_framed (word : Halfword) (instruction : Instruction) (machine : Machine) :
    Framed (execute word instruction) machine := by
  cases instruction with
  | shift => exact framed_of_core fun _ => rfl
  | addSubtract => exact framed_of_core fun _ => rfl
  | immediate => exact framed_of_core fun _ => rfl
  | alu => exact framed_of_core fun _ => rfl
  | high op source destination => exact machine.high_framed op source destination
  | branchExchange source link => exact machine.branchExchange_framed source link
  | transfer format =>
      exact (machine.perform_framed (format.resolve machine.core)).congr rfl fun _ => rfl
  | loadAddress => exact framed_of_core fun _ => rfl
  | adjustStack => exact framed_of_core fun _ => rfl
  | compareBranch =>
      apply framed_of_core
      intro memory
      simp only [execute]
      split
      · rfl
      · rfl
  | extend => exact framed_of_core fun _ => rfl
  | reverseBytes => exact framed_of_core fun _ => rfl
  | stack direction extra list =>
      cases direction with
      | store => exact machine.push_framed extra list
      | load => exact machine.pop_framed extra list
  | block direction base list => exact machine.blockTransfer_framed direction base list
  | branchIf =>
      apply framed_of_core
      intro memory
      simp only [execute]
      split
      · rfl
      · rfl
  | branch => exact framed_of_core fun _ => rfl
  | longBranchHigh => exact framed_of_core fun _ => rfl
  | longBranchLow => exact framed_of_core fun _ => rfl
  | softwareInterrupt => exact framed_of_core fun _ => rfl

end ThumbMachine
