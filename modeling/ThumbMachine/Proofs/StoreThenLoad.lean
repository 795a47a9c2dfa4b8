/-
Module: ThumbMachine.Proofs.StoreThenLoad
Purpose: A datum that is stored and loaded again. Whatever formats the two transfers have, if their
  effective addresses are the same, the load completes and its register gets the low bytes of what
  was stored, widened as the load says.
Main exports: Memory.read_written, Machine.LoadsBack, Machine.store_then_load
-/
import ThumbMachine.Proofs.AddressSpace
import ThumbMachine.Proofs.Packing
import ThumbMachine.Proofs.SignExtension
import ThumbMachine.Proofs.TransferFormats
import ThumbMachine.Proofs.WordMap

namespace ThumbMachine

/-! ## Reading back what was written -/

namespace Datum

theorem bits_pos (datum : Datum) : 0 < 8 * datum.bytes :=
  Nat.mul_pos (by decide) datum.bytes_pos

theorem bits_le (datum : Datum) : 8 * datum.bytes ≤ 32 := by
  cases datum <;> decide

/-- The low bytes of a word denote the number that is left when it is cut down to them. -/
theorem value_split (datum : Datum) (value : Word) :
    LittleEndian.value (datum.split value) = (value.setWidth (8 * datum.bytes)).toNat := by
  have power : Nat.pow 256 datum.bytes = 2 ^ (8 * datum.bytes) := (Nat.pow_mul 2 8 datum.bytes).symm
  rw [split_eq, LittleEndian.value_bytes, power, BitVec.toNat_setWidth]

end Datum

namespace Memory

variable {memory next : Memory}

/-- A write that is granted replaces the bytes of its range, and the datum that can be read there
next is what the range was given. -/
theorem read_written (valid : memory.Valid) {datum : Datum} {address value : Word}
    (written : datum.write memory address value = .ok next) :
    memory.Overwritten address (datum.split value) next ∧
      datum.read next address = .ok ((value.setWidth (8 * datum.bytes)).setWidth 32) := by
  have puts := write_puts valid datum address value
  rw [written] at puts
  obtain ⟨⟨writable, suitable⟩, overwritten⟩ := puts.of_ok
  refine ⟨overwritten, ?_⟩
  -- the regions and the configuration decide what is granted, and both are as before
  have covered : next.Covers address datum.bytes := by
    rw [covers_iff_table, overwritten.table, ← covers_iff_table]
    exact writable.covers
  have suits : next.Suits address datum.bytes := by
    rw [Suits, overwritten.config]
    exact suitable
  obtain ⟨found, byte, read, shown, sum⟩ :=
    (reads (valid.of_table overwritten.table) datum address).granted ⟨covered, suits⟩
  have bytes : (List.range datum.bytes).map byte = datum.split value := by
    apply List.map_congr_left
    intro index member
    have inside := List.mem_range.1 member
    have placed := overwritten.placed index (by rwa [datum.length_split])
    rw [shown index inside, Datum.split, List.getElem?_map, List.getElem?_range inside] at placed
    exact Option.some.inj placed
  rw [read]
  congr 1
  apply BitVec.eq_of_toNat_eq
  rw [sum, ← LittleEndian.value_map_range, bytes, datum.value_split,
    BitVec.toNat_setWidth_of_le datum.bits_le]

end Memory

/-! ## Two transfers -/

namespace Machine

/-- A machine after a datum was stored and loaded again. The register that was loaded has the low
bytes of the register that was stored, with zeros or with copies of their top bit above them, and
all other registers and the flags are as before. The bytes at the effective address are those that
were stored, and no other byte changes. -/
structure LoadsBack (machine : Machine) (storing loading : TransferFormat) (datum : Datum)
    (loaded : Machine) : Prop where
  zeroExtended : loading.kind = .load datum → loaded.core.read loading.register.wide =
    ((machine.core.read storing.register.wide).setWidth (8 * datum.bytes)).setWidth 32
  signExtended : loading.kind = .loadSigned datum → loaded.core.read loading.register.wide =
    ((machine.core.read storing.register.wide).setWidth (8 * datum.bytes)).signExtend 32
  others : ∀ slot, slot ≠ loading.register.wide.slot →
    loaded.core.registers.get slot = machine.core.registers.get slot
  flags : loaded.core.flags = machine.core.flags
  pc : loaded.core.pc = machine.core.pc + 4
  memory : machine.memory.Overwritten (storing.address machine.core)
    (datum.split (machine.core.read storing.register.wide)) loaded.memory

variable {machine stored : Machine}

/-- What a store that completes has done. -/
theorem written_of_stores {storing : TransferFormat} {datum : Datum}
    (stores : storing.kind = .store datum)
    (completes : machine.perform storing.word = .ok ⟨stored, none⟩) :
    datum.write machine.memory (storing.address machine.core)
      (machine.core.read storing.register.wide) =
        .ok stored.memory ∧
      stored.core = machine.core.setPc machine.core.nextPc := by
  rw [perform_transfer, Transfer.perform, stores] at completes
  dsimp only at completes
  cases written : datum.write machine.memory (storing.address machine.core)
      (machine.core.read storing.register.wide) with
  | error access =>
      rw [written] at completes
      cases completes
  | ok memory =>
      rw [written] at completes
      cases completes
      exact ⟨rfl, rfl⟩

/-- What a load makes of a machine that a store left, by the word that it delivers. -/
theorem loadsBack_of_delivered {storing loading : TransferFormat} {datum : Datum} {value : Word}
    (core : stored.core = machine.core.setPc machine.core.nextPc)
    (overwritten : machine.memory.Overwritten (storing.address machine.core)
      (datum.split (machine.core.read storing.register.wide)) stored.memory)
    (zeroExtended : loading.kind = .load datum → value =
      ((machine.core.read storing.register.wide).setWidth (8 * datum.bytes)).setWidth 32)
    (signExtended : loading.kind = .loadSigned datum → value =
      ((machine.core.read storing.register.wide).setWidth (8 * datum.bytes)).signExtend 32) :
    machine.LoadsBack storing loading datum
      (stored.write loading.register.wide value).next.machine := by
  have general := loading.register.wide_ne_pc
  have delivered :
      (stored.write loading.register.wide value).next.machine.core.read loading.register.wide =
        value := by
    rw [next, Core.read_setPc _ _ general]
    exact (stored.core.read_write general value _).trans (if_pos rfl)
  constructor
  · intro plain
    rw [delivered, zeroExtended plain]
  · intro signed
    rw [delivered, signExtended signed]
  · intro slot other
    rw [next, Core.setPc_registers, write, setCore, Core.write, RegisterFile.get_set,
      if_neg other.symm, core, Core.setPc_registers]
  · have kept : stored.core.flags = machine.core.flags := by rw [core, Core.setPc_flags]
    exact kept
  · have ahead : stored.core.pc = machine.core.pc + 2 := by rw [core, Core.setPc_pc, Core.nextPc]
    change stored.core.pc + 2 = machine.core.pc + 4
    rw [ahead, BitVec.add_assoc]
    rfl
  · exact overwritten

/-- A word that stands for a store and completes, of a datum from some register, and after it a word
that stands for a load of a datum of the same size: if the two effective addresses are the same, the
load completes and gives back what was stored. Nothing is assumed of the formats and of the
registers that they name. -/
theorem store_then_load (assembled : machine.memory.Assembled) {storing loading : TransferFormat}
    {datum : Datum} {first second : Halfword}
    (storeDecoded : decode first = .ok (.transfer storing))
    (loadDecoded : decode second = .ok (.transfer loading))
    (stores : storing.kind = .store datum)
    (loads : loading.kind = .load datum ∨ loading.kind = .loadSigned datum)
    (completes : machine.perform first = .ok ⟨stored, none⟩)
    (same : loading.address stored.core = storing.address machine.core) :
    ∃ loaded, stored.perform second = .ok ⟨loaded, none⟩ ∧
      machine.LoadsBack storing loading datum loaded := by
  obtain rfl := TransferFormat.decode_eq_transfer_iff.1 storeDecoded
  obtain rfl := TransferFormat.decode_eq_transfer_iff.1 loadDecoded
  obtain ⟨written, core⟩ := written_of_stores stores completes
  obtain ⟨overwritten, read⟩ := Memory.read_written assembled.valid written
  rcases loads with plain | signed
  · refine ⟨_, ?_, loadsBack_of_delivered core overwritten (fun _ => rfl) fun signed => ?_⟩
    · rw [perform_transfer, Transfer.perform, plain, same]
      dsimp only
      rw [read]
      rfl
    · cases plain.symm.trans signed
  · refine ⟨_, ?_, loadsBack_of_delivered core overwritten (fun plain => ?_) fun _ => rfl⟩
    · have cut : ∀ value : BitVec (8 * datum.bytes),
          signExtendLow (value.setWidth 32) (8 * datum.bytes) =
          value.signExtend 32 := by
        intro value
        rw [signExtendLow_eq_signExtend _ datum.bits_pos datum.bits_le,
          BitVec.setWidth_setWidth_of_le value datum.bits_le, BitVec.setWidth_eq]
      rw [perform_transfer, Transfer.perform, signed, same]
      dsimp only
      rw [read, ← cut]
      rfl
    · cases signed.symm.trans plain

/-- Sixteen writable bytes, R2 in them and R3 half of R2 modulo the size of the address space. -/
def pointingTwice : Machine :=
  { core :=
      { registers :=
          (RegisterFile.zero.set (Register.slot 2) 0x184).set (Register.slot 3) 0x800000C2
        flags := default
        pc := 0x40 }
    memory := (Memory.empty ⟨true⟩).extend
      { name := "ram", region := ⟨0x180, 16⟩, access := .readWrite, contents := .zeros 16 } }

/-- STRB R2, [R2, #0] puts the low byte of its own address there, and LDSB R3, [R3, R3] gets it back
negative. -/
theorem store_then_load_pointingTwice :
    let storing : TransferFormat := .displaced .store .byte 0 2 2
    let loading : TransferFormat := .extended .loadSignedByte 3 3 3
    pointingTwice.memory.Assembled ∧ decode 0x7012 = .ok (.transfer storing) ∧
      decode 0x56DB = .ok (.transfer loading) ∧
      ∃ stored : Machine, pointingTwice.perform 0x7012 = .ok ⟨stored, none⟩ ∧
        loading.address stored.core = storing.address pointingTwice.core ∧
        ∃ loaded, stored.perform 0x56DB = .ok ⟨loaded, none⟩ ∧
          pointingTwice.LoadsBack storing loading .byte loaded ∧
          loaded.core.read 3 = 0xFFFFFF84 := by
  intro storing loading
  have mapped : (Memory.empty ⟨true⟩).map "ram" 0x180 (.zeros 16) .readWrite =
      .ok (⟨0x180, 16⟩, pointingTwice.memory) :=
    Memory.map_eq_ok_iff.2 ⟨by decide, rfl, rfl⟩
  have assembled : pointingTwice.memory.Assembled := .map (.empty ⟨true⟩) mapped
  have storeDecoded : decode 0x7012 = .ok (.transfer storing) := rfl
  have loadDecoded : decode 0x56DB = .ok (.transfer loading) := rfl
  let step := execute 0x7012 (.transfer storing) pointingTwice
  have fault : step.fault = none := by decide +kernel
  have completes : pointingTwice.perform 0x7012 = .ok ⟨step.machine, none⟩ := by
    rw [perform_of_decoded storeDecoded, ← fault]
  have same : loading.address step.machine.core = storing.address pointingTwice.core := by
    decide +kernel
  obtain ⟨loaded, loads, back⟩ :=
    store_then_load assembled storeDecoded loadDecoded rfl (.inr rfl) completes same
  refine ⟨assembled, storeDecoded, loadDecoded, step.machine, completes, same, loaded, loads, back,
    (back.signExtended rfl).trans ?_⟩
  decide +kernel

end Machine

end ThumbMachine
