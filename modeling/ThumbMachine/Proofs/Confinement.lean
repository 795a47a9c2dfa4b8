/-
Module: ThumbMachine.Proofs.Confinement
Purpose: The guest, and a host that goes through the access functions, can do to memory only what
  granted writes do. Such writes leave the configuration, the table of regions and every byte of a
  read-only region as they were; so does every session made of them, whatever its runs end in.
Main exports: Handler.Keeps, Processor.after_keeps, Handler.WritesOnly, Memory.Sealed,
  Processor.memory_sealed
-/
import ThumbMachine.Host.Script
import ThumbMachine.Proofs.ByteMap
import ThumbMachine.Proofs.Effects
import ThumbMachine.Proofs.Sessions

namespace ThumbMachine

variable {σ : Type}

/-! ## What a session keeps of memory -/

/-- A host that keeps a property of memory. -/
def Handler.Keeps (handler : Handler σ) (motive : Memory → Prop) : Prop :=
  ∀ (code : Byte) (host : Host σ), motive host.memory → motive (handler code host).1.memory

/-- A move that keeps a property of memory. -/
def Move.Keeps (motive : Memory → Prop) : Move σ → Prop
  | .run handler _ => handler.Keeps motive
  | .setMemory memory => motive memory
  | .setRegisters _ | .setState _ => True

section Keeping

variable {motive : Memory → Prop} {handler : Handler σ} {processor : Processor σ} {count : Nat}

/-- What lasts through a granted write, and is kept by the host, lasts through a turn. -/
theorem Taken.Faithful.keeps {taken : Taken σ} {image : CodeImage}
    (closed : ∀ {memory next : Memory}, motive memory → memory.Written next → motive next)
    (faithful : taken.Faithful image handler) (keeps : handler.Keeps motive)
    (holds : motive taken.start.host.memory) : motive taken.finish.host.memory := by
  cases interrupt : taken.isInterrupt with
  | true =>
      obtain ⟨code, left⟩ := faithful.host_of_interrupt interrupt
      rw [left]
      exact keeps code taken.start.handed holds
  | false => exact closed holds (faithful.effect_of_ordinary interrupt).memory

namespace Processor

/-- It lasts up to every turn of a run. -/
theorem start_keeps
    (closed : ∀ {memory next : Memory}, motive memory → memory.Written next → motive next)
    (keeps : handler.Keeps motive) (holds : motive processor.host.memory)
    {earlier later : List (Taken σ)} {taken : Taken σ}
    (shape : processor.turns handler count = earlier ++ taken :: later) :
    motive taken.start.host.memory := by
  apply start_induction (motive := fun _ batch => motive batch.host.memory) holds _ shape
  intro image before previous faithful reached
  exact faithful.keeps closed keeps reached

theorem run_keeps
    (closed : ∀ {memory next : Memory}, motive memory → memory.Written next → motive next)
    (keeps : handler.Keeps motive) (holds : motive processor.host.memory) :
    motive (processor.run handler count).1.host.memory := by
  obtain ⟨image, run⟩ := processor.run_eq_absorb_last handler count
  rw [run]
  change motive (processor.last handler count).host.memory
  apply last_induction (motive := fun _ batch => motive batch.host.memory) holds
  intro image before previous faithful reached
  exact faithful.keeps closed keeps reached

/-- It lasts through a session whose moves all keep it. -/
theorem after_keeps
    (closed : ∀ {memory next : Memory}, motive memory → memory.Written next → motive next)
    {moves : List (Move σ)} (keeps : ∀ move ∈ moves, move.Keeps motive)
    (holds : motive processor.host.memory) : motive (processor.after moves).host.memory := by
  apply after_induction (motive := fun _ reached => motive reached.host.memory) holds
  intro record reached move member kept
  cases move with
  | run handler count => exact run_keeps closed (keeps _ member) kept
  | setRegisters registers => exact kept
  | setMemory memory => exact keeps _ member
  | setState state => exact kept

end Processor

end Keeping

/-! ## What a session writes -/

/-- A host that touches memory only through the access functions: it may read what it likes, and
what it changes it writes. -/
def Handler.WritesOnly (handler : Handler σ) : Prop :=
  ∀ (code : Byte) (host : Host σ), host.memory.Written (handler code host).1.memory

/-- A move that touches memory, if at all, through the access functions. -/
def Move.WritesOnly : Move σ → Prop
  | .run handler _ => handler.WritesOnly
  | .setRegisters _ | .setState _ => True
  | .setMemory _ => False

/-- Such a host keeps all that lasts through granted writes. -/
theorem Handler.WritesOnly.keeps {motive : Memory → Prop} {handler : Handler σ}
    (closed : ∀ {memory next : Memory}, motive memory → memory.Written next → motive next)
    (writesOnly : handler.WritesOnly) : handler.Keeps motive :=
  fun code host holds => closed holds (writesOnly code host)

theorem Move.WritesOnly.keeps {motive : Memory → Prop} {move : Move σ}
    (closed : ∀ {memory next : Memory}, motive memory → memory.Written next → motive next)
    (writesOnly : move.WritesOnly) : move.Keeps motive := by
  cases move with
  | run handler count => exact Handler.WritesOnly.keeps closed writesOnly
  | setRegisters registers => trivial
  | setMemory memory => exact writesOnly.elim
  | setState state => trivial

/-- A session of such moves writes to memory and does nothing else to it. -/
theorem Processor.after_written (processor : Processor σ) {moves : List (Move σ)}
    (writesOnly : ∀ move ∈ moves, move.WritesOnly) :
    processor.host.memory.Written (processor.after moves).host.memory :=
  after_keeps Memory.Written.trans
    (fun move member => (writesOnly move member).keeps Memory.Written.trans) .same

/-! ## What writes leave alone -/

namespace Memory

/-- A change of the first region that passes a test leaves the others in their places. -/
theorem getElem?_modifyFirst {test : MappedRegion → Bool} {change : MappedRegion → MappedRegion}
    {regions : List MappedRegion} {found mapped : MappedRegion} {index : Nat}
    (first : regions.find? test = some found) (apart : mapped ≠ found)
    (there : regions[index]? = some mapped) :
    (modifyFirst test change regions)[index]? = some mapped := by
  induction regions generalizing index with
  | nil => cases there
  | cons head rest inductionHypothesis =>
      rw [modifyFirst]
      cases passes : test head with
      | true =>
          rw [List.find?_cons_of_pos passes] at first
          cases first
          cases index with
          | zero => exact absurd (Option.some.inj there).symm apart
          | succ index => exact there
      | false =>
          rw [List.find?_cons_of_neg (by simp [passes])] at first
          cases index with
          | zero => exact there
          | succ index => exact inductionHypothesis first there

/-- A change that a look-up does not notice leaves what it finds, unless that is what is changed. -/
theorem find?_modifyFirst {test probe : MappedRegion → Bool} {change : MappedRegion → MappedRegion}
    {regions : List MappedRegion} {found mapped : MappedRegion}
    (unnoticed : ∀ mapped, probe (change mapped) = probe mapped)
    (first : regions.find? test = some found) (apart : mapped ≠ found)
    (seen : regions.find? probe = some mapped) :
    (modifyFirst test change regions).find? probe = some mapped := by
  induction regions with
  | nil => cases seen
  | cons head rest inductionHypothesis =>
      rw [modifyFirst]
      cases passes : test head with
      | true =>
          rw [List.find?_cons_of_pos passes, Option.some.injEq] at first
          subst first
          cases noticed : probe head with
          | true =>
              rw [List.find?_cons_of_pos noticed] at seen
              exact absurd (Option.some.inj seen).symm apart
          | false =>
              rw [List.find?_cons_of_neg (by simp [noticed])] at seen
              rw [if_pos rfl, List.find?_cons_of_neg (by simp [unnoticed, noticed])]
              exact seen
      | false =>
          rw [List.find?_cons_of_neg (by simp [passes])] at first
          rw [if_neg (by simp)]
          cases noticed : probe head with
          | true =>
              rw [List.find?_cons_of_pos noticed] at seen ⊢
              exact seen
          | false =>
              rw [List.find?_cons_of_neg (by simp [noticed])] at seen ⊢
              exact inductionHypothesis first seen

/-- One memory as seen from another that it came from: the configuration and the names, bounds and
access rights of the regions are the same, and so is every read-only region with all its bytes, both
in its place in the table and at the addresses where it is found. -/
structure Sealed (memory next : Memory) : Prop where
  config : next.config = memory.config
  table : next.table = memory.table
  contents : ∀ (index : Nat) (mapped : MappedRegion), memory.regions[index]? = some mapped →
    mapped.access = .readOnly → next.regions[index]? = some mapped
  bytes : ∀ (address : Word) (length : Nat) (found : MappedRegion),
    memory.locate? address length = some found → found.access = .readOnly →
      next.locate? address length = some found

variable {memory next : Memory}

theorem table_replace (memory : Memory) (address : Word) (bytes : List Byte) :
    (memory.replace address bytes).table = memory.table :=
  map_modifyFirst (·.holds address bytes.length) (·.write address bytes) (fun _ => rfl)
    memory.regions

/-- A write reaches memory only in a region that is writable. -/
theorem sealed_replace {address : Word} {bytes : List Byte} {reached : MappedRegion}
    (located : memory.locate? address bytes.length = some reached)
    (writable : reached.access = .readWrite) : memory.Sealed (memory.replace address bytes) where
  config := rfl
  table := table_replace memory address bytes
  contents index mapped there readOnly := by
    apply getElem?_modifyFirst located _ there
    rintro rfl
    rw [writable] at readOnly
    cases readOnly
  bytes other length found seen readOnly := by
    apply find?_modifyFirst (fun _ => ?_) located ?_ seen
    · rintro rfl
      rw [writable] at readOnly
      cases readOnly
    · rfl

theorem sealed_write {datum : Datum} {address value : Word}
    (granted : datum.write memory address value = .ok next) : memory.Sealed next := by
  rw [datum.write_eq_split] at granted
  obtain ⟨_, ⟨reached, located, writable⟩, rfl⟩ := writeBytes_eq_ok_iff.1 granted
  exact sealed_replace located writable

/-- Granted writes, as many as there may be, reach no read-only region and move none. -/
theorem Written.isSealed (written : memory.Written next) : memory.Sealed next := by
  induction written with
  | same => exact ⟨rfl, rfl, fun _ _ there _ => there, fun _ _ _ seen _ => seen⟩
  | write before granted inductionHypothesis =>
      have last := sealed_write granted
      constructor
      · exact last.config.trans inductionHypothesis.config
      · exact last.table.trans inductionHypothesis.table
      · intro index mapped there readOnly
        have before := inductionHypothesis.contents index mapped there readOnly
        exact last.contents index mapped before readOnly
      · intro address length found seen readOnly
        exact last.bytes address length found
          (inductionHypothesis.bytes address length found seen readOnly) readOnly

end Memory

/-! ## The scripted host -/

namespace ScriptedHost

theorem act_written {host next : Host ScriptedHost} {action : ScriptAction}
    (done : act host action = .ok next) : host.memory.Written next.memory := by
  cases action with
  | set slot value =>
      cases done
      exact .same
  | add slot value =>
      cases done
      exact .same
  | read datum slot address =>
      rw [act] at done
      cases read : datum.read host.memory address with
      | error access => simp [read, bind, Except.bind] at done
      | ok value =>
          rw [read] at done
          cases done
          exact .same
  | write datum address value =>
      rw [act] at done
      cases granted : datum.write host.memory address value with
      | error access => simp [granted, bind, Except.bind] at done
      | ok memory =>
          rw [granted] at done
          cases done
          exact .single _ granted
  | region slot address length =>
      rw [act] at done
      cases found : host.memory.findRegion address length with
      | error access => simp [found, bind, Except.bind] at done
      | ok region =>
          rw [found] at done
          cases done
          exact .same

theorem actAll_written (host : Host ScriptedHost) (actions : List ScriptAction) :
    host.memory.Written (actAll host actions).1.memory := by
  induction actions generalizing host with
  | nil => exact .same
  | cons action rest inductionHypothesis =>
      rw [actAll]
      split
      · rename_i next done
        exact (act_written done).trans (inductionHypothesis next)
      · exact .same

/-- A scripted host touches memory only through the access functions. -/
theorem handler_writesOnly : handler.WritesOnly := by
  intro code host
  rw [handler]
  dsimp only
  split
  · exact .same
  · rename_i entry found
    have acted := actAll_written
      { host with
        state :=
          { host.state with
            calls := ⟨code, host.registers.pc, host.registers.status⟩ :: host.state.calls } }
      entry.actions
    split
    · rename_i after access done
      rw [done] at acted
      exact acted
    · rename_i after done
      rw [done] at acted
      exact acted

end ScriptedHost

/-! ## Isolation -/

namespace Processor

/-- Whatever the guest executes and however its runs end, the read-only regions, the table of
regions and the configuration are afterwards what they were before. -/
theorem memory_sealed (processor : Processor σ) (moves : List (Move σ))
    (writesOnly : ∀ move ∈ moves, move.WritesOnly) :
    processor.host.memory.Sealed (processor.after moves).host.memory :=
  (processor.after_written writesOnly).isSealed

/-- A host that writes to the writable region and then tries to write to the code, and a guest that
pushes two registers with room for one: SWI 1 and PUSH {R0, R1}, the code at 0 and four writable
bytes behind it. -/
def pushingIntoCode : Processor ScriptedHost :=
  create
    { registers := RegisterFile.zero.set Register.sp.slot 12
      memory :=
        { config := ⟨true⟩
          regions :=
            [{ name := "code", region := ⟨0, 8⟩, access := .readOnly
               contents := .ofBytes [0x01, 0xDF, 0x03, 0xB4, 0, 0, 0, 0] },
             { name := "stack", region := ⟨8, 4⟩, access := .readWrite, contents := .zeros 4 }] }
      state := .create
        [(1, ⟨[.set RegisterFile.pcSlot 2, .set (Register.slot 1) 7, .write .word 8 5,
          .write .word 0 9], []⟩)] }

/-- Two runs: the first ends with the host's refused write, the second part-way through the PUSH. -/
def pushingRuns : List (Move ScriptedHost) :=
  [.run ScriptedHost.handler 1, .run ScriptedHost.handler 3]

theorem memory_sealed_pushingIntoCode :
    (∀ move ∈ pushingRuns, move.WritesOnly) ∧
      ((pushingIntoCode.run ScriptedHost.handler 1).1.run ScriptedHost.handler 3).2 =
        .faulted (.invalidAccess ⟨4, 4⟩) ∧
      pushingIntoCode.host.memory.Sealed (pushingIntoCode.after pushingRuns).host.memory := by
  have writesOnly : ∀ move ∈ pushingRuns, move.WritesOnly := by
    simp only [pushingRuns, List.forall_mem_cons]
    exact ⟨ScriptedHost.handler_writesOnly, ScriptedHost.handler_writesOnly, List.forall_mem_nil _⟩
  have partWay : ((pushingIntoCode.run ScriptedHost.handler 1).1.run ScriptedHost.handler 3).2 =
      .faulted (.invalidAccess ⟨4, 4⟩) := by decide +kernel
  exact ⟨writesOnly, partWay, memory_sealed pushingIntoCode pushingRuns writesOnly⟩

end Processor

end ThumbMachine
