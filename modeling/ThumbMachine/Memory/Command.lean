/-
Module: ThumbMachine.Memory.Command
Purpose: What a host can ask of a memory, as data: mapping, loading, looking up, reading, writing.
Main exports: Memory.Command, Memory.Reply, Memory.perform
-/
import ThumbMachine.Memory.Datum

namespace ThumbMachine.Memory

/-- A request to a memory. -/
inductive Command where
  /-- Map writable zeros. -/
  | mapRam (name : String) (start size : Word)
  /-- Map a read-only byte string. -/
  | mapRom (name : String) (start : Word) (bytes : List Byte)
  /-- Put bytes into a region, writable or not. -/
  | load (address : Word) (bytes : List Byte)
  /-- Ask for the region that holds a range. -/
  | findRegion (address : Word) (length : Nat)
  /-- Read an instruction word. -/
  | fetchCode (address : Word)
  /-- Read a datum. -/
  | read (datum : Datum) (address : Word)
  /-- Write a datum. -/
  | write (datum : Datum) (address value : Word)
  /-- Read consecutive bytes one by one. -/
  | dump (address : Word) (length : Nat)
  /-- Ask for the table of regions. -/
  | regions
  /-- Ask for the configuration. -/
  | config
deriving DecidableEq, Repr

/-- What a memory answers when it does not refuse. -/
inductive Reply where
  /-- Done, with nothing to tell. -/
  | done
  /-- The region mapped or found. -/
  | region (region : Region)
  /-- The datum read. -/
  | datum (value : Word)
  /-- The bytes read. -/
  | bytes (bytes : List Byte)
  /-- Names and bounds of the regions, in the order of mapping. -/
  | regions (table : List (String × Region))
  /-- The configuration. -/
  | config (config : MemoryConfig)
deriving DecidableEq, Repr

/-- Carries out a request. A refused one leaves the memory as it was. -/
def perform (memory : Memory) : Command → Except InvalidAccess (Reply × Memory)
  | .mapRam name start size => do
      let (region, mapped) ← memory.mapRam name start size
      return (.region region, mapped)
  | .mapRom name start bytes => do
      let (region, mapped) ← memory.mapRom name start bytes
      return (.region region, mapped)
  | .load address bytes => do return (.done, ← memory.load address bytes)
  | .findRegion address length => do return (.region (← memory.findRegion address length), memory)
  | .fetchCode address => do
      return (.datum ((← memory.readHalfword address).setWidth 32), memory)
  | .read datum address => do return (.datum (← datum.read memory address), memory)
  | .write datum address value => do return (.done, ← datum.write memory address value)
  | .dump address length => do return (.bytes (← memory.dump address length), memory)
  | .regions =>
      .ok (.regions (memory.regions.map fun mapped => (mapped.name, mapped.region)), memory)
  | .config => .ok (.config memory.config, memory)

end ThumbMachine.Memory
