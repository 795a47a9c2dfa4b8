/-
Module: ThumbMachine.Memory.Basic
Purpose: The address space: named regions that do not overlap, little-endian, each readable and some
  writable, with byte, halfword and word access.
Main exports: Memory, Memory.mapRam, Memory.mapRom, Memory.load, Memory.findRegion,
  Memory.readBytes, Memory.writeBytes
-/
import ThumbMachine.Memory.Contents
import ThumbMachine.Memory.Region
import ThumbMachine.Fault

namespace ThumbMachine

/-- What the guest may do with a region. -/
inductive Access where
  | readWrite
  | readOnly
deriving DecidableEq, Repr, Inhabited

/-- A region of the address space with its name, its access right and its bytes. -/
structure MappedRegion where
  name : String
  region : Region
  access : Access
  contents : Contents

namespace MappedRegion

/-- Whether a range of addresses lies in the region. -/
def holds (mapped : MappedRegion) (address : Word) (length : Nat) : Bool :=
  mapped.region.contains address length

/-- How far an address lies behind the start of the region. -/
def offset (mapped : MappedRegion) (address : Word) : Nat :=
  address.toNat - mapped.region.start.toNat

/-- The bytes of a range that lies in the region. -/
def read (mapped : MappedRegion) (address : Word) (length : Nat) : List Byte :=
  mapped.contents.slice (mapped.offset address) length

/-- Replaces the bytes of a range that lies in the region. -/
def write (mapped : MappedRegion) (address : Word) (bytes : List Byte) : MappedRegion :=
  { mapped with contents := mapped.contents.splice (mapped.offset address) bytes }

end MappedRegion

/-- How accesses are checked. -/
structure MemoryConfig where
  /-- Refuse halfword and word accesses at addresses that are no multiple of their size. -/
  strictAlignment : Bool
deriving DecidableEq, Repr, Inhabited

/-- An address space: its regions in the order of mapping. -/
structure Memory where
  config : MemoryConfig
  regions : List MappedRegion

namespace Memory

/-- An address space without regions. -/
def empty (config : MemoryConfig) : Memory := { config, regions := [] }

/-- The region in which a range lies, first mapped first. -/
def locate? (memory : Memory) (address : Word) (length : Nat) : Option MappedRegion :=
  memory.regions.find? (·.holds address length)

/-- Whether a new block may be mapped: it has at least one byte and at most as many as a word can
count, ends inside the address space and overlaps nothing mapped before. -/
def accepts (memory : Memory) (start : Word) (size : Nat) : Bool :=
  0 < size && size < 0x100000000 && start.toNat + size ≤ 0x100000000
    && !memory.regions.any (·.region.overlaps ⟨start, BitVec.ofNat 32 size⟩)

/-- Maps contents at an address. -/
def map (memory : Memory) (name : String) (start : Word) (contents : Contents) (access : Access) :
    Except InvalidAccess (Region × Memory) :=
  if memory.accepts start contents.size then
    let region : Region := ⟨start, BitVec.ofNat 32 contents.size⟩
    .ok (region, { memory with regions := memory.regions ++ [{ name, region, access, contents }] })
  else
    .error (InvalidAccess.of start contents.size)

/-- Maps writable zeros. -/
def mapRam (memory : Memory) (name : String) (start : Word) (size : Word) :
    Except InvalidAccess (Region × Memory) :=
  memory.map name start (Contents.zeros size.toNat) .readWrite

/-- Maps a copy of a byte string that the guest cannot write to. -/
def mapRom (memory : Memory) (name : String) (start : Word) (bytes : List Byte) :
    Except InvalidAccess (Region × Memory) :=
  memory.map name start (Contents.ofBytes bytes) .readOnly

/-- Applies a change to the first region that passes a test. -/
def modifyFirst (test : MappedRegion → Bool) (change : MappedRegion → MappedRegion) :
    List MappedRegion → List MappedRegion
  | [] => []
  | mapped :: rest =>
      if test mapped then change mapped :: rest else mapped :: modifyFirst test change rest

/-- Replaces the bytes of a range in the region that holds it. -/
def replace (memory : Memory) (address : Word) (bytes : List Byte) : Memory :=
  { memory with
    regions :=
      modifyFirst (·.holds address bytes.length) (·.write address bytes) memory.regions }

/-- The host's way to put bytes into memory: it ignores alignment and access rights, but the bytes
must fit into one region. -/
def load (memory : Memory) (address : Word) (bytes : List Byte) : Except InvalidAccess Memory :=
  match memory.locate? address bytes.length with
  | some _ => .ok (memory.replace address bytes)
  | none => .error (InvalidAccess.of address bytes.length)

/-- The region that holds at least `length` bytes from `address` on. -/
def findRegion (memory : Memory) (address : Word) (length : Nat) : Except InvalidAccess Region :=
  match memory.locate? address length with
  | some mapped => .ok mapped.region
  | none => .error (InvalidAccess.of address length)

/-- Whether an access is aligned as strictly as the configuration asks. -/
def aligned (memory : Memory) (address : Word) (length : Nat) : Bool :=
  !memory.config.strictAlignment || address.toNat % length == 0

/-- The guest's way to read: an aligned range inside one region. -/
def readBytes (memory : Memory) (address : Word) (length : Nat) :
    Except InvalidAccess (List Byte) :=
  if memory.aligned address length then
    match memory.locate? address length with
    | some mapped => .ok (mapped.read address length)
    | none => .error (InvalidAccess.of address length)
  else
    .error (InvalidAccess.of address length)

/-- The guest's way to write: an aligned range inside one writable region. -/
def writeBytes (memory : Memory) (address : Word) (bytes : List Byte) :
    Except InvalidAccess Memory :=
  if memory.aligned address bytes.length then
    match memory.locate? address bytes.length with
    | some mapped =>
        match mapped.access with
        | .readWrite => .ok (memory.replace address bytes)
        | .readOnly => .error (InvalidAccess.of address bytes.length)
    | none => .error (InvalidAccess.of address bytes.length)
  else
    .error (InvalidAccess.of address bytes.length)

/-- Reads a little-endian datum of `count` bytes. -/
def readDatum (memory : Memory) (count : Nat) (address : Word) :
    Except InvalidAccess (BitVec (8 * count)) :=
  (memory.readBytes address count).map fun bytes => BitVec.ofNat _ (LittleEndian.value bytes)

/-- Writes a little-endian datum of `count` bytes. -/
def writeDatum (memory : Memory) (count : Nat) (address : Word) (datum : BitVec (8 * count)) :
    Except InvalidAccess Memory :=
  memory.writeBytes address (LittleEndian.bytes count datum.toNat)

/-- Reads a byte. -/
def readByte (memory : Memory) (address : Word) : Except InvalidAccess Byte :=
  memory.readDatum 1 address

/-- Reads a halfword. -/
def readHalfword (memory : Memory) (address : Word) : Except InvalidAccess Halfword :=
  memory.readDatum 2 address

/-- Reads a word. -/
def readWord (memory : Memory) (address : Word) : Except InvalidAccess Word :=
  memory.readDatum 4 address

/-- Writes a byte. -/
def writeByte (memory : Memory) (address : Word) (datum : Byte) : Except InvalidAccess Memory :=
  memory.writeDatum 1 address datum

/-- Writes a halfword. -/
def writeHalfword (memory : Memory) (address : Word) (datum : Halfword) :
    Except InvalidAccess Memory :=
  memory.writeDatum 2 address datum

/-- Writes a word. -/
def writeWord (memory : Memory) (address : Word) (datum : Word) : Except InvalidAccess Memory :=
  memory.writeDatum 4 address datum

/-- Single-byte reads of `length` consecutive addresses, wrapping past the last one, up to the
first refusal. -/
def dump (memory : Memory) (address : Word) : (length : Nat) → Except InvalidAccess (List Byte)
  | 0 => .ok []
  | length + 1 => do
      let byte ← memory.readByte address
      let rest ← memory.dump (address + 1) length
      return byte :: rest

end Memory

end ThumbMachine
