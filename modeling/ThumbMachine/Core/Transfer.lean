/-
Module: ThumbMachine.Core.Transfer
Purpose: A core together with its memory; transfers of one datum, and transfers of register lists
  that stop at the first refused access and keep what was done before it.
Main exports: Machine, Step, Transfer, Transfer.perform, Machine.loadList, Machine.storeList,
  Machine.pushList
-/
import ThumbMachine.Core.Basic
import ThumbMachine.Instruction.Basic
import ThumbMachine.Memory.Datum

namespace ThumbMachine

/-- A core and the memory it works on. -/
structure Machine where
  core : Core
  memory : Memory

/-- What became of one instruction: the machine after it and, where it could not complete, why. -/
structure Step where
  machine : Machine
  fault : Option Fault

namespace Machine

/-- The instruction completed and execution goes on after it. -/
def next (machine : Machine) : Step :=
  { machine := { machine with core := machine.core.setPc machine.core.nextPc }, fault := none }

/-- The instruction completed and execution goes on elsewhere. -/
def goto (machine : Machine) (target : Word) : Step :=
  { machine := { machine with core := machine.core.setPc target }, fault := none }

/-- The instruction did not complete; the program counter stays on it. -/
def fail (machine : Machine) (cause : Fault) : Step := { machine, fault := some cause }

/-- Replaces the core. -/
def setCore (machine : Machine) (core : Core) : Machine := { machine with core }

/-- Writes a general register. -/
def write (machine : Machine) (register : Register) (value : Word) : Machine :=
  machine.setCore (machine.core.write register value)

end Machine

/-! ## One datum -/

/-- What a transfer of one datum does. -/
inductive TransferKind where
  /-- Stores the low bytes of the register. -/
  | store (datum : Datum)
  /-- Loads a datum, with zeros above it. -/
  | load (datum : Datum)
  /-- Loads a datum, with copies of its top bit above it. -/
  | loadSigned (datum : Datum)
deriving DecidableEq, Repr, Inhabited

namespace TransferKind

/-- The plain transfers of a direction. -/
def ofDirection (direction : Direction) (datum : Datum) : TransferKind :=
  match direction with
  | .store => store datum
  | .load => load datum

end TransferKind

namespace TransferSize

/-- The datum of a byte/word bit. -/
def datum : TransferSize → Datum
  | word => .word
  | byte => .byte

end TransferSize

namespace HalfwordTransfer

/-- What a halfword or sign-extending transfer does. -/
def kind : HalfwordTransfer → TransferKind
  | storeHalfword => .store .halfword
  | loadSignedByte => .loadSigned .byte
  | loadHalfword => .load .halfword
  | loadSignedHalfword => .loadSigned .halfword

end HalfwordTransfer

/-- A transfer of one datum between a low register and memory. -/
structure Transfer where
  kind : TransferKind
  address : Word
  register : LowRegister
deriving DecidableEq, Repr, Inhabited

namespace Transfer

/-- Puts a loaded word into its register. -/
def deliver (transfer : Transfer) (machine : Machine) (loaded : Except InvalidAccess Word) : Step :=
  match loaded with
  | .ok value => (machine.write transfer.register.wide value).next
  | .error access => machine.fail (.invalidAccess access)

/-- Performs a transfer; a refused access changes nothing. -/
def perform (transfer : Transfer) (machine : Machine) : Step :=
  match transfer.kind with
  | .store datum =>
      match datum.write machine.memory transfer.address
          (machine.core.read transfer.register.wide) with
      | .ok memory => { machine with memory }.next
      | .error access => machine.fail (.invalidAccess access)
  | .load datum => transfer.deliver machine (datum.read machine.memory transfer.address)
  | .loadSigned datum =>
      transfer.deliver machine
        ((datum.read machine.memory transfer.address).map (signExtendLow · (8 * datum.bytes)))

end Transfer

/-! ## Register lists -/

/-- Where a list transfer stands: the machine, the address reached and the access that was
refused, if any. -/
structure ListTransfer where
  machine : Machine
  address : Word
  refused : Option InvalidAccess

namespace Machine

/-- Loads registers from ascending words. -/
def loadList (machine : Machine) (address : Word) : List LowRegister → ListTransfer
  | [] => ⟨machine, address, none⟩
  | register :: rest =>
      match machine.memory.readWord address with
      | .ok value => (machine.write register.wide value).loadList (address + 4) rest
      | .error access => ⟨machine, address, some access⟩

/-- Stores registers to ascending words. -/
def storeList (machine : Machine) (address : Word) : List LowRegister → ListTransfer
  | [] => ⟨machine, address, none⟩
  | register :: rest =>
      match machine.memory.writeWord address (machine.core.read register.wide) with
      | .ok memory => { machine with memory }.storeList (address + 4) rest
      | .error access => ⟨machine, address, some access⟩

/-- Stores registers to descending words; the address moves down before each store. -/
def pushList (machine : Machine) (address : Word) : List Register → ListTransfer
  | [] => ⟨machine, address, none⟩
  | register :: rest =>
      match machine.memory.writeWord (address - 4) (machine.core.read register) with
      | .ok memory => { machine with memory }.pushList (address - 4) rest
      | .error access => ⟨machine, address - 4, some access⟩

end Machine

namespace ListTransfer

/-- Writes the address reached back to a register and ends the instruction. -/
def writeBack (transfer : ListTransfer) (register : Register) : Step :=
  let machine := transfer.machine.write register transfer.address
  match transfer.refused with
  | none => machine.next
  | some access => machine.fail (.invalidAccess access)

end ListTransfer

namespace Machine

/-- LDMIA or STMIA. The base ends at the address reached, also when the list loads it. -/
def blockTransfer (machine : Machine) (direction : Direction) (base : LowRegister) (list : Byte) :
    Step :=
  let start := machine.core.read base.wide
  let transfer := match direction with
    | .store => machine.storeList start (listedRegisters list)
    | .load => machine.loadList start (listedRegisters list)
  transfer.writeBack base.wide

/-- PUSH: the link register highest, then the listed registers downward. The stack pointer ends at
the address reached, also after a refused store. -/
def push (machine : Machine) (link : Bool) (list : Byte) : Step :=
  let registers :=
    (if link then [Register.lr] else []) ++ ((listedRegisters list).map LowRegister.wide).reverse
  (machine.pushList (machine.core.read Register.sp) registers).writeBack Register.sp

/-- POP: the listed registers upward, then the program counter. A popped target without bit 0 is
refused and stays on the stack. -/
def pop (machine : Machine) (branch : Bool) (list : Byte) : Step :=
  let transfer := machine.loadList (machine.core.read Register.sp) (listedRegisters list)
  match transfer.refused, branch with
  | none, true =>
      let machine := transfer.machine
      match machine.memory.readWord transfer.address with
      | .error access =>
          (machine.write Register.sp transfer.address).fail (.invalidAccess access)
      | .ok target =>
          if target.getLsbD 0 then
            (machine.write Register.sp (transfer.address + 4)).goto (halfwordAligned target)
          else
            (machine.write Register.sp transfer.address).fail (.invalidTarget target)
  | _, _ => transfer.writeBack Register.sp

end Machine

end ThumbMachine
