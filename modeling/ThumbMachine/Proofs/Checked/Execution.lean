/-
Module: ThumbMachine.Proofs.Checked.Execution
Purpose: Execution once more, of instructions with wide fields and with all checks: on registers and
  amounts as in computing, on every bit of a register list, and on every access to memory. For what
  the decoder yields no check fails, and the step is that of the plain definition.
Main exports: Checked.execute, Checked.loadList_eq, Checked.pushList_eq, Checked.execute_eq
-/
import ThumbMachine.Core.Execute
import ThumbMachine.Proofs.Checked.Accesses
import ThumbMachine.Proofs.Checked.Computing
import ThumbMachine.Proofs.Checked.Decoding

namespace ThumbMachine.Checked

/-! ## Instructions that transfer or branch -/

/-- Puts a loaded word into its register. -/
def deliver (machine : Machine) (register : Nat) (loaded : Except InvalidAccess Word) :
    Checked Step :=
  match loaded with
  | .ok value => do return (machine.setCore (← writeRegister machine.core register value)).next
  | .error access => return machine.fail (.invalidAccess access)

/-- Stores the low bytes of a register. -/
def store (machine : Machine) (datum : Datum) (address : Word) (register : Nat) : Checked Step := do
  match ← write datum machine.memory address (← readRegister machine.core register) with
  | .ok memory => return { machine with memory }.next
  | .error access => return machine.fail (.invalidAccess access)

/-- Loads a datum, with zeros above it. -/
def load (machine : Machine) (datum : Datum) (address : Word) (register : Nat) : Checked Step := do
  deliver machine register (← read datum machine.memory address)

/-- Loads a datum, with copies of its top bit above it. -/
def loadSigned (machine : Machine) (datum : Datum) (address : Word) (register : Nat) :
    Checked Step := do
  match ← read datum machine.memory address with
  | .ok value => deliver machine register (.ok (← extendSign value (8 * datum.bytes)))
  | .error access => deliver machine register (.error access)

/-- A plain transfer. -/
def transfer (machine : Machine) (direction : Direction) (datum : Datum) (address : Word)
    (register : Nat) : Checked Step :=
  match direction with
  | .store => store machine datum address register
  | .load => load machine datum address register

/-- A halfword or sign-extending transfer. -/
def transferExtended (machine : Machine) (kind : HalfwordTransfer) (address : Word)
    (register : Nat) : Checked Step :=
  match kind with
  | .storeHalfword => store machine .halfword address register
  | .loadHalfword => load machine .halfword address register
  | .loadSignedByte => loadSigned machine .byte address register
  | .loadSignedHalfword => loadSigned machine .halfword address register

/-- Those of some register numbers that a list names. -/
def listed (list : Byte) : List Nat → Checked (List Nat)
  | [] => return []
  | number :: rest => do
      let named ← bitAt list number
      let later ← listed list rest
      return if named then number :: later else later

/-- Loads registers from ascending words. -/
def loadList (machine : Machine) (address : Word) : List Nat → Checked ListTransfer
  | [] => return ⟨machine, address, none⟩
  | number :: rest => do
      match ← read .word machine.memory address with
      | .ok value =>
          let core ← writeRegister machine.core number value
          loadList (machine.setCore core) (address + 4) rest
      | .error access => return ⟨machine, address, some access⟩

/-- Stores registers to ascending words. -/
def storeList (machine : Machine) (address : Word) : List Nat → Checked ListTransfer
  | [] => return ⟨machine, address, none⟩
  | number :: rest => do
      match ← write .word machine.memory address (← readRegister machine.core number) with
      | .ok memory => storeList { machine with memory } (address + 4) rest
      | .error access => return ⟨machine, address, some access⟩

/-- Stores registers to descending words. -/
def pushList (machine : Machine) (address : Word) : List Nat → Checked ListTransfer
  | [] => return ⟨machine, address, none⟩
  | number :: rest => do
      match ← write .word machine.memory (address - 4) (← readRegister machine.core number) with
      | .ok memory => pushList { machine with memory } (address - 4) rest
      | .error access => return ⟨machine, address - 4, some access⟩

/-- Writes the address reached back to a register and ends the instruction. -/
def writeBack (transfer : ListTransfer) (register : Nat) : Checked Step := do
  let core ← writeRegister transfer.machine.core register transfer.address
  match transfer.refused with
  | none => return (transfer.machine.setCore core).next
  | some access => return (transfer.machine.setCore core).fail (.invalidAccess access)

/-- LDMIA or STMIA. -/
def blockTransfer (machine : Machine) (direction : Direction) (base : Nat) (list : Byte) :
    Checked Step := do
  let start ← readRegister machine.core base
  let numbers ← listed list [0, 1, 2, 3, 4, 5, 6, 7]
  match direction with
  | .store => writeBack (← storeList machine start numbers) base
  | .load => writeBack (← loadList machine start numbers) base

/-- PUSH. -/
def push (machine : Machine) (link : Bool) (list : Byte) : Checked Step := do
  let start ← readRegister machine.core 13
  let numbers ← listed list [7, 6, 5, 4, 3, 2, 1, 0]
  writeBack (← pushList machine start ((if link then [14] else []) ++ numbers)) 13

/-- POP. -/
def pop (machine : Machine) (branch : Bool) (list : Byte) : Checked Step := do
  let start ← readRegister machine.core 13
  let numbers ← listed list [0, 1, 2, 3, 4, 5, 6, 7]
  let transfer ← loadList machine start numbers
  match transfer.refused, branch with
  | none, true =>
      let machine := transfer.machine
      match ← read .word machine.memory transfer.address with
      | .error access => do
          let core ← writeRegister machine.core 13 transfer.address
          return (machine.setCore core).fail (.invalidAccess access)
      | .ok target =>
          if ← bitAt target 0 then
            let core ← writeRegister machine.core 13 (transfer.address + 4)
            return (machine.setCore core).goto (halfwordAligned target)
          else
            let core ← writeRegister machine.core 13 transfer.address
            return (machine.setCore core).fail (.invalidTarget target)
  | _, _ => writeBack transfer 13

/-- Delivers a result to any register; one for R15 is a branch target. -/
def deliverHigh (machine : Machine) (destination : Nat) (value : Word) : Checked Step := do
  if destination = 15 then
    return machine.goto (halfwordAligned value)
  else
    return machine.compute (← writeRegister machine.core destination value)

/-- ADD, CMP or MOV between any two registers. -/
def high (machine : Machine) (op : HighOp) (source destination : Nat) : Checked Step := do
  let core := machine.core
  match op with
  | .add =>
      deliverHigh machine destination
        ((← readRegister core destination) + (← readRegister core source))
  | .mov => deliverHigh machine destination (← readRegister core source)
  | .cmp =>
      let result ← sub (← readRegister core destination) (← readRegister core source)
      return machine.compute (core.setFlags (core.flags.setArithmetic result))

/-- The core with the link register set, when a branch links. -/
def linkedCore (core : Core) (link : Bool) : Checked Core :=
  if link then writeRegister core 14 (core.nextPc ||| 1) else .ok core

/-- BX or BLX. -/
def branchExchange (machine : Machine) (source : Nat) (link : Bool) : Checked Step := do
  let target ← readRegister machine.core source
  if ← bitAt target 0 then
    let core ← linkedCore machine.core link
    return (machine.setCore core).goto (halfwordAligned target)
  else
    return machine.fail (.invalidTarget target)

/-- A branch over a distance from the instruction address plus 4. -/
def branchBy (machine : Machine) (distance : Word) : Checked Step := do
  return machine.goto ((← readRegister machine.core 15) + distance)

/-- The halves of BL. -/
def longBranch (machine : Machine) (low : Bool) (offset : Word) : Checked Step := do
  let core := machine.core
  if low then
    let parked ← readRegister core 14
    let distance ← extendSign (parked ||| (← shiftUp offset 1)) 23
    let linked ← writeRegister core 14 (core.nextPc ||| 1)
    return (machine.setCore linked).goto (core.nextPc + distance)
  else
    return machine.compute (← writeRegister core 14 (← shiftUp offset 12))

/-- Executes any instruction but SWI. -/
def execute (word : Halfword) (instruction : WideInstruction) (machine : Machine) :
    Checked Step := do
  let core := machine.core
  match instruction with
  | .shift kind amount source destination =>
      return machine.compute (← shift core kind amount source destination)
  | .addSubtract kind subtract operand source destination =>
      return machine.compute (← addSubtract core kind subtract operand source destination)
  | .immediate op destination value =>
      return machine.compute (← immediate core op destination value)
  | .alu op source destination => return machine.compute (← alu core op source destination)
  | .high op source destination => high machine op source destination
  | .branchExchange source link => branchExchange machine source link
  | .literal destination words =>
      load machine .word (← computedAddress core .pc words) destination
  | .indexed direction size offset base register =>
      let address := (← readRegister core base) + (← readRegister core offset)
      transfer machine direction size.datum address register
  | .extended kind offset base register =>
      let address := (← readRegister core base) + (← readRegister core offset)
      transferExtended machine kind address register
  | .displaced direction size units base register =>
      let address := (← readRegister core base) + (← shiftUp units size.offsetShift)
      transfer machine direction size.datum address register
  | .halfword direction halfwords base register =>
      let address := (← readRegister core base) + (← shiftUp halfwords 1)
      transfer machine direction .halfword address register
  | .stackTransfer direction register words =>
      transfer machine direction .word (← computedAddress core .sp words) register
  | .loadAddress base destination words =>
      let address ← computedAddress core base words
      return machine.compute (← writeRegister core destination address)
  | .adjustStack negative words => return machine.compute (← adjustStack core negative words)
  | .compareBranch nonZero register distance =>
      if ((← readRegister core register) != 0) == nonZero then branchBy machine distance
      else return machine.next
  | .extend kind source destination =>
      let value ← readRegister core source
      return machine.compute (← writeRegister core destination (kind.apply value))
  | .reverseBytes source destination =>
      let value ← readRegister core source
      return machine.compute (← writeRegister core destination (ThumbMachine.reverseBytes value))
  | .stack .store extra list => push machine extra list
  | .stack .load extra list => pop machine extra list
  | .block direction base list => blockTransfer machine direction base list
  | .branchIf condition distance =>
      if condition.holds core.flags then branchBy machine distance else return machine.next
  | .softwareInterrupt _ => return machine.fail (.internalLogic word)
  | .branch distance => branchBy machine distance
  | .longBranch low offset => longBranch machine low offset

section Transferring

variable {machine : Machine}

theorem deliver_eq (machine : Machine) (register : LowRegister) (transfer : Transfer)
    (same : transfer.register = register) (loaded : Except InvalidAccess Word) :
    deliver machine register.toNat loaded = .ok (transfer.deliver machine loaded) := by
  subst same
  cases loaded with
  | ok value =>
      rw [deliver, writeLow_eq]
      rfl
  | error access => rfl

theorem store_eq (filled : machine.memory.Filled) (datum : Datum) (address : Word)
    (register : LowRegister) :
    store machine datum address register.toNat =
      .ok ((Transfer.mk (.store datum) address register).perform machine) := by
  rw [store, readLow_eq, ok_bind, write_eq filled, ok_bind, Transfer.perform]
  dsimp only
  cases datum.write machine.memory address (machine.core.read register.wide) <;> rfl

theorem load_eq (filled : machine.memory.Filled) (datum : Datum) (address : Word)
    (register : LowRegister) :
    load machine datum address register.toNat =
      .ok ((Transfer.mk (.load datum) address register).perform machine) := by
  rw [load, read_eq filled, ok_bind,
    deliver_eq machine register ⟨.load datum, address, register⟩ rfl]
  rfl

theorem loadSigned_eq (filled : machine.memory.Filled) (datum : Datum) (address : Word)
    (register : LowRegister) :
    loadSigned machine datum address register.toNat =
      .ok ((Transfer.mk (.loadSigned datum) address register).perform machine) := by
  have some_ : 0 < 8 * datum.bytes := by cases datum <;> decide
  have inside : 8 * datum.bytes ≤ 32 := by cases datum <;> decide
  have delivered := deliver_eq machine register ⟨.loadSigned datum, address, register⟩ rfl
  rw [loadSigned, read_eq filled, ok_bind, Transfer.perform]
  dsimp only
  cases datum.read machine.memory address with
  | ok value =>
      dsimp only
      rw [extendSign_eq some_ inside, ok_bind, delivered]
      rfl
  | error access => exact delivered (.error access)

theorem transfer_eq (filled : machine.memory.Filled) (direction : Direction) (datum : Datum)
    (address : Word) (register : LowRegister) :
    transfer machine direction datum address register.toNat =
      .ok ((Transfer.mk (.ofDirection direction datum) address register).perform machine) := by
  cases direction with
  | store => exact store_eq filled datum address register
  | load => exact load_eq filled datum address register

theorem transferExtended_eq (filled : machine.memory.Filled) (kind : HalfwordTransfer)
    (address : Word) (register : LowRegister) :
    transferExtended machine kind address register.toNat =
      .ok ((Transfer.mk kind.kind address register).perform machine) := by
  cases kind with
  | storeHalfword => exact store_eq filled .halfword address register
  | loadSignedByte => exact loadSigned_eq filled .byte address register
  | loadHalfword => exact load_eq filled .halfword address register
  | loadSignedHalfword => exact loadSigned_eq filled .halfword address register

/-- The numbers of the registers that a list names, in the order they are looked at. -/
theorem listed_eq (list : Byte) (registers : List LowRegister) :
    listed list (registers.map (·.toNat)) =
      .ok ((registers.filter fun register => list.getLsbD register.toNat).map (·.toNat)) := by
  induction registers with
  | nil => rfl
  | cons register rest inductionHypothesis =>
      rw [List.map_cons, listed, bitAt_eq (show register.toNat < 8 from register.isLt), ok_bind,
        inductionHypothesis, ok_bind, List.filter_cons]
      cases list.getLsbD register.toNat <;> rfl

theorem listed_ascending (list : Byte) :
    listed list [0, 1, 2, 3, 4, 5, 6, 7] = .ok ((listedRegisters list).map (·.toNat)) :=
  listed_eq list [0, 1, 2, 3, 4, 5, 6, 7]

theorem listed_descending (list : Byte) :
    listed list [7, 6, 5, 4, 3, 2, 1, 0] =
      .ok (((listedRegisters list).map LowRegister.wide).reverse.map (·.toNat)) := by
  have backwards := listed_eq list [7, 6, 5, 4, 3, 2, 1, 0]
  have turned : ([7, 6, 5, 4, 3, 2, 1, 0] : List LowRegister) = [0, 1, 2, 3, 4, 5, 6, 7].reverse :=
    rfl
  have numbers : (BitVec.toNat ∘ LowRegister.wide) = BitVec.toNat := funext toNat_wide
  rw [turned, List.filter_reverse] at backwards
  rw [List.map_reverse, List.map_map, numbers, ← List.map_reverse]
  exact backwards

theorem loadList_eq (filled : machine.memory.Filled) (address : Word) (list : List LowRegister) :
    loadList machine address (list.map (·.toNat)) = .ok (machine.loadList address list) := by
  induction list generalizing machine address with
  | nil => rfl
  | cons register rest inductionHypothesis =>
      rw [List.map_cons, loadList, readWord_eq filled, ok_bind, Machine.loadList]
      cases machine.memory.readWord address with
      | error access => rfl
      | ok value =>
          dsimp only
          rw [writeLow_eq, ok_bind]
          have still : (machine.write register.wide value).memory.Filled := filled
          exact inductionHypothesis still (address + 4)

theorem storeList_eq (filled : machine.memory.Filled) (address : Word) (list : List LowRegister) :
    storeList machine address (list.map (·.toNat)) = .ok (machine.storeList address list) := by
  induction list generalizing machine address with
  | nil => rfl
  | cons register rest inductionHypothesis =>
      rw [List.map_cons, storeList, readLow_eq, ok_bind, writeWord_eq filled, ok_bind,
        Machine.storeList]
      cases granted : machine.memory.writeWord address (machine.core.read register.wide) with
      | error access => rfl
      | ok memory =>
          have still : ({ machine with memory } : Machine).memory.Filled :=
            filled.written (.single .word granted)
          exact inductionHypothesis still (address + 4)

theorem pushList_eq (filled : machine.memory.Filled) (address : Word) (list : List Register) :
    pushList machine address (list.map (·.toNat)) = .ok (machine.pushList address list) := by
  induction list generalizing machine address with
  | nil => rfl
  | cons register rest inductionHypothesis =>
      rw [List.map_cons, pushList, readRegister_eq, ok_bind, writeWord_eq filled, ok_bind,
        Machine.pushList]
      cases granted : machine.memory.writeWord (address - 4) (machine.core.read register) with
      | error access => rfl
      | ok memory =>
          have still : ({ machine with memory } : Machine).memory.Filled :=
            filled.written (.single .word granted)
          exact inductionHypothesis still (address - 4)

theorem writeBack_eq (transfer : ListTransfer) (register : Register)
    (general : register ≠ Register.pc) :
    writeBack transfer register.toNat = .ok (transfer.writeBack register) := by
  rw [writeBack, writeRegister_eq _ general, ok_bind, ListTransfer.writeBack]
  cases transfer.refused <;> rfl

theorem blockTransfer_eq (filled : machine.memory.Filled) (direction : Direction)
    (base : LowRegister) (list : Byte) :
    blockTransfer machine direction base.toNat list =
      .ok (machine.blockTransfer direction base list) := by
  rw [blockTransfer, readLow_eq, ok_bind, listed_ascending, ok_bind, ← toNat_wide]
  cases direction with
  | store =>
      dsimp only
      rw [storeList_eq filled, ok_bind, writeBack_eq _ _ base.wide_ne_pc]
      rfl
  | load =>
      dsimp only
      rw [loadList_eq filled, ok_bind, writeBack_eq _ _ base.wide_ne_pc]
      rfl

theorem push_eq (filled : machine.memory.Filled) (link : Bool) (list : Byte) :
    push machine link list = .ok (machine.push link list) := by
  have numbers : (if link then [14] else []) =
      (if link then [Register.lr] else []).map (·.toNat) := by cases link <;> rfl
  rw [push, readSp_eq, ok_bind, listed_descending, ok_bind, numbers, ← List.map_append,
    pushList_eq filled, ok_bind]
  exact writeBack_eq _ Register.sp (by decide)

theorem pop_eq (filled : machine.memory.Filled) (branch : Bool) (list : Byte) :
    pop machine branch list = .ok (machine.pop branch list) := by
  rw [pop, readSp_eq, ok_bind, listed_ascending, ok_bind, loadList_eq filled, ok_bind,
    Machine.pop.eq_def]
  dsimp only
  have same := machine.loadList_memory (machine.core.read Register.sp) (listedRegisters list)
  generalize machine.loadList (machine.core.read Register.sp) (listedRegisters list) =
    moved at same ⊢
  obtain ⟨reached, address, refused⟩ := moved
  have still : reached.memory.Filled := same ▸ filled
  have ended := writeBack_eq ⟨reached, address, refused⟩ Register.sp (by decide)
  cases refused with
  | some access => exact ended
  | none =>
      cases branch with
      | false => exact ended
      | true =>
          dsimp only
          rw [readWord_eq still, ok_bind]
          cases reached.memory.readWord address with
          | error access =>
              dsimp only
              rw [writeSp_eq]
              rfl
          | ok target =>
              dsimp only
              rw [bitAt_eq (by decide), ok_bind]
              split <;> rw [writeSp_eq] <;> rfl

end Transferring

section Branching

variable (machine : Machine)

theorem high_eq (op : HighOp) (source destination : Register) :
    high machine op source.toNat destination.toNat = .ok (machine.high op source destination) := by
  have delivered (value : Word) : deliverHigh machine destination.toNat value =
      .ok (if destination = Register.pc then machine.goto (halfwordAligned value)
        else machine.compute (machine.core.write destination value)) := by
    rw [deliverHigh]
    by_cases counter : destination = Register.pc
    · have number : destination.toNat = 15 := congrArg BitVec.toNat counter
      rw [if_pos number, if_pos counter]
      rfl
    · have other : ¬ destination.toNat = 15 := fun same => counter (BitVec.eq_of_toNat_eq same)
      rw [if_neg other, if_neg counter, writeRegister_eq _ counter]
      rfl
  rw [high.eq_def]
  cases op with
  | add =>
      dsimp only
      rw [readRegister_eq, ok_bind, readRegister_eq]
      exact delivered _
  | mov =>
      dsimp only
      rw [readRegister_eq]
      exact delivered _
  | cmp =>
      dsimp only
      rw [readRegister_eq, ok_bind, readRegister_eq, ok_bind, sub_eq]
      rfl

theorem branchExchange_eq (source : Register) (link : Bool) :
    branchExchange machine source.toNat link = .ok (machine.branchExchange source link) := by
  have linked : linkedCore machine.core link =
      .ok (if link then machine.core.write Register.lr (machine.core.nextPc ||| 1)
        else machine.core) := by
    rw [linkedCore]
    split
    · rw [writeLr_eq]
    · rfl
  rw [branchExchange, readRegister_eq, ok_bind, bitAt_eq (by decide), ok_bind,
    Machine.branchExchange]
  dsimp only
  split
  · rw [linked]
    rfl
  · rfl

theorem branchBy_eq (distance : Word) :
    branchBy machine distance = .ok (machine.branchBy distance) := by
  rw [branchBy, readPc_eq]
  rfl

theorem longBranch_eq (offset : BitVec 11) :
    longBranch machine true (offset.setWidth 32) = .ok (machine.longBranch offset) := by
  rw [longBranch, if_pos rfl, readLr_eq, ok_bind, shiftUp_eq (by decide), ok_bind,
    extendSign_eq (by decide) (by decide), ok_bind, writeLr_eq]
  rfl

end Branching

/-- The formats that move one datum: the address is computed, then the datum is moved. -/
theorem executeTransfer_eq (word : Halfword) (format : TransferFormat) {machine : Machine}
    (filled : machine.memory.Filled) :
    execute word format.widen machine = .ok ((format.resolve machine.core).perform machine) := by
  cases format with
  | literal destination words =>
      rw [TransferFormat.widen, execute, computedAddress_eq, ok_bind, load_eq filled]
      rfl
  | indexed direction size offset base register =>
      rw [TransferFormat.widen, execute, readLow_eq, ok_bind, readLow_eq, ok_bind,
        transfer_eq filled]
      rfl
  | extended kind offset base register =>
      rw [TransferFormat.widen, execute, readLow_eq, ok_bind, readLow_eq, ok_bind,
        transferExtended_eq filled]
      rfl
  | displaced direction size units base register =>
      have near : size.offsetShift < 32 := by cases size <;> decide
      rw [TransferFormat.widen, execute, readLow_eq, ok_bind, shiftUp_eq near, ok_bind,
        transfer_eq filled]
      rfl
  | halfword direction halfwords base register =>
      rw [TransferFormat.widen, execute, readLow_eq, ok_bind, shiftUp_eq (by decide), ok_bind,
        transfer_eq filled]
      rfl
  | stack direction register words =>
      rw [TransferFormat.widen, execute, computedAddress_eq, ok_bind, transfer_eq filled]
      rfl

/-- No instruction that the decoder yields fails a check. -/
theorem execute_eq (word : Halfword) (instruction : Instruction) (machine : Machine)
    (filled : machine.memory.Filled) :
    execute word instruction.widen machine =
      .ok (ThumbMachine.execute word instruction machine) := by
  cases instruction with
  | shift kind amount source destination =>
      rw [Instruction.widen, execute, shift_eq]
      rfl
  | addSubtract kind subtract operand source destination =>
      rw [Instruction.widen, execute, addSubtract_eq]
      rfl
  | immediate op destination value =>
      rw [Instruction.widen, execute, immediate_eq]
      rfl
  | alu op source destination =>
      rw [Instruction.widen, execute, alu_eq]
      rfl
  | high op source destination => exact high_eq machine op source destination
  | branchExchange source link => exact branchExchange_eq machine source link
  | transfer format => exact executeTransfer_eq word format filled
  | loadAddress base destination words =>
      rw [Instruction.widen, execute, computedAddress_eq, ok_bind, writeLow_eq]
      rfl
  | adjustStack negative words =>
      rw [Instruction.widen, execute, adjustStack_eq]
      rfl
  | compareBranch nonZero register halfwords =>
      rw [Instruction.widen, execute, readLow_eq, ok_bind, ThumbMachine.execute, branchBy_eq]
      split <;> rfl
  | extend kind source destination =>
      rw [Instruction.widen, execute, readLow_eq, ok_bind, writeLow_eq]
      rfl
  | reverseBytes source destination =>
      rw [Instruction.widen, execute, readLow_eq, ok_bind, writeLow_eq]
      rfl
  | stack direction extra list =>
      cases direction with
      | store => exact push_eq filled extra list
      | load => exact pop_eq filled extra list
  | block direction base list => exact blockTransfer_eq filled direction base list
  | branchIf condition halfwords =>
      rw [Instruction.widen, execute, ThumbMachine.execute, branchBy_eq]
      split <;> rfl
  | softwareInterrupt code => rfl
  | branch halfwords => exact branchBy_eq machine _
  | longBranchHigh offset =>
      rw [Instruction.widen, execute, longBranch, if_neg Bool.false_ne_true, shiftUp_eq (by decide),
        ok_bind, writeLr_eq]
      rfl
  | longBranchLow offset => exact longBranch_eq machine offset

/-- The decoder never names R15 as the destination of an extension; the check would find it. -/
example (machine : Machine) : execute 0 (.extend .sxtb 0 15) machine = .error .pcWritten := rfl

/-- Nor does it name a register past R15. -/
example (machine : Machine) :
    execute 0 (.branchExchange 17 false) machine = .error .registerMissing :=
  rfl

end ThumbMachine.Checked
