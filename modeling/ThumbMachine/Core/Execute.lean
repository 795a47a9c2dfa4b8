/-
Module: ThumbMachine.Core.Execute
Purpose: What each instruction does to a machine.
Main exports: TransferFormat.resolve, execute
-/
import ThumbMachine.Core.Data
import ThumbMachine.Core.Transfer

namespace ThumbMachine

namespace TransferFormat

/-- What a transfer format does in a given core: the movement, the address and the register.
Addresses wrap at the top of the address space. -/
def resolve (format : TransferFormat) (core : Core) : Transfer :=
  match format with
  | literal destination words => ⟨.load .word, core.computedAddress .pc words, destination⟩
  | indexed direction size offset base register =>
      ⟨.ofDirection direction size.datum, core.read base.wide + core.read offset.wide, register⟩
  | extended kind offset base register =>
      ⟨kind.kind, core.read base.wide + core.read offset.wide, register⟩
  | displaced direction size units base register =>
      ⟨.ofDirection direction size.datum,
        core.read base.wide + (units.setWidth 32 <<< size.offsetShift), register⟩
  | halfword direction halfwords base register =>
      ⟨.ofDirection direction .halfword, core.read base.wide + (halfwords.setWidth 32 <<< 1),
        register⟩
  | stack direction register words =>
      ⟨.ofDirection direction .word, core.computedAddress .sp words, register⟩

end TransferFormat

namespace Machine

/-- An instruction that changes the core alone and goes on after itself. -/
def compute (machine : Machine) (core : Core) : Step := (machine.setCore core).next

/-- ADD, CMP or MOV between any two registers. A result for R15 is a branch target, and changes
nothing else. -/
def high (machine : Machine) (op : HighOp) (source destination : Register) : Step :=
  let core := machine.core
  let deliver (value : Word) : Step :=
    if destination = Register.pc then machine.goto (halfwordAligned value)
    else machine.compute (core.write destination value)
  match op with
  | .add => deliver (core.read destination + core.read source)
  | .mov => deliver (core.read source)
  | .cmp => machine.compute (core.compareHigh source destination)

/-- BX or BLX. The target must have bit 0 set; it is read before the link register is written. -/
def branchExchange (machine : Machine) (source : Register) (link : Bool) : Step :=
  let core := machine.core
  let target := core.read source
  if target.getLsbD 0 then
    let linked := if link then core.write Register.lr (core.nextPc ||| 1) else core
    (machine.setCore linked).goto (halfwordAligned target)
  else
    machine.fail (.invalidTarget target)

/-- A branch over a distance from the instruction address plus 4. -/
def branchBy (machine : Machine) (distance : Word) : Step :=
  machine.goto (machine.core.read Register.pc + distance)

/-- The second half of BL: the target counts from the next instruction, and the link register gets
the address of that instruction with bit 0 set. -/
def longBranch (machine : Machine) (offset : BitVec 11) : Step :=
  let core := machine.core
  let target := core.nextPc + longBranchOffset (core.read Register.lr) offset
  (machine.setCore (core.write Register.lr (core.nextPc ||| 1))).goto target

end Machine

/-- Executes any instruction but SWI, which belongs to the host. `word` is the encoding, named in
the fault if a SWI comes here after all. -/
def execute (word : Halfword) (instruction : Instruction) (machine : Machine) : Step :=
  let core := machine.core
  match instruction with
  | .shift kind amount source destination =>
      machine.compute (core.shift kind amount source destination)
  | .addSubtract kind subtract operand source destination =>
      machine.compute (core.addSubtract kind subtract operand source destination)
  | .immediate op destination value => machine.compute (core.immediate op destination value)
  | .alu op source destination => machine.compute (core.alu op source destination)
  | .high op source destination => machine.high op source destination
  | .branchExchange source link => machine.branchExchange source link
  | .transfer format => (format.resolve core).perform machine
  | .loadAddress base destination words =>
      machine.compute (core.write destination.wide (core.computedAddress base words))
  | .adjustStack negative words => machine.compute (core.adjustStack negative words)
  | .compareBranch nonZero register halfwords =>
      if (core.read register.wide != 0) == nonZero then
        machine.branchBy (halfwords.setWidth 32 <<< 1)
      else machine.next
  | .extend kind source destination =>
      machine.compute (core.write destination.wide (kind.apply (core.read source.wide)))
  | .reverseBytes source destination =>
      machine.compute (core.write destination.wide (reverseBytes (core.read source.wide)))
  | .stack .store extra list => machine.push extra list
  | .stack .load extra list => machine.pop extra list
  | .block direction base list => machine.blockTransfer direction base list
  | .branchIf condition halfwords =>
      if condition.holds core.flags then machine.branchBy (branchDistance halfwords)
      else machine.next
  | .branch halfwords => machine.branchBy (branchDistance halfwords)
  | .longBranchHigh offset =>
      machine.compute (core.write Register.lr (offset.setWidth 32 <<< 12))
  | .longBranchLow offset => machine.longBranch offset
  | .softwareInterrupt _ => machine.fail (.internalLogic word)

end ThumbMachine
