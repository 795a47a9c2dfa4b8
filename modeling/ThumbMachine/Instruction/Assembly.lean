/-
Module: ThumbMachine.Instruction.Assembly
Purpose: Assembly lines, a mnemonic and its operands, and the line of each instruction.
Main exports: Operand, Operand.text, AssemblyLine, AssemblyLine.text, Instruction.assembly,
  Instruction.text
-/
import ThumbMachine.Instruction.Basic
import ThumbMachine.Text.Hex

namespace ThumbMachine

namespace Register

/-- The assembly name: the top three registers go by their roles. -/
def text (register : Register) : String :=
  if register = sp then "SP"
  else if register = lr then "LR"
  else if register = pc then "PC"
  else "R" ++ toString register.toNat

end Register

/-- One operand of an assembly line. -/
inductive Operand where
  /-- A register. -/
  | register (register : Register)
  /-- A base register that is written back. -/
  | updated (register : Register)
  /-- A number. -/
  | number (value : Nat)
  /-- A number to be taken away, zero included. -/
  | negated (value : Nat)
  /-- A distance from the instruction itself, always with a sign. -/
  | distance (bytes : Int)
  /-- A number in hexadecimal of fixed width. -/
  | code (digits value : Nat)
  /-- Memory at base plus register. -/
  | indexed (base offset : Register)
  /-- Memory at base plus number. -/
  | displaced (base : Register) (bytes : Nat)
  /-- A register list. -/
  | registers (list : List Register)
deriving DecidableEq, Repr, Inhabited

namespace Operand

/-- A distance with its sign. -/
def signedText (bytes : Int) : String :=
  (if bytes < 0 then "-" else "+") ++ toString bytes.natAbs

/-- An operand as written. -/
def text : Operand → String
  | register r => r.text
  | updated r => r.text ++ "!"
  | number value => "#" ++ toString value
  | negated value => "#-" ++ toString value
  | distance bytes => "#" ++ signedText bytes
  | code digits value => "#0x" ++ Hex.padded digits value
  | indexed base offset => "[" ++ base.text ++ ", " ++ offset.text ++ "]"
  | displaced base bytes => "[" ++ base.text ++ ", #" ++ toString bytes ++ "]"
  | registers list => "\x7b" ++ String.intercalate ", " (list.map Register.text) ++ "\x7d"

end Operand

/-- A mnemonic with its operands. -/
structure AssemblyLine where
  mnemonic : String
  operands : List Operand
deriving DecidableEq, Repr, Inhabited

namespace AssemblyLine

/-- A line as written: operands follow the mnemonic after a blank, a comma and a blank between
them. -/
def text (line : AssemblyLine) : String :=
  line.mnemonic ++ " " ++ String.intercalate ", " (line.operands.map Operand.text)

end AssemblyLine

namespace Direction

/-- One of two mnemonics, by direction. -/
def choose (direction : Direction) (store load : String) : String :=
  match direction with
  | .store => store
  | .load => load

end Direction

namespace TransferSize

/-- The mnemonic suffix of a size. -/
def suffix : TransferSize → String
  | word => ""
  | byte => "B"

end TransferSize

namespace HalfwordTransfer

/-- The assembly name. -/
def mnemonic : HalfwordTransfer → String
  | storeHalfword => "STRH" | loadSignedByte => "LDSB" | loadHalfword => "LDRH"
  | loadSignedHalfword => "LDSH"

end HalfwordTransfer

namespace AddressBase

/-- The register that a base stands for. -/
def register : AddressBase → Register
  | pc => Register.pc
  | sp => Register.sp

end AddressBase

namespace TransferFormat

/-- The assembly line of a transfer of one datum. -/
def assembly : TransferFormat → AssemblyLine
  | literal destination words =>
      ⟨"LDR", [.register destination.wide, .displaced Register.pc (4 * words.toNat)]⟩
  | indexed direction size offset base register =>
      ⟨direction.choose "STR" "LDR" ++ size.suffix,
        [.register register.wide, .indexed base.wide offset.wide]⟩
  | extended kind offset base register =>
      ⟨kind.mnemonic, [.register register.wide, .indexed base.wide offset.wide]⟩
  | displaced direction size units base register =>
      ⟨direction.choose "STR" "LDR" ++ size.suffix,
        [.register register.wide, .displaced base.wide (units.toNat <<< size.offsetShift)]⟩
  | halfword direction halfwords base register =>
      ⟨direction.choose "STRH" "LDRH",
        [.register register.wide, .displaced base.wide (2 * halfwords.toNat)]⟩
  | stack direction register words =>
      ⟨direction.choose "STR" "LDR",
        [.register register.wide, .displaced Register.sp (4 * words.toNat)]⟩

end TransferFormat

namespace Instruction

/-- The assembly line of an instruction. -/
def assembly : Instruction → AssemblyLine
  | shift kind amount source destination =>
      ⟨kind.mnemonic,
        [.register destination.wide, .register source.wide, .number amount.toNat]⟩
  | addSubtract kind subtract operand source destination =>
      ⟨if subtract then "SUB" else "ADD",
        [.register destination.wide, .register source.wide,
          match kind with
          | .immediate => .number operand.toNat
          | .register => .register (LowRegister.wide operand)]⟩
  | immediate op destination value =>
      ⟨op.mnemonic, [.register destination.wide, .number value.toNat]⟩
  | alu op source destination =>
      ⟨op.mnemonic, [.register destination.wide, .register source.wide]⟩
  | high op source destination => ⟨op.mnemonic, [.register destination, .register source]⟩
  | branchExchange source link => ⟨if link then "BLX" else "BX", [.register source]⟩
  | transfer format => format.assembly
  | loadAddress base destination words =>
      ⟨"ADD", [.register destination.wide, .register base.register, .number (4 * words.toNat)]⟩
  | adjustStack negative words =>
      ⟨"ADD",
        [.register Register.sp,
          if negative then .negated (4 * words.toNat) else .number (4 * words.toNat)]⟩
  | compareBranch nonZero register halfwords =>
      ⟨if nonZero then "CBNZ" else "CBZ",
        [.register register.wide, .distance (2 * halfwords.toNat + 4)]⟩
  | extend kind source destination =>
      ⟨kind.mnemonic, [.register destination.wide, .register source.wide]⟩
  | reverseBytes source destination =>
      ⟨"REV", [.register destination.wide, .register source.wide]⟩
  | stack direction extra list =>
      let last := match direction with
        | .store => Register.lr
        | .load => Register.pc
      ⟨direction.choose "PUSH" "POP",
        [.registers ((listedRegisters list).map LowRegister.wide ++ if extra then [last] else [])]⟩
  | block direction base list =>
      ⟨direction.choose "STMIA" "LDMIA",
        [.updated base.wide, .registers ((listedRegisters list).map LowRegister.wide)]⟩
  | branchIf condition halfwords =>
      ⟨"B" ++ condition.suffix, [.distance ((branchDistance halfwords).toInt + 4)]⟩
  | softwareInterrupt code => ⟨"SWI", [.code 2 code.toNat]⟩
  | branch halfwords => ⟨"B", [.distance ((branchDistance halfwords).toInt + 4)]⟩
  | longBranchHigh offset => ⟨"BL.hi", [.code 3 offset.toNat]⟩
  | longBranchLow offset => ⟨"BL.lo", [.code 3 offset.toNat]⟩

/-- The disassembly of an instruction. -/
def text (instruction : Instruction) : String := instruction.assembly.text

end Instruction

end ThumbMachine
