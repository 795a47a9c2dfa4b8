/-
Module: ThumbMachine.Instruction.Choice
Purpose: The choices that instruction fields make: direction and size of a transfer, kind of
  operand, operation of a data-processing format. Each comes with the reading of its bits.
Main exports: Direction, TransferSize, HalfwordTransfer, OperandKind, AddressBase, ExtendKind,
  ImmediateOp, AluOp, HighOp
-/
import ThumbMachine.Condition
import ThumbMachine.Named
import ThumbMachine.Shifter

namespace ThumbMachine

/-- Which way a transfer between registers and memory goes. -/
inductive Direction where
  | store
  | load
deriving DecidableEq, Repr, Inhabited

namespace Direction

/-- The reading of an L bit. -/
def ofBit (bit : Bool) : Direction := if bit then load else store

end Direction

/-- How much a transfer with a byte/word bit moves. -/
inductive TransferSize where
  | word
  | byte
deriving DecidableEq, Repr, Inhabited

namespace TransferSize

/-- The reading of a B bit. -/
def ofBit (bit : Bool) : TransferSize := if bit then byte else word

/-- How far the 5-bit offset of such a transfer is shifted up: offsets count transferred units. -/
def offsetShift : TransferSize → Nat
  | word => 2
  | byte => 0

end TransferSize

/-- The four transfers of the halfword and sign-extending format. -/
inductive HalfwordTransfer where
  | storeHalfword
  | loadSignedByte
  | loadHalfword
  | loadSignedHalfword
deriving DecidableEq, Repr, Inhabited

namespace HalfwordTransfer

/-- The reading of the H and S bits. -/
def ofBits (h s : Bool) : HalfwordTransfer :=
  match s, h with
  | false, false => storeHalfword
  | false, true => loadHalfword
  | true, false => loadSignedByte
  | true, true => loadSignedHalfword

end HalfwordTransfer

/-- What a 3-bit operand field holds. -/
inductive OperandKind where
  | immediate
  | register
deriving DecidableEq, Repr, Inhabited

namespace OperandKind

/-- The reading of an I bit. -/
def ofBit (bit : Bool) : OperandKind := if bit then immediate else register

end OperandKind

/-- What a computed address starts from. -/
inductive AddressBase where
  | pc
  | sp
deriving DecidableEq, Repr, Inhabited

namespace AddressBase

/-- The reading of an SP bit. -/
def ofBit (bit : Bool) : AddressBase := if bit then sp else pc

end AddressBase

/-- Sign or zero extension of the low halfword or byte of a register. -/
inductive ExtendKind where
  | sxth
  | sxtb
  | uxth
  | uxtb
deriving DecidableEq, Repr, Inhabited

namespace ExtendKind

/-- The reading of the two operation bits, the higher one first. -/
def ofBits : Bool → Bool → ExtendKind
  | false, false => sxth
  | false, true => sxtb
  | true, false => uxth
  | true, true => uxtb

/-- The assembly name. -/
def mnemonic : ExtendKind → String
  | sxth => "SXTH" | sxtb => "SXTB" | uxth => "UXTH" | uxtb => "UXTB"

/-- The extended word. -/
def apply (kind : ExtendKind) (value : Word) : Word :=
  match kind with
  | sxth => (value.setWidth 16).signExtend 32
  | sxtb => (value.setWidth 8).signExtend 32
  | uxth => (value.setWidth 16).setWidth 32
  | uxtb => (value.setWidth 8).setWidth 32

end ExtendKind

/-- Operations of the immediate format. -/
inductive ImmediateOp where
  | mov
  | cmp
  | add
  | sub
deriving DecidableEq, Repr, Inhabited

namespace ImmediateOp

/-- The reading of the two operation bits, the higher one first. -/
def ofBits : Bool → Bool → ImmediateOp
  | false, false => mov
  | false, true => cmp
  | true, false => add
  | true, true => sub

/-- The assembly name. -/
def mnemonic : ImmediateOp → String
  | mov => "MOV" | cmp => "CMP" | add => "ADD" | sub => "SUB"

end ImmediateOp

/-- Operations of the low-register data-processing format. -/
inductive AluOp where
  | and
  | eor
  | lsl
  | lsr
  | asr
  | adc
  | sbc
  | ror
  | tst
  | neg
  | cmp
  | cmn
  | orr
  | mul
  | bic
  | mvn
deriving DecidableEq, Repr, Inhabited

namespace AluOp

/-- All operations, in the order of their codes. -/
def table : Vector AluOp 16 :=
  #v[and, eor, lsl, lsr, asr, adc, sbc, ror, tst, neg, cmp, cmn, orr, mul, bic, mvn]

/-- The operation of a 4-bit code. -/
def ofField (code : BitVec 4) : AluOp := table.get code.toFin

/-- The operation of a code, when there is one. -/
def ofField? (code : Nat) : Option AluOp := table[code]?

/-- The assembly name. -/
def mnemonic : AluOp → String
  | and => "AND" | eor => "EOR" | lsl => "LSL" | lsr => "LSR" | asr => "ASR" | adc => "ADC"
  | sbc => "SBC" | ror => "ROR" | tst => "TST" | neg => "NEG" | cmp => "CMP" | cmn => "CMN"
  | orr => "ORR" | mul => "MUL" | bic => "BIC" | mvn => "MVN"

/-- TST, CMP and CMN only set flags. -/
def writesResult : AluOp → Bool
  | tst | cmp | cmn => false
  | _ => true

end AluOp

/-- Operations of the format that reaches all sixteen registers. -/
inductive HighOp where
  | add
  | cmp
  | mov
deriving DecidableEq, Repr, Inhabited

namespace HighOp

/-- The assembly name. -/
def mnemonic : HighOp → String
  | add => "ADD" | cmp => "CMP" | mov => "MOV"

end HighOp

instance : Named Direction where
  values := [.store, .load]
  name
    | .store => "Store" | .load => "Load"

instance : Named TransferSize where
  values := [.word, .byte]
  name
    | .word => "Word" | .byte => "Byte"

instance : Named HalfwordTransfer where
  values := [.storeHalfword, .loadSignedByte, .loadHalfword, .loadSignedHalfword]
  name
    | .storeHalfword => "StoreHalfword" | .loadSignedByte => "LoadSignedByte"
    | .loadHalfword => "LoadHalfword" | .loadSignedHalfword => "LoadSignedHalfword"

instance : Named OperandKind where
  values := [.immediate, .register]
  name
    | .immediate => "Immediate" | .register => "Register"

instance : Named AddressBase where
  values := [.pc, .sp]
  name
    | .pc => "Pc" | .sp => "Sp"

instance : Named ExtendKind where
  values := [.sxth, .sxtb, .uxth, .uxtb]
  name
    | .sxth => "Sxth" | .sxtb => "Sxtb" | .uxth => "Uxth" | .uxtb => "Uxtb"

instance : Named ShiftKind where
  values := [.lsl, .lsr, .asr, .ror]
  name
    | .lsl => "Lsl" | .lsr => "Lsr" | .asr => "Asr" | .ror => "Ror"

instance : Named ImmediateOp where
  values := [.mov, .cmp, .add, .sub]
  name
    | .mov => "Mov" | .cmp => "Cmp" | .add => "Add" | .sub => "Sub"

instance : Named AluOp where
  values := AluOp.table.toList
  name
    | .and => "And" | .eor => "Eor" | .lsl => "Lsl" | .lsr => "Lsr" | .asr => "Asr" | .adc => "Adc"
    | .sbc => "Sbc" | .ror => "Ror" | .tst => "Tst" | .neg => "Neg" | .cmp => "Cmp" | .cmn => "Cmn"
    | .orr => "Orr" | .mul => "Mul" | .bic => "Bic" | .mvn => "Mvn"

instance : Named HighOp where
  values := [.add, .cmp, .mov]
  name
    | .add => "Add" | .cmp => "Cmp" | .mov => "Mov"

instance : Named Condition where
  values :=
    [.eq, .ne, .cs, .cc, .mi, .pl, .vs, .vc, .hi, .ls, .ge, .lt, .gt, .le]
  name := Condition.suffix

end ThumbMachine
