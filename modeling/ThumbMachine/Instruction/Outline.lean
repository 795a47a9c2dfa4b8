/-
Module: ThumbMachine.Instruction.Outline
Purpose: The field-by-field account of an instruction: the name of its format and every field by
  name, numbers in decimal.
Main exports: Outline, Outline.text, Instruction.outline
-/
import ThumbMachine.Instruction.Basic

namespace ThumbMachine

/-- A format name with named fields. -/
structure Outline where
  format : String
  fields : List (String × String)
deriving DecidableEq, Repr, Inhabited

namespace Outline

/-- An outline on one line. -/
def text (outline : Outline) : String :=
  outline.format ++ " \x7b "
    ++ String.intercalate ", " (outline.fields.map fun field => field.1 ++ ": " ++ field.2)
    ++ " \x7d"

/-- A number as field text. -/
def number {width : Nat} (value : BitVec width) : String := toString value.toNat

/-- A yes-or-no field. -/
def truth (value : Bool) : String := if value then "true" else "false"

end Outline

namespace TransferFormat

open Outline in
/-- The account of a transfer of one datum. -/
def outline : TransferFormat → Outline
  | literal destination words =>
      ⟨"PcRelativeLoad",
        [("destination_register", number destination), ("word8", number words)]⟩
  | indexed direction size offset base register =>
      ⟨"LoadStoreRegisterOffset",
        [("load_store", Named.name direction), ("byte_word", Named.name size),
          ("offset_register", number offset), ("base_register", number base),
          ("destination_register", number register)]⟩
  | extended kind offset base register =>
      ⟨"LoadStoreSignExtByteHalfword",
        [("kind", Named.name kind), ("offset_register", number offset),
          ("base_register", number base), ("destination_register", number register)]⟩
  | displaced direction size units base register =>
      ⟨"LoadStoreImmOffset",
        [("load_store", Named.name direction), ("byte_word", Named.name size),
          ("offset5", number units), ("base_register", number base),
          ("destination_register", number register)]⟩
  | halfword direction halfwords base register =>
      ⟨"LoadStoreHalfword",
        [("load_store", Named.name direction), ("offset5", number halfwords),
          ("base_register", number base), ("source_destination_register", number register)]⟩
  | stack direction register words =>
      ⟨"SpRelativeLoadStore",
        [("load_store", Named.name direction), ("destination_register", number register),
          ("word8", number words)]⟩

end TransferFormat

namespace Instruction

open Outline in
/-- The account of an instruction, fields in the order of their declaration. -/
def outline : Instruction → Outline
  | shift kind amount source destination =>
      ⟨"MoveShiftedRegister",
        [("shift_operation", Named.name kind), ("offset5", number amount),
          ("source_register", number source), ("destination_register", number destination)]⟩
  | addSubtract kind subtract operand source destination =>
      ⟨"AddSubtract",
        [("operation_kind", Named.name kind), ("subtract", truth subtract),
          ("rn_offset3", number operand), ("source_register", number source),
          ("destination_register", number destination)]⟩
  | immediate op destination value =>
      ⟨"MoveCompareAddSubtractImm",
        [("operation", Named.name op), ("destination_register", number destination),
          ("offset", number value)]⟩
  | alu op source destination =>
      ⟨"AluOp",
        [("alu_operation", Named.name op), ("source_register", number source),
          ("destination_register", number destination)]⟩
  | high op source destination =>
      ⟨"HiRegisterOp",
        [("register_operation", Named.name op), ("source_register", number source),
          ("destination_register", number destination)]⟩
  | branchExchange source link =>
      ⟨"BranchExchange", [("source_register", number source), ("link", truth link)]⟩
  | transfer format => format.outline
  | loadAddress base destination words =>
      ⟨"LoadAddress",
        [("base", Named.name base), ("destination_register", number destination),
          ("word8", number words)]⟩
  | adjustStack negative words =>
      ⟨"AddOffsetSp", [("negative", truth negative), ("word7", number words)]⟩
  | compareBranch nonZero register halfwords =>
      ⟨"CompareBranch",
        [("non_zero", truth nonZero), ("register", number register),
          ("offset", toString (2 * halfwords.toNat))]⟩
  | extend kind source destination =>
      ⟨"Extend",
        [("kind", Named.name kind), ("source_register", number source),
          ("destination_register", number destination)]⟩
  | reverseBytes source destination =>
      ⟨"ByteReverse",
        [("source_register", number source), ("destination_register", number destination)]⟩
  | stack direction extra list =>
      ⟨"PushPopReg",
        [("load_store", Named.name direction), ("pc_lr", truth extra),
          ("register_list", number list)]⟩
  | block direction base list =>
      ⟨"MultipleLoadStore",
        [("load_store", Named.name direction), ("base_register", number base),
          ("register_list", number list)]⟩
  | branchIf condition halfwords =>
      ⟨"CondBranch",
        [("condition", Named.name condition),
          ("immediate_offset", toString (branchDistance halfwords).toInt)]⟩
  | softwareInterrupt code => ⟨"Swi", [("comment", number code)]⟩
  | branch halfwords =>
      ⟨"UncondBranch", [("offset", toString (branchDistance halfwords).toInt)]⟩
  | longBranchHigh offset =>
      ⟨"LongBranchLink", [("h", truth false), ("offset", number offset)]⟩
  | longBranchLow offset =>
      ⟨"LongBranchLink", [("h", truth true), ("offset", number offset)]⟩

end Instruction

end ThumbMachine
