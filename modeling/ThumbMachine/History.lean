/-
Module: ThumbMachine.History
Purpose: The record of the instruction words fetched last, kept for diagnostics.
Main exports: HistoryEntry, HistoryEntry.text, History
-/
import ThumbMachine.Instruction.Assembly
import ThumbMachine.Instruction.Decode
import ThumbMachine.Recent

namespace ThumbMachine

/-- A fetched instruction word and its address. -/
structure HistoryEntry where
  address : Word
  opcode : Halfword
deriving DecidableEq, Repr, Inhabited

namespace HistoryEntry

/-- An entry as written: address, word and disassembly, with question marks for a word that does not
decode. -/
def text (entry : HistoryEntry) : String :=
  let disassembly := match decode entry.opcode with
    | .ok instruction => instruction.text
    | .error _ => "???"
  "0x" ++ Hex.padded 8 entry.address.toNat ++ ": " ++ Hex.padded 4 entry.opcode.toNat ++ " "
    ++ disassembly

end HistoryEntry

/-- The last 32 fetched words. -/
abbrev History := Recent 32 HistoryEntry

end ThumbMachine
