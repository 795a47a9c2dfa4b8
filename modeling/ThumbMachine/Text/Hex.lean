/-
Module: ThumbMachine.Text.Hex
Purpose: Hexadecimal text: numbers in upper case, padded or not, and byte strings in lower case.
Main exports: Hex.padded, Hex.plain, Hex.ofBytes, Hex.bytes?
-/
import ThumbMachine.Word

namespace ThumbMachine.Hex

/-- The digits of a number in upper case, in exactly `width` places: high digits that do not fit are
dropped, missing ones are zeros. -/
def paddedDigits : (width : Nat) → Nat → List Char
  | 0, _ => []
  | width + 1, number => paddedDigits width (number / 16) ++ [(Nat.digitChar (number % 16)).toUpper]

/-- A number in upper-case hexadecimal, in exactly `width` places. -/
def padded (width number : Nat) : String := String.ofList (paddedDigits width number)

/-- A number in upper-case hexadecimal, in as many places as it needs. -/
def plain (number : Nat) : String :=
  String.ofList ((Nat.toDigits 16 number).map Char.toUpper)

/-- A byte string in lower case, two digits a byte. -/
def ofBytes (bytes : List Byte) : String :=
  String.ofList (bytes.flatMap fun byte =>
    [Nat.digitChar (byte.toNat / 16), Nat.digitChar (byte.toNat % 16)])

/-- The value of a hexadecimal digit. -/
def digit? (character : Char) : Option Nat :=
  if '0' ≤ character ∧ character ≤ '9' then some (character.toNat - '0'.toNat)
  else if 'a' ≤ character ∧ character ≤ 'f' then some (character.toNat - 'a'.toNat + 10)
  else if 'A' ≤ character ∧ character ≤ 'F' then some (character.toNat - 'A'.toNat + 10)
  else none

/-- Reads pairs of digits as bytes. -/
def bytesOfDigits? : List Char → Option (List Byte)
  | [] => some []
  | [_] => none
  | high :: low :: rest => do
      let byte := BitVec.ofNat 8 (16 * (← digit? high) + (← digit? low))
      return byte :: (← bytesOfDigits? rest)

/-- Reads a byte string: an even number of hexadecimal digits. -/
def bytes? (text : String) : Option (List Byte) := bytesOfDigits? text.toList

end ThumbMachine.Hex
