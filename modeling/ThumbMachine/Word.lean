/-
Module: ThumbMachine.Word
Purpose: The three sizes of datum the machine handles, sign extension of a low field, and the
  little-endian reading of byte strings.
Main exports: Byte, Halfword, Word, signExtendLow, LittleEndian.value, LittleEndian.bytes
-/
namespace ThumbMachine

/-- Eight bits: the unit of memory. -/
abbrev Byte := BitVec 8

/-- Sixteen bits: one instruction word. -/
abbrev Halfword := BitVec 16

/-- Thirty-two bits: a register, an address, a datum. -/
abbrev Word := BitVec 32

/-- Reads the low `bits` bits of a word as a two's-complement number and widens it to the whole
word: the field is moved up against the top, and an arithmetic shift brings it back down. -/
def signExtendLow {width : Nat} (value : BitVec width) (bits : Nat) : BitVec width :=
  (value <<< (width - bits)).sshiftRight (width - bits)

namespace LittleEndian

/-- The number a byte string denotes, its first byte being the least significant. -/
def value : List Byte → Nat
  | [] => 0
  | byte :: rest => byte.toNat + 256 * value rest

/-- The `count` low bytes of a number, the least significant first. -/
def bytes : (count : Nat) → Nat → List Byte
  | 0, _ => []
  | count + 1, number => BitVec.ofNat 8 number :: bytes count (number / 256)

@[simp] theorem length_bytes (count number : Nat) : (bytes count number).length = count := by
  induction count generalizing number with
  | zero => rfl
  | succ count inductionHypothesis => simp [bytes, inductionHypothesis]

/-- Writing a number as bytes and reading it back loses only what the bytes cannot hold. -/
theorem value_bytes (count number : Nat) :
    value (bytes count number) = number % Nat.pow 256 count := by
  induction count generalizing number with
  | zero => simp [bytes, value, Nat.mod_one]
  | succ count inductionHypothesis =>
      have low : (BitVec.ofNat 8 number).toNat = number % 256 := BitVec.toNat_ofNat number 8
      have power : Nat.pow 256 (count + 1) = 256 * Nat.pow 256 count := Nat.pow_succ'
      rw [bytes, value, inductionHypothesis, low, power, Nat.mod_mul]

end LittleEndian

end ThumbMachine
