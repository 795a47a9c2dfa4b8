/-
Module: ThumbMachine.Condition
Purpose: The fourteen conditions of a conditional branch, their field codes, and when each holds.
Main exports: Condition, Condition.ofField?, Condition.holds
-/
import ThumbMachine.Flags

namespace ThumbMachine

/-- What a conditional branch can test. -/
inductive Condition where
  /-- Equal. -/
  | eq
  /-- Not equal. -/
  | ne
  /-- Carry set: unsigned higher or same. -/
  | cs
  /-- Carry clear: unsigned lower. -/
  | cc
  /-- Minus. -/
  | mi
  /-- Plus or zero. -/
  | pl
  /-- Overflow set. -/
  | vs
  /-- Overflow clear. -/
  | vc
  /-- Unsigned higher. -/
  | hi
  /-- Unsigned lower or same. -/
  | ls
  /-- Signed greater or equal. -/
  | ge
  /-- Signed less. -/
  | lt
  /-- Signed greater. -/
  | gt
  /-- Signed less or equal. -/
  | le
deriving DecidableEq, Repr, Inhabited

namespace Condition

/-- The condition of a field code. Code 14 is undefined and code 15 belongs to the software
interrupt, so neither is a condition. -/
def ofField? (code : Nat) : Option Condition :=
  [eq, ne, cs, cc, mi, pl, vs, vc, hi, ls, ge, lt, gt, le][code]?

/-- The two-letter suffix. -/
def suffix : Condition → String
  | eq => "EQ" | ne => "NE" | cs => "CS" | cc => "CC" | mi => "MI" | pl => "PL" | vs => "VS"
  | vc => "VC" | hi => "HI" | ls => "LS" | ge => "GE" | lt => "LT" | gt => "GT" | le => "LE"

/-- Whether a condition holds under given flags. -/
def holds (condition : Condition) (flags : Flags) : Bool :=
  match condition with
  | eq => flags.z
  | ne => !flags.z
  | cs => flags.c
  | cc => !flags.c
  | mi => flags.n
  | pl => !flags.n
  | vs => flags.v
  | vc => !flags.v
  | hi => flags.c && !flags.z
  | ls => !flags.c || flags.z
  | ge => flags.n == flags.v
  | lt => flags.n != flags.v
  | gt => !flags.z && flags.n == flags.v
  | le => flags.z || flags.n != flags.v

end Condition

end ThumbMachine
