/-
Module: ThumbMachine.Arithmetic
Purpose: Addition, subtraction and multiplication with the flags they produce. Each function
  reports every flag; the instruction that uses it decides which of them to keep.
Main exports: AluResult, AluResult.withCarry, addWithCarry, subWithCarry, add, sub, multiply
-/
import ThumbMachine.Flags

namespace ThumbMachine

/-- A computed word together with every flag that it may set. -/
structure AluResult where
  value : Word
  carry : Bool
  overflow : Bool
  sign : Bool
  zero : Bool
deriving DecidableEq, Repr, Inhabited

/-- A word with a carry and no overflow. Its sign is bit 31. -/
def AluResult.withCarry (value : Word) (carry : Bool) : AluResult :=
  { value, carry, overflow := false, sign := value.getLsbD 31, zero := value == 0 }

/-- The sum of two words and a carry on 33 bits. -/
def wideSum (left right : Word) (carry : Bool) : BitVec 33 :=
  left.setWidth 33 + right.setWidth 33 + (BitVec.ofBool carry).setWidth 33

/-- `left + right + carry`. The carry out is bit 32 of the wide sum; the signed sum overflows when
the operands share a sign that the result does not have. -/
def addWithCarry (left right : Word) (carry : Bool) : AluResult :=
  let wide := wideSum left right carry
  let value := wide.setWidth 32
  { AluResult.withCarry value false with
    carry := wide.getLsbD 32
    overflow := ((left ^^^ value) &&& (right ^^^ value)).getLsbD 31 }

/-- `left - right - 1 + carry`, computed as `left + ~right + carry`, so the carry out says that no
borrow was needed. The signed difference overflows when the operands differ in sign and the result
lost the sign of `left`. -/
def subWithCarry (left right : Word) (carry : Bool) : AluResult :=
  let wide := wideSum left (~~~right) carry
  let value := wide.setWidth 32
  { AluResult.withCarry value false with
    carry := wide.getLsbD 32
    overflow := ((left ^^^ right) &&& (left ^^^ value)).getLsbD 31 }

/-- Plain addition: no carry comes in. -/
def add (left right : Word) : AluResult := addWithCarry left right false

/-- Plain subtraction: no borrow comes in. -/
def sub (left right : Word) : AluResult := subWithCarry left right true

/-- The low word of the product. The architecture leaves the carry after a multiplication open:
here the incoming carry stays, and is set as well when the signed product needs more than 32
bits. There is no overflow. -/
def multiply (left right : Word) (carry : Bool) : AluResult :=
  let value := left * right
  .withCarry value (carry || value.toInt != left.toInt * right.toInt)

namespace Flags

/-- N, Z, C and V from an arithmetic result. -/
def setArithmetic (flags : Flags) (outcome : AluResult) : Flags :=
  { flags with n := outcome.sign, z := outcome.zero, c := outcome.carry, v := outcome.overflow }

/-- N, Z and C from a shift; V stays. -/
def setShift (flags : Flags) (outcome : AluResult) : Flags :=
  { flags with n := outcome.sign, z := outcome.zero, c := outcome.carry }

end Flags

end ThumbMachine
