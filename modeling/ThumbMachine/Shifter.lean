/-
Module: ThumbMachine.Shifter
Purpose: The barrel shifter: shifts and rotations by a 5-bit field or by the low byte of a register.
Main exports: ShiftKind, shiftImmediate, shiftByRegister
-/
import ThumbMachine.Arithmetic

namespace ThumbMachine

/-- The four movements of the barrel shifter. -/
inductive ShiftKind where
  | lsl
  | lsr
  | asr
  | ror
deriving DecidableEq, Repr, Inhabited

namespace ShiftKind

/-- The assembly name. -/
def mnemonic : ShiftKind → String
  | lsl => "LSL" | lsr => "LSR" | asr => "ASR" | ror => "ROR"

end ShiftKind

/-- Moves a word by 1 to 31 places; the carry is the last bit that left (for a rotation, the last
one that moved from bit 0 to bit 31). -/
def shiftPlaces (kind : ShiftKind) (places : Nat) (value : Word) : AluResult :=
  match kind with
  | .lsl => .withCarry (value <<< places) (value.getLsbD (32 - places))
  | .lsr => .withCarry (value >>> places) (value.getLsbD (places - 1))
  | .asr => .withCarry (value.sshiftRight places) (value.getLsbD (places - 1))
  | .ror => .withCarry (value.rotateRight places) (value.getLsbD (places - 1))

/-- Every bit a copy of bit 31, which is also the carry. -/
def signFill (value : Word) : AluResult :=
  .withCarry (value.sshiftRight 31) (value.getLsbD 31)

/-- A shift by a 5-bit field. The field value 0 stands for 32 places in LSR and ASR, and for no
shift in the two others. -/
def shiftImmediate (kind : ShiftKind) (amount : BitVec 5) (value : Word) (carry : Bool) :
    AluResult :=
  if amount = 0 then
    match kind with
    | .lsl | .ror => .withCarry value carry
    | .lsr => .withCarry 0 (value.getLsbD 31)
    | .asr => signFill value
  else
    shiftPlaces kind amount.toNat value

/-- A shift by a byte. No shift keeps the carry. From 32 places on, LSL and LSR leave zero and lose
the last bit out after place 32, ASR leaves the sign everywhere, and ROR goes by the amount modulo
32, where a full turn puts bit 31 into the carry. -/
def shiftByRegister (kind : ShiftKind) (amount : Byte) (value : Word) (carry : Bool) : AluResult :=
  if amount = 0 then .withCarry value carry
  else if amount.toNat < 32 then shiftPlaces kind amount.toNat value
  else
    match kind with
    | .lsl => .withCarry 0 (amount.toNat == 32 && value.getLsbD 0)
    | .lsr => .withCarry 0 (amount.toNat == 32 && value.getLsbD 31)
    | .asr => signFill value
    | .ror =>
        if amount.toNat % 32 = 0 then .withCarry value (value.getLsbD 31)
        else shiftPlaces .ror (amount.toNat % 32) value

end ThumbMachine
