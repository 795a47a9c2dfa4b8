/-
Module: ThumbMachine.Proofs.LongCalls
Purpose: The call over a long distance, which takes two instruction words. One unit of budget
  executes both: the program counter ends at the target, the link register at the return address,
  and a branch to the link register goes back there.
Main exports: longBranchOffset_eq_ofInt, Batch.turn_callHigh, Batch.turn_callLow, Processor.called,
  Machine.perform_return, Processor.long_call_returns
-/
import ThumbMachine.Proofs.Alignment
import ThumbMachine.Proofs.Comparisons

namespace ThumbMachine

variable {σ : Type}

/-! ## The two words -/

/-- The first word of a call, with the upper half of its distance. -/
def callHigh (high : BitVec 11) : Halfword := 0xF000 ||| high.setWidth 16

/-- The second word of a call, with the lower half of its distance. -/
def callLow (low : BitVec 11) : Halfword := 0xF800 ||| low.setWidth 16

/-- Five bits above the field of a call. -/
theorem or_eq_append (head : BitVec 5) (field : BitVec 11) :
    (head.setWidth 16 <<< 11 ||| field.setWidth 16 : Halfword) = head ++ field := by
  apply BitVec.eq_of_getLsbD_eq
  intro position bound
  simp only [BitVec.getLsbD_or, BitVec.getLsbD_shiftLeft, BitVec.getLsbD_setWidth,
    BitVec.getLsbD_append, bound]
  grind

theorem callHigh_eq_append (high : BitVec 11) : callHigh high = 0b11110#5 ++ high :=
  or_eq_append 0b11110#5 high

theorem callLow_eq_append (low : BitVec 11) : callLow low = 0b11111#5 ++ low :=
  or_eq_append 0b11111#5 low

theorem decode_callHigh (high : BitVec 11) :
    decode (callHigh high) = .ok (.longBranchHigh high) := by
  have field : Decode.distanceField (0b11110#5 ++ high) = high := BitVec.extractLsb'_append_eq_right
  rw [callHigh_eq_append]
  simp only [decode, Decode.bit, BitVec.getLsbD_append, field]
  rfl

theorem decode_callLow (low : BitVec 11) : decode (callLow low) = .ok (.longBranchLow low) := by
  have field : Decode.distanceField (0b11111#5 ++ low) = low := BitVec.extractLsb'_append_eq_right
  rw [callLow_eq_append]
  simp only [decode, Decode.bit, BitVec.getLsbD_append, field]
  rfl

/-- The distance of a call is the number that its two fields make in two's complement, with a zero
below. -/
theorem longBranchOffset_eq_ofInt (high low : BitVec 11) :
    longBranchOffset (high.setWidth 32 <<< 12) low =
      BitVec.ofInt 32 (high ++ low ++ 0#1).toInt := by
  have joined : (high.setWidth 32 <<< 12 ||| low.setWidth 32 <<< 1).setWidth 23 =
      high ++ low ++ 0#1 := by
    apply BitVec.eq_of_getLsbD_eq
    intro position bound
    simp only [BitVec.getLsbD_setWidth, BitVec.getLsbD_or, BitVec.getLsbD_shiftLeft,
      BitVec.getLsbD_append]
    grind
  rw [longBranchOffset, signExtendLow_eq_signExtend _ (by decide) (by decide), joined,
    BitVec.signExtend]

/-! ## The two turns -/

namespace Batch

variable {batch : Batch σ} {image : CodeImage} {high low : BitVec 11}

/-- A batch after the first word of a call: the link register holds the upper half of the distance,
and the unit that the word cost is there again. -/
def park (batch : Batch σ) (high : BitVec 11) : Batch σ :=
  { batch with
    core := (batch.core.write Register.lr (high.setWidth 32 <<< 12)).setPc (batch.core.pc + 2)
    history := batch.history.push ⟨batch.core.pc, callHigh high⟩
    refunded := true }

/-- A batch after the second word of a call, which is charged for both. -/
def call (batch : Batch σ) (low : BitVec 11) : Batch σ :=
  { batch with
    core := (batch.core.write Register.lr ((batch.core.pc + 2) ||| 1)).setPc
      (batch.core.pc + 2 + longBranchOffset (batch.core.read Register.lr) low)
    history := batch.history.push ⟨batch.core.pc, callLow low⟩
    budget := batch.budget - 1
    refunded := false
    retired := batch.retired + 1 }

theorem turn_callHigh (handler : Handler σ) (funded : batch.budget ≠ 0)
    (fresh : batch.refunded = false) (fetched : image.fetch batch.core.pc = .ok (callHigh high)) :
    batch.turn image handler = .running (batch.park high) := by
  have budget : batch.budget - 1 + 1 = batch.budget := Nat.succ_pred_eq_of_ne_zero funded
  rw [turn, fetched]
  simp only [dispatch, decode_callHigh, step, execute, Machine.compute, Machine.next,
    Machine.setCore, charge, isLongBranchHigh, spend, note, fresh, Bool.not_false, Bool.and_self,
    if_true, budget]
  rfl

theorem turn_callLow (handler : Handler σ)
    (fetched : image.fetch batch.core.pc = .ok (callLow low)) :
    batch.turn image handler = .running (batch.call low) := by
  rw [turn, fetched]
  simp only [dispatch, decode_callLow, step, execute, Machine.longBranch, Machine.goto,
    Machine.setCore, charge, isLongBranchHigh, spend, note, Bool.false_and, Bool.false_eq_true,
    if_false]
  rfl

/-- One unit reaches the second word. -/
theorem run_call (handler : Handler σ) (one : batch.budget = 1) (fresh : batch.refunded = false)
    (first : image.fetch batch.core.pc = .ok (callHigh high))
    (second : image.fetch (batch.core.pc + 2) = .ok (callLow low)) :
    batch.run image handler = ((batch.park high).call low, .exhausted) := by
  have funded : batch.budget ≠ 0 := one ▸ Nat.one_ne_zero
  have parked : (batch.park high).budget ≠ 0 := funded
  have spent : ((batch.park high).call low).budget = 0 := by
    rw [call, park, one]
  rw [run_running funded (turn_callHigh handler funded fresh first),
    run_running parked (turn_callLow handler second), run_spent spent]

/-- The link register holds the return address, and the target counts from there. -/
theorem toFile_call (batch : Batch σ) (high low : BitVec 11) :
    ((batch.park high).call low).core.toFile =
      (batch.core.toFile.set Register.lr.slot ((batch.core.pc + 4) ||| 1)).setPc
        (batch.core.pc + 4 + BitVec.ofInt 32 (high ++ low ++ 0#1).toInt) := by
  have general : Register.lr ≠ Register.pc := by decide
  have further : batch.core.pc + 2 + 2 = batch.core.pc + 4 := by bv_omega
  simp only [call, park, Core.setPc_pc, further, Core.read_setPc _ _ general,
    Core.read_write _ general, if_true, longBranchOffset_eq_ofInt, Core.toFile_setPc,
    Core.toFile_write _ general]
  apply RegisterFile.ext
  intro slot
  simp only [RegisterFile.setPc, RegisterFile.get_set]
  grind

end Batch

/-! ## The call -/

namespace Processor

variable {processor : Processor σ} {image : CodeImage} {address : Word} {high low : BitVec 11}

/-- What a call makes of a processor: the link register holds the return address with bit 0 set, the
program counter counts from there by the distance, one unit more is charged and both words are
noted. -/
def called (processor : Processor σ) (image : CodeImage) (address : Word) (high low : BitVec 11) :
    Processor σ :=
  { host :=
      { processor.host with
        registers := (processor.host.registers.set Register.lr.slot ((address + 4) ||| 1)).setPc
          (address + 4 + BitVec.ofInt 32 (high ++ low ++ 0#1).toInt) }
    image := some image
    executed := processor.executed + 1
    history := (processor.history.push ⟨address, callHigh high⟩).push ⟨address + 2, callLow low⟩ }

theorem run_call (handler : Handler σ) (even : odd address = false)
    (here : processor.host.registers.pc = address) (found : processor.imageAt address = .ok image)
    (first : image.fetch address = .ok (callHigh high))
    (second : image.fetch (address + 2) = .ok (callLow low)) :
    processor.run handler 1 = (processor.called image address high low, .exhausted) := by
  have start : (processor.batch 1).core.pc = address := by
    rw [← halfwordAligned_eq_self even, ← here]
    rfl
  have packed : (processor.batch 1).core.toFile = processor.host.registers := by
    rw [batch, Core.toFile_ofFile, here, halfwordAligned_eq_self even, ← here,
      RegisterFile.setPc_pc]
  rw [← start] at first second found
  rw [run_found Nat.one_ne_zero found, Batch.run_call handler rfl rfl first second, absorb,
    Batch.toFile_call, packed, start]
  simp only [Batch.call, Batch.park, Core.setPc_pc, start]
  rfl

end Processor

/-! ## The return -/

namespace Machine

/-- The word of a branch to the link register. -/
def returnWord : Halfword := 0x4770

/-- A branch to the link register goes to the address there with bit 0 cleared, and changes nothing
else. -/
theorem perform_return (machine : Machine) {address : Word} (even : odd address = false)
    (linked : machine.core.read Register.lr = address ||| 1) :
    machine.perform returnWord = .ok (machine.goto address) := by
  have decoded : decode returnWord = .ok (.branchExchange Register.lr false) := rfl
  have set_ : (address ||| 1).getLsbD 0 = true := by
    simp
  rw [perform_of_decoded decoded]
  simp only [execute, branchExchange, linked, set_, if_true, Bool.false_eq_true, if_false,
    halfwordAligned_or_one, halfwordAligned_eq_self even]
  rfl

end Machine

namespace Processor

/-- A call goes to the right place and returns. With one unit of budget a processor at the two words
of a call executes both, counts one, and ends at the target; the link register holds the address
after the call. In every later state that still holds it, a branch to the link register goes on
there. -/
theorem long_call_returns (processor : Processor σ) (handler : Handler σ) {image : CodeImage}
    {address : Word} {high low : BitVec 11} (even : odd address = false)
    (here : processor.host.registers.pc = address) (found : processor.imageAt address = .ok image)
    (first : image.fetch address = .ok (callHigh high))
    (second : image.fetch (address + 2) = .ok (callLow low)) :
    processor.run handler 1 = (processor.called image address high low, .exhausted) ∧
      ∀ later : Machine, later.core.read Register.lr = (address + 4) ||| 1 →
        later.perform Machine.returnWord = .ok (later.goto (address + 4)) := by
  have evenAfter : odd (address + 4) = false := by
    rw [odd_add, even]
    rfl
  exact ⟨run_call handler even here found first second, fun later => later.perform_return evenAfter⟩

/-- A call over eight bytes backward, from the lowest address. -/
def callingBack : Processor Unit :=
  { ofWords [0xF7FF, 0xFFFC] with image := some ⟨⟨0, 4⟩, 0, #[0xF7FF, 0xFFFC]⟩ }

theorem long_call_returns_callingBack :
    (callingBack.run .refuseAll 1).1.host.registers.pc = 0xFFFFFFFC ∧
      callingBack.run .refuseAll 1 =
        (callingBack.called ⟨⟨0, 4⟩, 0, #[0xF7FF, 0xFFFC]⟩ 0 0x7FF 0x7FC, .exhausted) ∧
      ∀ later : Machine, later.core.read Register.lr = (0 + 4) ||| 1 →
        later.perform Machine.returnWord = .ok (later.goto (0 + 4)) := by
  have first : CodeImage.fetch ⟨⟨0, 4⟩, 0, #[0xF7FF, 0xFFFC]⟩ 0 = .ok (callHigh 0x7FF) := rfl
  have second : CodeImage.fetch ⟨⟨0, 4⟩, 0, #[0xF7FF, 0xFFFC]⟩ (0 + 2) = .ok (callLow 0x7FC) := rfl
  exact ⟨by decide +kernel,
    long_call_returns callingBack .refuseAll (by decide) rfl rfl first second⟩

end Processor

end ThumbMachine
