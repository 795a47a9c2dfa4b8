/-
Module: ThumbMachine.Proofs.Disassembly
Purpose: The text of an instruction determines what it does. An assembler reads every instruction
  back from its text, but for one of the two encodings of CMP on low registers, which are read as
  the other and do the same; and the distance that a branch shows is the one it goes.
Main exports: Instruction.ofLine?, Instruction.ofText?, Instruction.canonical,
  Instruction.ofText?_text, execute_canonical, Instruction.Tells, disassembly_tells
-/
import ThumbMachine.Proofs.AssemblyReading
import ThumbMachine.Proofs.Footprint
import ThumbMachine.Proofs.SignExtension
import ThumbMachine.Proofs.StackFrames

namespace ThumbMachine

/-! ## An assembler -/

/-- The low register of a register number, which has its low three bits. -/
def Register.low (register : Register) : LowRegister := register.setWidth 3

@[simp] theorem LowRegister.low_wide (register : LowRegister) : register.wide.low = register := by
  decide +revert

/-- The value that goes by a mnemonic. -/
def named? {α : Type} [Named α] (name : α → String) (mnemonic : String) : Option α :=
  Named.values.find? (name · == mnemonic)

/-- Which of two mnemonics it is: whether it is the second. -/
def either? (first second mnemonic : String) : Option Bool :=
  if mnemonic = first then some false else if mnemonic = second then some true else none

/-- The registers of a list as its bits. The registers from R8 on have none. -/
def listBits (registers : List Register) : Byte :=
  registers.foldl (fun list register => list ||| (1#8 <<< register.toNat)) 0

theorem listBits_listedRegisters (list : Byte) :
    listBits ((listedRegisters list).map LowRegister.wide) = list := by
  decide +kernel +revert

namespace Instruction

/-- The transfer of a register at a low base plus a number of bytes. -/
def basedTransfer? (mnemonic : String) (register base : LowRegister) (bytes : Nat) :
    Option TransferFormat :=
  match mnemonic with
  | "STR" => some (.displaced .store .word (.ofNat 5 (bytes / 4)) base register)
  | "LDR" => some (.displaced .load .word (.ofNat 5 (bytes / 4)) base register)
  | "STRB" => some (.displaced .store .byte (.ofNat 5 bytes) base register)
  | "LDRB" => some (.displaced .load .byte (.ofNat 5 bytes) base register)
  | "STRH" => some (.halfword .store (.ofNat 5 (bytes / 2)) base register)
  | "LDRH" => some (.halfword .load (.ofNat 5 (bytes / 2)) base register)
  | _ => none

/-- The transfer of a register at a base plus a number of bytes. -/
def displacedTransfer? (mnemonic : String) (register : LowRegister) (base : Register)
    (bytes : Nat) : Option TransferFormat :=
  if base = Register.pc then some (.literal register (.ofNat 8 (bytes / 4)))
  else if base = Register.sp then
    (named? (Direction.choose · "STR" "LDR") mnemonic).map
      (.stack · register (.ofNat 8 (bytes / 4)))
  else basedTransfer? mnemonic register base.low bytes

/-- The transfer of a register at a base plus another register. -/
def indexedTransfer? (mnemonic : String) (register base offset : LowRegister) :
    Option TransferFormat :=
  match mnemonic with
  | "STR" => some (.indexed .store .word offset base register)
  | "LDR" => some (.indexed .load .word offset base register)
  | "STRB" => some (.indexed .store .byte offset base register)
  | "LDRB" => some (.indexed .load .byte offset base register)
  | "STRH" => some (.extended .storeHalfword offset base register)
  | "LDSB" => some (.extended .loadSignedByte offset base register)
  | "LDRH" => some (.extended .loadHalfword offset base register)
  | "LDSH" => some (.extended .loadSignedHalfword offset base register)
  | _ => none

/-- The operation on a register with another one. -/
def betweenRegisters? (mnemonic : String) (destination source : Register) : Option Instruction :=
  (named? HighOp.mnemonic mnemonic).map (high · source destination)
  <|> (named? AluOp.mnemonic mnemonic).map (alu · source.low destination.low)
  <|> (named? ExtendKind.mnemonic mnemonic).map (extend · source.low destination.low)
  <|> if mnemonic = "REV" then some (reverseBytes source.low destination.low) else none

/-- The operation on a low register with another one and a number. -/
def withNumber? (mnemonic : String) (destination source : LowRegister) (value : Nat) :
    Option Instruction :=
  match mnemonic with
  | "ADD" => some (addSubtract .immediate false (.ofNat 3 value) source destination)
  | "SUB" => some (addSubtract .immediate true (.ofNat 3 value) source destination)
  | _ => (named? ShiftKind.mnemonic mnemonic).map (shift · (.ofNat 5 value) source destination)

/-- The branch over a distance from its own address. -/
def branchOver? (mnemonic : String) (bytes : Int) : Option Instruction :=
  if mnemonic = "B" then some (branch (.ofInt 11 ((bytes - 4) / 2)))
  else
    (named? ("B" ++ Condition.suffix ·) mnemonic).map fun condition =>
      branchIf condition (.ofInt 8 ((bytes - 4) / 2))

/-- The instruction of an assembly line. -/
def ofLine? (line : AssemblyLine) : Option Instruction :=
  match line.operands with
  | [.register destination, .register source, .number value] =>
      if source = Register.pc then some (loadAddress .pc destination.low (.ofNat 8 (value / 4)))
      else if source = Register.sp then
        some (loadAddress .sp destination.low (.ofNat 8 (value / 4)))
      else withNumber? line.mnemonic destination.low source.low value
  | [.register destination, .register source, .register operand] =>
      (either? "ADD" "SUB" line.mnemonic).map fun subtract =>
        addSubtract .register subtract operand.low source.low destination.low
  | [.register destination, .number value] =>
      if destination = Register.sp then some (adjustStack false (.ofNat 7 (value / 4)))
      else
        (named? ImmediateOp.mnemonic line.mnemonic).map fun op =>
          immediate op destination.low (.ofNat 8 value)
  | [.register _, .negated value] => some (adjustStack true (.ofNat 7 (value / 4)))
  | [.register destination, .register source] => betweenRegisters? line.mnemonic destination source
  | [.register source] => (either? "BX" "BLX" line.mnemonic).map (branchExchange source ·)
  | [.register register, .displaced base bytes] =>
      (displacedTransfer? line.mnemonic register.low base bytes).map transfer
  | [.register register, .indexed base offset] =>
      (indexedTransfer? line.mnemonic register.low base.low offset.low).map transfer
  | [.register register, .distance bytes] =>
      (either? "CBZ" "CBNZ" line.mnemonic).map fun nonZero =>
        compareBranch nonZero register.low (.ofInt 6 ((bytes - 4) / 2))
  | [.registers list] =>
      (named? (Direction.choose · "PUSH" "POP") line.mnemonic).map fun direction =>
        stack direction (list.any (8 ≤ ·.toNat)) (listBits list)
  | [.updated base, .registers list] =>
      (named? (Direction.choose · "STMIA" "LDMIA") line.mnemonic).map fun direction =>
        block direction base.low (listBits list)
  | [.distance bytes] => branchOver? line.mnemonic bytes
  | [.negated value] => branchOver? line.mnemonic (-value)
  | [.code _ value] =>
      match line.mnemonic with
      | "SWI" => some (softwareInterrupt (.ofNat 8 value))
      | "BL.hi" => some (longBranchHigh (.ofNat 11 value))
      | "BL.lo" => some (longBranchLow (.ofNat 11 value))
      | _ => none
  | _ => none

/-- The instruction of a text. -/
def ofText? (text : String) : Option Instruction := (AssemblyLine.ofText? text).bind ofLine?

/-- The instruction that is read where another is written: CMP of two low registers has two
encodings. -/
def canonical : Instruction → Instruction
  | alu .cmp source destination => high .cmp source.wide destination.wide
  | other => other

/-! ## What it reads -/

theorem either?_ite {first second : String} (apart : second ≠ first) (isSecond : Bool) :
    either? first second (if isSecond then second else first) = some isSecond := by
  cases isSecond with
  | false => exact if_pos rfl
  | true => exact (if_neg apart).trans (if_pos rfl)

theorem named?_choose {store load : String} (apart : store ≠ load) (direction : Direction) :
    named? (Direction.choose · store load) (direction.choose store load) = some direction := by
  cases direction with
  | store => simp [named?, Named.values, Direction.choose]
  | load => simp [named?, Named.values, Direction.choose, apart]

/-- Bits from the eighth on are none. -/
theorem listBits_append_high (registers : List Register) {last : Register} (high : 8 ≤ last.toNat) :
    listBits (registers ++ [last]) = listBits registers := by
  rw [listBits, List.foldl_append, List.foldl_cons, List.foldl_nil, BitVec.shiftLeft_eq_zero high,
    BitVec.or_zero]
  rfl

theorem any_high_listed (list : Byte) :
    ((listedRegisters list).map LowRegister.wide).any (8 ≤ ·.toNat) = false := by
  rw [List.any_map, List.any_eq_false]
  intro register _
  simpa using register.toNat_wide_lt

/-- The two halves of a stack list, the low registers and the one above, are read back. -/
theorem stacked_read (list : Byte) (extra : Bool) {last : Register} (high : 8 ≤ last.toNat) :
    let registers := (listedRegisters list).map LowRegister.wide ++ if extra then [last] else []
    registers.any (8 ≤ ·.toNat) = extra ∧ listBits registers = list := by
  cases extra with
  | false =>
      simp only [Bool.false_eq_true, if_false, List.append_nil]
      exact ⟨any_high_listed list, listBits_listedRegisters list⟩
  | true =>
      simp only [if_true, List.any_append, any_high_listed, listBits_append_high _ high,
        listBits_listedRegisters]
      simp [high]

theorem toInt_branchDistance {width : Nat} (halfwords : BitVec width) (within : width < 32) :
    (branchDistance halfwords).toInt = 2 * halfwords.toInt := by
  have below := halfwords.le_two_mul_toInt
  have above := halfwords.two_mul_toInt_lt
  have power : (2 : Int) ^ width ≤ 2 ^ 31 := by
    exact_mod_cast Nat.pow_le_pow_right (by decide) (Nat.le_of_lt_succ within)
  rw [branchDistance_eq_ofInt halfwords within]
  apply BitVec.toInt_ofInt_eq_self (by decide)
  · exact Int.le_trans (Int.neg_le_neg power) below
  · exact Int.lt_of_lt_of_le above power

/-- The halfwords of a branch are half of the distance it shows, counted from 4 ahead. -/
theorem ofInt_half_distance {width : Nat} (halfwords : BitVec width) (within : width < 32) :
    BitVec.ofInt width (((branchDistance halfwords).toInt + 4 - 4) / 2) = halfwords := by
  rw [toInt_branchDistance halfwords within, Int.add_sub_cancel,
    Int.mul_ediv_cancel_left _ (by decide), BitVec.ofInt_toInt]

/-- A field that fits the digits of a code is read back from it. -/
theorem ofNat_code {width digits : Nat} (field : BitVec width)
    (fits : 2 ^ width ≤ Nat.pow 16 digits) :
    BitVec.ofNat width (field.toNat % Nat.pow 16 digits) = field := by
  rw [Nat.mod_eq_of_lt (Nat.lt_of_lt_of_le field.isLt fits), BitVec.ofNat_toNat, BitVec.setWidth_eq]

/-- A branch is read with its distance, whichever sign that has. -/
theorem ofLine?_distance (mnemonic : String) (bytes : Int) :
    ofLine? (AssemblyLine.normal ⟨mnemonic, [.distance bytes]⟩) = branchOver? mnemonic bytes := by
  rw [AssemblyLine.normal, List.map_singleton, Operand.normal]
  split_ifs with negative
  · have same : -(bytes.natAbs : Int) = bytes := by omega
    change branchOver? mnemonic (-(bytes.natAbs : Int)) = _
    rw [same]
  · rfl

theorem displacedTransfer?_low (mnemonic : String) (register base : LowRegister) (bytes : Nat) :
    displacedTransfer? mnemonic register base.wide bytes =
      basedTransfer? mnemonic register base bytes := by
  rw [displacedTransfer?, if_neg base.wide_ne_pc, if_neg base.wide_ne_sp, base.low_wide]

theorem ofLine?_transfer (format : TransferFormat) :
    ofLine? format.assembly.normal = some (transfer format) := by
  cases format with
  | literal destination words =>
      change (displacedTransfer? "LDR" destination.wide.low Register.pc
        (4 * words.toNat)).map transfer = _
      rw [displacedTransfer?, if_pos rfl, destination.low_wide]
      simp
  | indexed direction size offset base register =>
      change (indexedTransfer? (direction.choose "STR" "LDR" ++ size.suffix) register.wide.low
        base.wide.low offset.wide.low).map transfer = _
      rw [register.low_wide, base.low_wide, offset.low_wide]
      cases direction <;> cases size <;> rfl
  | extended kind offset base register =>
      change (indexedTransfer? kind.mnemonic register.wide.low base.wide.low
        offset.wide.low).map transfer = _
      rw [register.low_wide, base.low_wide, offset.low_wide]
      cases kind <;> rfl
  | displaced direction size units base register =>
      change (displacedTransfer? (direction.choose "STR" "LDR" ++ size.suffix) register.wide.low
        base.wide (units.toNat <<< size.offsetShift)).map transfer = _
      rw [register.low_wide, displacedTransfer?_low]
      cases direction <;> cases size <;>
        simp [basedTransfer?, Direction.choose, TransferSize.suffix, TransferSize.offsetShift,
          Nat.shiftLeft_eq]
  | halfword direction halfwords base register =>
      change (displacedTransfer? (direction.choose "STRH" "LDRH") register.wide.low base.wide
        (2 * halfwords.toNat)).map transfer = _
      rw [register.low_wide, displacedTransfer?_low]
      cases direction <;> simp [basedTransfer?, Direction.choose]
  | stack direction register words =>
      change (displacedTransfer? (direction.choose "STR" "LDR") register.wide.low Register.sp
        (4 * words.toNat)).map transfer = _
      rw [displacedTransfer?, if_neg (by decide), if_pos rfl, register.low_wide,
        named?_choose (by decide)]
      simp

theorem ofLine?_number (mnemonic : String) (destination source : LowRegister) (value : Nat) :
    ofLine? ⟨mnemonic, [.register destination.wide, .register source.wide, .number value]⟩ =
      withNumber? mnemonic destination source value := by
  change (if source.wide = Register.pc then _ else if source.wide = Register.sp then _ else
    withNumber? mnemonic destination.wide.low source.wide.low value) = _
  rw [if_neg source.wide_ne_pc, if_neg source.wide_ne_sp, source.low_wide, destination.low_wide]

/-- Every instruction is read back from its line. -/
theorem ofLine?_assembly (instruction : Instruction) :
    ofLine? instruction.assembly.normal = some instruction.canonical := by
  cases instruction with
  | shift kind amount source destination =>
      refine (ofLine?_number kind.mnemonic destination source amount.toNat).trans ?_
      cases kind <;> simp [withNumber?, ShiftKind.mnemonic, named?, Named.values, canonical]
  | addSubtract kind subtract operand source destination =>
      cases kind with
      | immediate =>
          refine (ofLine?_number (if subtract then "SUB" else "ADD") destination source
            operand.toNat).trans ?_
          cases subtract <;> simp [withNumber?, canonical]
      | register =>
          change (either? "ADD" "SUB" (if subtract then "SUB" else "ADD")).map _ = _
          rw [either?_ite (by decide), Option.map_some, source.low_wide, destination.low_wide,
            LowRegister.low_wide operand]
          rfl
  | immediate op destination value =>
      change (if destination.wide = Register.sp then _ else
        (named? ImmediateOp.mnemonic op.mnemonic).map fun op => immediate op destination.wide.low
          (.ofNat 8 value.toNat)) = _
      rw [if_neg destination.wide_ne_sp, destination.low_wide, BitVec.ofNat_toNat,
        BitVec.setWidth_eq]
      cases op <;> rfl
  | alu op source destination =>
      change betweenRegisters? op.mnemonic destination.wide source.wide = _
      rw [betweenRegisters?, source.low_wide, destination.low_wide]
      cases op <;> rfl
  | high op source destination => cases op <;> rfl
  | branchExchange source link => cases link <;> rfl
  | transfer format => exact ofLine?_transfer format
  | loadAddress base destination words =>
      have quotient : BitVec.ofNat 8 (4 * words.toNat / 4) = words := by simp
      have line : ofLine? (loadAddress base destination words).assembly.normal =
          some (loadAddress base destination.wide.low (.ofNat 8 (4 * words.toNat / 4))) := by
        cases base <;> rfl
      rw [line, quotient, destination.low_wide]
      rfl
  | adjustStack negative words =>
      have quotient : BitVec.ofNat 7 (4 * words.toNat / 4) = words := by simp
      have line : ofLine? (adjustStack negative words).assembly.normal =
          some (adjustStack negative (.ofNat 7 (4 * words.toNat / 4))) := by
        cases negative <;> rfl
      rw [line, quotient]
      rfl
  | compareBranch nonZero register halfwords =>
      have forward : (Operand.distance (2 * halfwords.toNat + 4)).normal =
          .distance (2 * halfwords.toNat + 4) := by
        rw [Operand.normal, if_neg (by omega)]
      have half : BitVec.ofInt 6 ((2 * halfwords.toNat + 4 - 4 : Int) / 2) = halfwords := by
        rw [Int.add_sub_cancel, Int.mul_ediv_cancel_left _ (by decide)]
        simp
      change ofLine? ⟨if nonZero then "CBNZ" else "CBZ",
        [.register register.wide, (Operand.distance (2 * halfwords.toNat + 4)).normal]⟩ = _
      rw [forward]
      change (either? "CBZ" "CBNZ" (if nonZero then "CBNZ" else "CBZ")).map _ = _
      rw [either?_ite (by decide), Option.map_some, half, register.low_wide]
      rfl
  | extend kind source destination =>
      change betweenRegisters? kind.mnemonic destination.wide source.wide = _
      rw [betweenRegisters?, source.low_wide, destination.low_wide]
      cases kind <;> rfl
  | reverseBytes source destination =>
      change betweenRegisters? "REV" destination.wide source.wide = _
      rw [betweenRegisters?, source.low_wide, destination.low_wide]
      rfl
  | stack direction extra list =>
      change (named? (Direction.choose · "PUSH" "POP") (direction.choose "PUSH" "POP")).map _ = _
      rw [named?_choose (by decide), Option.map_some]
      cases direction with
      | store =>
          obtain ⟨last, bits⟩ := stacked_read list extra (by decide : 8 ≤ Register.lr.toNat)
          rw [last, bits]
          rfl
      | load =>
          obtain ⟨last, bits⟩ := stacked_read list extra (by decide : 8 ≤ Register.pc.toNat)
          rw [last, bits]
          rfl
  | block direction base list =>
      change (named? (Direction.choose · "STMIA" "LDMIA")
        (direction.choose "STMIA" "LDMIA")).map _ = _
      rw [named?_choose (by decide), Option.map_some, listBits_listedRegisters, base.low_wide]
      rfl
  | branchIf condition halfwords =>
      change ofLine? (AssemblyLine.normal ⟨"B" ++ condition.suffix, _⟩) = _
      rw [ofLine?_distance, branchOver?, ofInt_half_distance halfwords (by decide)]
      cases condition <;> rfl
  | softwareInterrupt code =>
      change some (softwareInterrupt (.ofNat 8 (code.toNat % Nat.pow 16 2))) = _
      rw [ofNat_code code (by decide)]
      rfl
  | branch halfwords =>
      change ofLine? (AssemblyLine.normal ⟨"B", _⟩) = _
      rw [ofLine?_distance, branchOver?, ofInt_half_distance halfwords (by decide)]
      rfl
  | longBranchHigh offset =>
      change some (longBranchHigh (.ofNat 11 (offset.toNat % Nat.pow 16 3))) = _
      rw [ofNat_code offset (by decide)]
      rfl
  | longBranchLow offset =>
      change some (longBranchLow (.ofNat 11 (offset.toNat % Nat.pow 16 3))) = _
      rw [ofNat_code offset (by decide)]
      rfl

/-- No mnemonic has a blank in it. -/
theorem word_mnemonic (instruction : Instruction) :
    instruction.assembly.mnemonic.toList.all (· != ' ') = true := by
  cases instruction with
  | transfer format =>
      cases format
      all_goals dsimp only [assembly, TransferFormat.assembly]
      case literal => decide
      case indexed direction size _ _ _ => cases direction <;> cases size <;> decide
      case displaced direction size _ _ _ => cases direction <;> cases size <;> decide
      case extended kind _ _ _ => cases kind <;> decide
      case halfword direction _ _ _ => cases direction <;> decide
      case stack direction _ _ => cases direction <;> decide
  | shift choice | addSubtract _ choice | immediate choice | alu choice | high choice
  | branchExchange _ choice
  | compareBranch choice | extend choice | stack choice | block choice | branchIf choice =>
      dsimp only [assembly]
      cases choice <;> decide
  | loadAddress | adjustStack | reverseBytes | softwareInterrupt | branch | longBranchHigh
  | longBranchLow =>
      dsimp only [assembly]
      decide

theorem operands_ne_nil (instruction : Instruction) : instruction.assembly.operands ≠ [] := by
  cases instruction with
  | transfer format => cases format <;> exact List.cons_ne_nil _ _
  | _ => exact List.cons_ne_nil _ _

/-- Every instruction is read back from its text. -/
theorem ofText?_text (instruction : Instruction) :
    ofText? instruction.text = some instruction.canonical := by
  rw [ofText?, text, AssemblyLine.ofText?_text instruction.word_mnemonic
    instruction.operands_ne_nil, Option.bind_some, ofLine?_assembly]

theorem canonical_eq_softwareInterrupt_iff {instruction : Instruction} {code : Byte} :
    instruction.canonical = softwareInterrupt code ↔ instruction = softwareInterrupt code := by
  cases instruction with
  | alu op => cases op <;> simp [canonical]
  | _ => rfl

/-! ## What a text shows of a branch -/

/-- The branches that count from their own address. -/
def isRelative : Instruction → Bool
  | compareBranch .. | branchIf .. | branch _ => true
  | _ => false

end Instruction

/-- The number that an operand shows with its sign. -/
def Operand.signed? : Operand → Option Int
  | distance bytes => some bytes
  | negated value => some (-value)
  | _ => none

/-- The signed number that a text shows last. -/
def shownDistance? (text : String) : Option Int :=
  (AssemblyLine.ofText? text).bind fun line => line.operands.getLast?.bind Operand.signed?

theorem Operand.signed?_normal (bytes : Int) : (distance bytes).normal.signed? = some bytes := by
  rw [normal]
  split_ifs with negative
  · have same : -(bytes.natAbs : Int) = bytes := by omega
    rw [signed?, same]
  · rfl

theorem shownDistance?_text {instruction : Instruction} {bytes : Int}
    (last : instruction.assembly.operands.getLast? = some (.distance bytes)) :
    shownDistance? instruction.text = some bytes := by
  rw [shownDistance?, Instruction.text,
    AssemblyLine.ofText?_text instruction.word_mnemonic instruction.operands_ne_nil,
    Option.bind_some, AssemblyLine.normal, List.getLast?_map, last]
  exact Operand.signed?_normal bytes

/-! ## What it does -/

theorem execute_canonical (word : Halfword) (instruction : Instruction) (machine : Machine) :
    execute word instruction.canonical machine = execute word instruction machine := by
  cases instruction with
  | alu op => cases op <;> rfl
  | _ => rfl

/-- Only the fault of a SWI names the word. -/
theorem execute_congr_word {instruction : Instruction}
    (ordinary : ∀ code, instruction ≠ .softwareInterrupt code) (word other : Halfword)
    (machine : Machine) :
    execute word instruction machine = execute other instruction machine := by
  cases instruction with
  | softwareInterrupt code => cases ordinary code rfl
  | stack direction => cases direction <;> rfl
  | _ => rfl

namespace Instruction

/-- What the text of an instruction word tells. It can be read back; another word of the same text
carries the same SWI code or else does the same to every machine; and the distance that a branch
shows is the one it goes when it is taken. -/
structure Tells (word : Halfword) (instruction : Instruction) : Prop where
  readable : ofText? instruction.text = some instruction.canonical
  code : ∀ code, instruction = softwareInterrupt code →
    ∀ other another, decode other = .ok another →
      another.text = instruction.text → another = softwareInterrupt code
  behaviour : (∀ code, instruction ≠ softwareInterrupt code) →
    ∀ other another, decode other = .ok another →
      another.text = instruction.text →
        ∀ machine : Machine, machine.perform other = machine.perform word
  distance : instruction.isRelative = true →
    ∀ machine : Machine, instruction.branches machine.core = true →
      ∃ bytes left, shownDistance? instruction.text = some bytes ∧
        machine.perform word = .ok ⟨left, none⟩ ∧
        left.core.pc - machine.core.pc = BitVec.ofInt 32 bytes

/-- A text has one meaning. -/
theorem canonical_eq_of_text {instruction another : Instruction}
    (same : another.text = instruction.text) :
    another.canonical = instruction.canonical := by
  have left := another.ofText?_text
  rw [same, instruction.ofText?_text] at left
  exact (Option.some.inj left).symm

/-- A branch that is taken goes by the distance it shows. -/
theorem relative_distance {instruction : Instruction} (relative : instruction.isRelative = true)
    (word : Halfword) {machine : Machine} (taken : instruction.branches machine.core = true) :
    ∃ bytes, shownDistance? instruction.text = some bytes ∧
      execute word instruction machine =
        machine.goto (machine.core.pc + BitVec.ofInt 32 bytes) := by
  -- what is printed counts from the instruction, what is executed from 4 bytes further
  have goes {distance : Word} {bytes : Int} (ahead : BitVec.ofInt 32 bytes = 4 + distance) :
      machine.branchBy distance = machine.goto (machine.core.pc + BitVec.ofInt 32 bytes) := by
    rw [Machine.branchBy, Core.read, if_pos rfl, ahead, BitVec.add_assoc]
  have signed (distance : Word) : BitVec.ofInt 32 (distance.toInt + 4) = 4 + distance := by
    rw [BitVec.ofInt_add, BitVec.ofInt_toInt, BitVec.add_comm]
    rfl
  cases instruction with
  | compareBranch nonZero register halfwords =>
      refine ⟨_, shownDistance?_text rfl, (if_pos taken).trans (goes ?_)⟩
      rw [shiftLeft_eq_ofNat halfwords (by decide), Nat.shiftLeft_eq, Nat.mul_comm,
        BitVec.ofInt_add, BitVec.add_comm]
      exact congrArg (4#32 + ·) (BitVec.ofInt_natCast 32 (2 * halfwords.toNat))
  | branchIf condition halfwords =>
      exact ⟨_, shownDistance?_text rfl, (if_pos taken).trans (goes (signed _))⟩
  | branch halfwords => exact ⟨_, shownDistance?_text rfl, goes (signed _)⟩
  | _ => cases relative

/-- Whatever a word decodes to, its text tells what it does. -/
theorem disassembly_tells {word : Halfword} {instruction : Instruction}
    (decoded : decode word = .ok instruction) : Tells word instruction where
  readable := instruction.ofText?_text
  code code interrupt other another _ same := by
    have meaning := canonical_eq_of_text same
    rw [canonical_eq_softwareInterrupt_iff.2 interrupt] at meaning
    exact canonical_eq_softwareInterrupt_iff.1 meaning
  behaviour ordinary other another found same machine := by
    have meaning := canonical_eq_of_text same
    have alike : execute other another machine = execute word instruction machine := by
      rw [← execute_canonical other, meaning, execute_canonical, execute_congr_word ordinary]
    rw [Machine.perform, found, Machine.perform, decoded]
    exact congrArg Except.ok alike
  distance relative machine taken := by
    obtain ⟨bytes, shown, goes⟩ := relative_distance relative word taken
    refine ⟨bytes, (machine.goto (machine.core.pc + BitVec.ofInt 32 bytes)).machine, shown, ?_, ?_⟩
    · rw [Machine.perform, decoded]
      exact congrArg Except.ok goes
    · rw [Machine.goto_pc, BitVec.add_comm, BitVec.add_sub_cancel]

/-- CMP R0, R1 in its two encodings: one text, and the same effect on every machine. -/
theorem disassembly_tells_comparison :
    decode 0x4288 = .ok (.alu .cmp 1 0) ∧ decode 0x4508 = .ok (.high .cmp 1 0) ∧
      (alu .cmp 1 0).text = "CMP R0, R1" ∧ (high .cmp 1 0).text = "CMP R0, R1" ∧
      Tells 0x4288 (.alu .cmp 1 0) ∧
        ∀ machine : Machine, machine.perform 0x4508 = machine.perform 0x4288 := by
  have low : decode 0x4288 = .ok (.alu .cmp 1 0) := rfl
  have wide : decode 0x4508 = .ok (.high .cmp 1 0) := rfl
  have lowText : (alu .cmp 1 0).text = "CMP R0, R1" := by decide +kernel
  have wideText : (high .cmp 1 0).text = "CMP R0, R1" := by decide +kernel
  have tells := disassembly_tells low
  exact ⟨low, wide, lowText, wideText, tells,
    tells.behaviour (fun _ => Instruction.noConfusion) 0x4508 _ wide (wideText.trans lowText.symm)⟩

end Instruction

end ThumbMachine
