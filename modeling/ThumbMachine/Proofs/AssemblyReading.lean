/-
Module: ThumbMachine.Proofs.AssemblyReading
Purpose: Assembly lines read back from their text: a mnemonic up to the first blank, then operands
  with a comma and a blank between them. No two lines have one text, but for operands that are
  written alike: a negative distance is a number to be taken away, and a code shows only as many
  digits as it has places.
Main exports: Reader, Reader.Reads, Operand.normal, Reader.operand_reads, AssemblyLine.ofText?,
  AssemblyLine.ofText?_text
-/
import Mathlib.Tactic.SplitIfs
import ThumbMachine.Instruction.Assembly

namespace ThumbMachine

/-- Reads a value off the front of a text and hands back what follows it. -/
abbrev Reader (α : Type) := List Char → Option (α × List Char)

namespace Reader

variable {α : Type}

/-- What may follow an operand or a part of one: nothing, a separator or a closing bracket. -/
inductive Ends : List Char → Prop where
  | nothing : Ends []
  | comma (rest : List Char) : Ends (',' :: rest)
  | bracket (rest : List Char) : Ends (']' :: rest)
  | brace (rest : List Char) : Ends ('\x7d' :: rest)

/-- Reading a text yields a value, whatever may follow the text. -/
def Reads (reader : Reader α) (text : List Char) (value : α) : Prop :=
  ∀ rest, Ends rest → reader (text ++ rest) = some (value, rest)

/-! ## Numbers -/

/-- Reads a decimal number. -/
def number : Reader Nat := fun text =>
  match text.takeWhile Char.isDigit with
  | [] => none
  | first :: digits => some (Nat.ofDigitChars 10 (first :: digits) 0, text.dropWhile Char.isDigit)

/-- A row of characters ends before anything that may follow it. -/
theorem takeWhile_ends (test : Char → Bool) (comma : test ',' = false) (bracket : test ']' = false)
    (brace : test '\x7d' = false) {rest : List Char} (ends : Ends rest) :
    rest.takeWhile test = [] := by
  cases ends with
  | nothing => rfl
  | comma | bracket | brace => simp [comma, bracket, brace]

theorem dropWhile_of_takeWhile {test : Char → Bool} {rest : List Char}
    (none_ : rest.takeWhile test = []) :
    rest.dropWhile test = rest := by
  have whole := List.takeWhile_append_dropWhile (p := test) (l := rest)
  rwa [none_, List.nil_append] at whole

/-- A number is read up to the first character that is no digit. -/
theorem number_text (value : Nat) {rest : List Char} (stops : rest.takeWhile Char.isDigit = []) :
    number ((toString value).toList ++ rest) = some (value, rest) := by
  have digits : ∀ digit ∈ Nat.toDigits 10 value, digit.isDigit = true := fun _ member =>
    Nat.isDigit_of_mem_toDigits (by decide) (by decide) member
  have taken : (Nat.toDigits 10 value ++ rest).takeWhile Char.isDigit = Nat.toDigits 10 value := by
    rw [List.takeWhile_append_of_pos digits, stops, List.append_nil]
  have left : (Nat.toDigits 10 value ++ rest).dropWhile Char.isDigit = rest := by
    rw [List.dropWhile_append_of_pos digits, dropWhile_of_takeWhile stops]
  rw [Nat.toString_eq_repr, Nat.toList_repr, number, taken, left]
  split
  · rename_i empty
    cases Nat.toDigits_ne_nil empty
  · rename_i first later same
    rw [← same, Nat.ofDigitChars_ten_toDigits]

theorem number_reads (value : Nat) : number.Reads (toString value).toList value := fun _ ends =>
  number_text value (takeWhile_ends Char.isDigit rfl rfl rfl ends)

/-- Whether a character is a hexadecimal digit. -/
def isHexDigit (character : Char) : Bool := (Hex.digit? character).isSome

/-- The number that a row of hexadecimal digits denotes. -/
def hexValue (digits : List Char) : Nat :=
  digits.foldl (fun value digit => 16 * value + (Hex.digit? digit).getD 0) 0

theorem digit?_digitChar : ∀ digit < 16, Hex.digit? (Nat.digitChar digit).toUpper = some digit := by
  decide

theorem length_paddedDigits (width value : Nat) :
    (Hex.paddedDigits width value).length = width := by
  induction width generalizing value with
  | zero => rfl
  | succ width inductionHypothesis =>
      rw [Hex.paddedDigits, List.length_append, inductionHypothesis, List.length_singleton]

theorem isHexDigit_of_mem {width value : Nat} {digit : Char}
    (member : digit ∈ Hex.paddedDigits width value) :
    isHexDigit digit = true := by
  induction width generalizing value with
  | zero => cases member
  | succ width inductionHypothesis =>
      rw [Hex.paddedDigits, List.mem_append, List.mem_singleton] at member
      rcases member with earlier | rfl
      · exact inductionHypothesis earlier
      · rw [isHexDigit, digit?_digitChar _ (Nat.mod_lt value (by decide))]
        rfl

/-- Digits in a fixed number of places denote the number, less what does not fit. -/
theorem hexValue_paddedDigits (width value : Nat) :
    hexValue (Hex.paddedDigits width value) = value % Nat.pow 16 width := by
  induction width generalizing value with
  | zero => exact (Nat.mod_one value).symm
  | succ width inductionHypothesis =>
      have last := digit?_digitChar _ (Nat.mod_lt value (by decide : 0 < 16))
      have power : Nat.pow 16 (width + 1) = 16 * Nat.pow 16 width := Nat.pow_succ'
      have earlier := inductionHypothesis (value / 16)
      simp only [hexValue] at earlier ⊢
      rw [Hex.paddedDigits, List.foldl_append, earlier, List.foldl_cons, List.foldl_nil, last,
        Option.getD_some, power, Nat.mod_mul, Nat.add_comm]

/-- Reads a number with its sign. -/
def signed : Reader Operand
  | '-' :: text => (number text).map fun (value, rest) => (.negated value, rest)
  | '+' :: text => (number text).map fun (value, rest) => (.distance value, rest)
  | _ => none

/-- Reads a number, with a sign or without, or hexadecimal digits after 0x. -/
def amount : Reader Operand := fun text =>
  match number text with
  | some (_, 'x' :: rest) =>
      let digits := rest.takeWhile isHexDigit
      some (.code digits.length (hexValue digits), rest.dropWhile isHexDigit)
  | some (value, rest) => some (.number value, rest)
  | none => signed text

theorem amount_number (value : Nat) : amount.Reads (toString value).toList (.number value) := by
  intro rest ends
  rw [amount, number_reads value rest ends]
  cases ends <;> rfl

theorem amount_negated (value : Nat) :
    amount.Reads ('-' :: (toString value).toList) (.negated value) := by
  intro rest ends
  have unsigned : number ('-' :: ((toString value).toList ++ rest)) = none := rfl
  simp only [List.cons_append, amount, unsigned, signed, number_reads value rest ends,
    Option.map_some]

theorem amount_distance (value : Nat) :
    amount.Reads ('+' :: (toString value).toList) (.distance value) := by
  intro rest ends
  have unsigned : number ('+' :: ((toString value).toList ++ rest)) = none := rfl
  simp only [List.cons_append, amount, unsigned, signed, number_reads value rest ends,
    Option.map_some]

theorem amount_code (width value : Nat) : amount.Reads ('0' :: 'x' :: Hex.paddedDigits width value)
    (.code width (value % Nat.pow 16 width)) := by
  intro rest ends
  have none_ := takeWhile_ends isHexDigit rfl rfl rfl ends
  have zero : number ('0' :: 'x' :: (Hex.paddedDigits width value ++ rest)) =
      some (0, 'x' :: (Hex.paddedDigits width value ++ rest)) := rfl
  rw [List.cons_append, List.cons_append, amount, zero]
  simp only [List.takeWhile_append_of_pos fun _ => isHexDigit_of_mem,
    List.dropWhile_append_of_pos fun _ => isHexDigit_of_mem, none_, dropWhile_of_takeWhile none_,
    List.append_nil, length_paddedDigits, hexValue_paddedDigits]

/-! ## Registers -/

/-- Reads a register: one of the three that have a name, or a number after R. -/
def register : Reader Register
  | 'S' :: 'P' :: rest => some (Register.sp, rest)
  | 'L' :: 'R' :: rest => some (Register.lr, rest)
  | 'P' :: 'C' :: rest => some (Register.pc, rest)
  | 'R' :: text => (number text).map fun (value, rest) => (BitVec.ofNat 4 value, rest)
  | _ => none

/-- A register is read up to the first character that is no digit. -/
theorem register_text (named : Register) {rest : List Char}
    (stops : rest.takeWhile Char.isDigit = []) :
    register (named.text.toList ++ rest) = some (named, rest) := by
  rw [Register.text]
  split_ifs with sp lr pc
  · rw [sp]
    rfl
  · rw [lr]
    rfl
  · rw [pc]
    rfl
  · rw [String.toList_append, List.append_assoc]
    change (number ((toString named.toNat).toList ++ rest)).map _ = _
    rw [number_text named.toNat stops]
    simp

theorem register_reads (named : Register) : register.Reads named.text.toList named := fun _ ends =>
  register_text named (takeWhile_ends Char.isDigit rfl rfl rfl ends)

/-! ## Rows of items -/

/-- Reads up to so many items, with a comma and a blank between them. -/
def eachOf (item : Reader α) : (count : Nat) → Reader (List α)
  | 0, _ => none
  | count + 1, text =>
      match item text with
      | some (first, ',' :: ' ' :: more) =>
          (eachOf item count more).map fun (later, rest) => (first :: later, rest)
      | some (first, rest) => some ([first], rest)
      | none => none

/-- Reads some items with a comma and a blank between them. There are no more of them than
characters. -/
def each (item : Reader α) : Reader (List α) := fun text => eachOf item (text.length + 1) text

variable {β : Type}

theorem eachOf_reads {item : Reader α} {text : β → List Char} {value : β → α} {items : List β}
    (some_ : items ≠ []) (reads : ∀ one ∈ items, item.Reads (text one) (value one)) {count : Nat}
    (enough : items.length ≤ count) {rest : List Char} (ends : Ends rest)
    (last : ∀ more, rest ≠ ',' :: more) :
    eachOf item count ([',', ' '].intercalate (items.map text) ++ rest) =
      some (items.map value, rest) := by
  induction items generalizing count with
  | nil => cases some_ rfl
  | cons first items inductionHypothesis =>
      have firstReads := reads first List.mem_cons_self
      cases count with
      | zero => cases enough
      | succ count =>
          cases items with
          | nil =>
              rw [List.map_singleton, List.intercalate_singleton, eachOf, firstReads rest ends]
              cases ends with
              | comma more => cases last more rfl
              | _ => rfl
          | cons second items =>
              have later := inductionHypothesis (List.cons_ne_nil _ _)
                (fun one member => reads one (List.mem_cons_of_mem _ member))
                (Nat.le_of_succ_le_succ enough)
              rw [List.map_cons] at later
              have front := firstReads (',' :: ' ' :: ([',', ' '].intercalate
                (text second :: items.map text) ++ rest)) (.comma _)
              rw [List.map_cons, List.map_cons, List.intercalate_cons_cons, List.append_assoc,
                List.append_assoc, eachOf]
              simp only [List.cons_append, List.nil_append, front, later, Option.map_some,
                List.map_cons]

theorem length_le_length_intercalate (items : List (List Char)) :
    items.length ≤ ([',', ' '].intercalate items).length + 1 := by
  induction items with
  | nil => exact Nat.zero_le _
  | cons first items inductionHypothesis =>
      cases items with
      | nil => exact Nat.le_add_left _ _
      | cons second items =>
          rw [List.intercalate_cons_cons, List.length_append, List.length_append, List.length_cons]
          simp only [List.length_cons] at inductionHypothesis ⊢
          omega

theorem each_reads {item : Reader α} {text : β → List Char} {value : β → α} {items : List β}
    (some_ : items ≠ []) (reads : ∀ one ∈ items, item.Reads (text one) (value one))
    {rest : List Char} (ends : Ends rest) (last : ∀ more, rest ≠ ',' :: more) :
    each item ([',', ' '].intercalate (items.map text) ++ rest) = some (items.map value, rest) := by
  apply eachOf_reads some_ reads _ ends last
  have enough := length_le_length_intercalate (items.map text)
  rw [List.length_map] at enough
  rw [List.length_append]
  omega

/-! ## Operands -/

/-- Reads a number of bytes behind a base, up to the closing bracket. -/
def displacement (base : Register) : Reader Operand
  | '#' :: text =>
      match number text with
      | some (bytes, ']' :: rest) => some (.displaced base bytes, rest)
      | _ => none
  | _ => none

/-- Reads what follows a base and a separator, up to the closing bracket. -/
def offset (base : Register) : Reader Operand := fun text =>
  match register text with
  | some (index, ']' :: rest) => some (.indexed base index, rest)
  | some _ => none
  | none => displacement base text

/-- Reads what stands in square brackets, after the opening one. -/
def memory : Reader Operand := fun text =>
  match register text with
  | some (base, ',' :: ' ' :: text) => offset base text
  | _ => none

/-- Reads a closing brace that comes at once. -/
def noRegisters : Reader Operand
  | '\x7d' :: rest => some (.registers [], rest)
  | _ => none

/-- Reads what stands in braces, after the opening one. -/
def list : Reader Operand := fun text =>
  match each register text with
  | some (list, '\x7d' :: rest) => some (.registers list, rest)
  | some _ => none
  | none => noRegisters text

/-- Reads an operand that is marked by its first character. -/
def marked : Reader Operand
  | '#' :: text => amount text
  | '[' :: text => memory text
  | '\x7b' :: text => list text
  | _ => none

/-- Reads an operand. -/
def operand : Reader Operand := fun text =>
  match register text with
  | some (named, '!' :: rest) => some (.updated named, rest)
  | some (named, rest) => some (.register named, rest)
  | none => marked text

end Reader

/-- The operand that is read where another is written. -/
def Operand.normal : Operand → Operand
  | distance bytes => if bytes < 0 then negated bytes.natAbs else distance bytes
  | code digits value => code digits (value % Nat.pow 16 digits)
  | other => other

namespace Reader

theorem offset_indexed (base index : Register) :
    (offset base).Reads (index.text.toList ++ [']']) (.indexed base index) := by
  intro rest ends
  rw [List.append_assoc, List.singleton_append, offset,
    register_reads index (']' :: rest) (.bracket rest)]
  rfl

theorem offset_displaced (base : Register) (bytes : Nat) :
    (offset base).Reads ('#' :: ((toString bytes).toList ++ [']'])) (.displaced base bytes) := by
  intro rest ends
  have unnamed : register ('#' :: ((toString bytes).toList ++ (']' :: rest))) = none := rfl
  rw [List.cons_append, List.append_assoc, List.singleton_append, offset, unnamed]
  simp only [displacement, number_reads bytes (']' :: rest) (.bracket rest)]

theorem memory_reads {base : Register} {text : List Char} {operand : Operand}
    (reads : (offset base).Reads text operand) :
    memory.Reads (base.text.toList ++ ',' :: ' ' :: text) operand := by
  intro rest ends
  have front := register_reads base (',' :: ' ' :: (text ++ rest)) (.comma _)
  rw [List.append_assoc, List.cons_append, List.cons_append, memory, front]
  exact reads rest ends

theorem list_reads (registers : List Register) :
    list.Reads ([',', ' '].intercalate (registers.map fun named => named.text.toList) ++ ['\x7d'])
      (.registers registers) := by
  intro rest ends
  rw [List.append_assoc, List.singleton_append, list]
  cases registers with
  | nil =>
      have none_ : each register ('\x7d' :: rest) = none := rfl
      rw [List.map_nil, List.intercalate_nil, List.nil_append, none_, noRegisters]
  | cons first later =>
      have row := each_reads (List.cons_ne_nil first later) (fun named _ => register_reads named)
        (.brace rest) (fun more => by simp)
      rw [List.map_id'] at row
      rw [row]
      rfl

/-- An operand that begins with a mark is read as the mark says. -/
theorem operand_marked {mark : Char} {text : List Char} {written : Operand}
    (unnamed : ∀ rest, register (mark :: rest) = none)
    (reads : marked.Reads (mark :: text) written) :
    operand.Reads (mark :: text) written := by
  intro rest ends
  rw [operand, List.cons_append, unnamed]
  exact reads rest ends

/-- Every operand is read back from its text. -/
theorem operand_reads (written : Operand) : operand.Reads written.text.toList written.normal := by
  cases written with
  | register named =>
      intro rest ends
      rw [Operand.text, operand, register_reads named rest ends]
      cases ends <;> rfl
  | updated named =>
      intro rest ends
      have stops : ('!' :: rest).takeWhile Char.isDigit = [] := rfl
      have text : (Operand.updated named).text.toList ++ rest =
          named.text.toList ++ '!' :: rest := by
        simp [Operand.text]
      rw [text, operand, register_text named stops]
      rfl
  | number value =>
      rw [Operand.text, String.toList_append]
      exact operand_marked (fun _ => rfl) (amount_number value)
  | negated value =>
      rw [Operand.text, String.toList_append]
      exact operand_marked (fun _ => rfl) (amount_negated value)
  | distance bytes =>
      rw [Operand.text, Operand.signedText, String.toList_append, String.toList_append,
        Operand.normal]
      split_ifs with negative
      · exact operand_marked (fun _ => rfl) (amount_negated bytes.natAbs)
      · have whole : (bytes.natAbs : Int) = bytes := Int.natAbs_of_nonneg (Int.not_lt.1 negative)
        have reads := amount_distance bytes.natAbs
        rw [whole] at reads
        exact operand_marked (fun _ => rfl) reads
  | code digits value =>
      have text : (Operand.code digits value).text.toList =
          '#' :: '0' :: 'x' :: Hex.paddedDigits digits value := by
        simp [Operand.text, Hex.padded]
      rw [text]
      exact operand_marked (fun _ => rfl) (amount_code digits value)
  | indexed base index =>
      have text : (Operand.indexed base index).text.toList =
          '[' :: (base.text.toList ++ ',' :: ' ' :: (index.text.toList ++ [']'])) := by
        simp [Operand.text]
      rw [text]
      exact operand_marked (fun _ => rfl) (memory_reads (offset_indexed base index))
  | displaced base bytes =>
      have text : (Operand.displaced base bytes).text.toList =
          '[' :: (base.text.toList ++ ',' :: ' ' :: '#' :: ((toString bytes).toList ++ [']'])) := by
        simp [Operand.text]
      rw [text]
      exact operand_marked (fun _ => rfl) (memory_reads (offset_displaced base bytes))
  | registers named =>
      have text : (Operand.registers named).text.toList =
          '\x7b' ::
            ([',', ' '].intercalate (named.map fun register => register.text.toList) ++
              ['\x7d']) := by
        simp [Operand.text, Function.comp_def]
      rw [text]
      exact operand_marked (fun _ => rfl) (list_reads named)

end Reader

/-! ## Lines -/

namespace AssemblyLine

open Reader

/-- Reads an assembly line: a mnemonic, a blank, and some operands. -/
def ofText? (text : String) : Option AssemblyLine :=
  let mnemonic := text.toList.takeWhile (· != ' ')
  match text.toList.dropWhile (· != ' ') with
  | ' ' :: operands =>
      match each operand operands with
      | some (operands, []) => some ⟨String.ofList mnemonic, operands⟩
      | _ => none
  | _ => none

/-- The line that is read where another is written. -/
def normal (line : AssemblyLine) : AssemblyLine :=
  { line with operands := line.operands.map Operand.normal }

/-- Every line with some operand and without a blank in its mnemonic is read back from its text. -/
theorem ofText?_text {line : AssemblyLine} (word : line.mnemonic.toList.all (· != ' ') = true)
    (some_ : line.operands ≠ []) : ofText? line.text = some line.normal := by
  have whole := List.all_eq_true.1 word
  let operands := [',', ' '].intercalate (line.operands.map fun written => written.text.toList)
  have text : line.text.toList = line.mnemonic.toList ++ ' ' :: operands := by
    simp [AssemblyLine.text, operands, Function.comp_def]
  have mnemonic : (line.mnemonic.toList ++ ' ' :: operands).takeWhile (· != ' ') =
      line.mnemonic.toList := by
    rw [List.takeWhile_append_of_pos whole]
    exact List.append_nil _
  have rest : (line.mnemonic.toList ++ ' ' :: operands).dropWhile (· != ' ') = ' ' :: operands := by
    rw [List.dropWhile_append_of_pos whole]
    rfl
  have row : each operand operands = some (line.operands.map Operand.normal, []) := by
    rw [← List.append_nil operands]
    exact each_reads some_ (fun written _ => operand_reads written) .nothing nofun
  rw [ofText?, text, mnemonic, rest]
  simp only [row, String.ofList_toList, normal]

end AssemblyLine

end ThumbMachine
