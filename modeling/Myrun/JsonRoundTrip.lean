import Myrun.Json

namespace Myrun

/-!
# Printing followed by parsing

Parsing the text of a value returns the value, for both printers.  A float is
the one exception: it is printed in the language's decimal form, which the
number parser may read back as an integer, so the result is described by
`Json.reread`.  A tree without floats is its own reread.
-/

namespace JsonParser

/-! ## White space -/

/-- A character that `ws` does not skip. -/
def NotBlank (c : Char) : Prop :=
  c ≠ ' ' ∧ c ≠ '\t' ∧ c ≠ '\n' ∧ c ≠ '\r'

instance (c : Char) : Decidable (NotBlank c) :=
  inferInstanceAs (Decidable (_ ∧ _))

/-- `ws` stops at the first character that is not blank. -/
theorem ws_cons_of_notBlank
    {c : Char}
    {rest : List Char}
    (notBlank : NotBlank c) :
    ws (c :: rest) = c :: rest := by
  obtain ⟨space, tab, line, carriage⟩ := notBlank
  simp [ws, space, tab, line, carriage]

/-- `ws` skips any number of spaces. -/
theorem ws_replicate_space
    (count : Nat)
    (rest : List Char) :
    ws (List.replicate count ' ' ++ rest) = ws rest := by
  induction count with
  | zero =>
      rfl
  | succ count inductionHypothesis =>
      simpa [List.replicate_succ, ws] using inductionHypothesis

/-- `ws` skips the line breaks and indentation of the pretty printer. -/
@[simp] theorem ws_newline
    (indent : Option Nat)
    (depth : Nat)
    (rest : List Char) :
    ws (Json.newline indent depth ++ rest) = ws rest := by
  cases indent with
  | none =>
      rfl
  | some step =>
      simpa [Json.newline, ws] using ws_replicate_space (step * depth) rest

/-- `ws` skips the blank after a colon. -/
@[simp] theorem ws_afterColon
    (indent : Option Nat)
    (rest : List Char) :
    ws ((if indent.isSome then [' '] else []) ++ rest) = ws rest := by
  cases indent <;> simp [ws]

/-! ## Strings -/

/-- A hexadecimal digit below sixteen is read back. -/
theorem hexDigit_digitChar :
    ∀ d, d < 16 → hexDigit (Nat.digitChar d) = some d := by
  decide

/-- The printer's hexadecimal digits are one byte long. -/
theorem utf8Size_digitChar :
    ∀ d, d < 16 → (Nat.digitChar d).utf8Size = 1 := by
  decide

/-- The character below `0x20` written as a four-digit escape is read back. -/
theorem escapeSequence_control
    (input : List Char)
    {c : Char}
    (rest : List Char)
    (control : c.toNat < 0x20) :
    escapeSequence input
        ('u' :: '0' :: '0' :: Nat.digitChar (c.toNat / 16) ::
          Nat.digitChar (c.toNat % 16) :: rest) =
      .ok (c, rest) := by
  have high := hexDigit_digitChar (c.toNat / 16) (by omega)
  have low := hexDigit_digitChar (c.toNat % 16) (by omega)
  have highSize := utf8Size_digitChar (c.toNat / 16) (by omega)
  have lowSize := utf8Size_digitChar (c.toNat % 16) (by omega)
  have zeroSize : ('0' : Char).utf8Size = 1 := by decide
  have zeroValue : hexDigit '0' = some 0 := by decide
  have enough :
      ¬ utf8Len ('0' :: '0' :: Nat.digitChar (c.toNat / 16) ::
          Nat.digitChar (c.toNat % 16) :: rest) < 4 := by
    simp only [utf8Len, List.map_cons, List.sum_cons, highSize, lowSize,
      zeroSize]
    omega
  have cut :
      takeBytes 4 ('0' :: '0' :: Nat.digitChar (c.toNat / 16) ::
          Nat.digitChar (c.toNat % 16) :: rest) =
        some (['0', '0', Nat.digitChar (c.toNat / 16),
          Nat.digitChar (c.toNat % 16)], rest) := by
    simp [takeBytes, highSize, lowSize, zeroSize]
  have decoded :
      fromHex ['0', '0', Nat.digitChar (c.toNat / 16),
          Nat.digitChar (c.toNat % 16)] = some c.toNat := by
    simp [fromHex, hexDigits, zeroValue, high, low]
    omega
  have valid : charOrReplacement c.toNat = c := by
    have isValid : c.toNat.isValidChar := by
      left
      omega
    simp [charOrReplacement, isValid, Char.ofNat_toNat]
  simp [escapeSequence, enough, cut, decoded, valid]

/-- A complete escape contributes the character it denotes. -/
theorem stringBody_backslash
    {input tail rest : List Char}
    {c : Char}
    (accepted : escapeSequence input tail = .ok (c, rest))
    (fuel : Nat) :
    stringBody input (fuel + 1) ('\\' :: tail) =
      (stringBody input fuel rest).map
        fun parts => (c :: parts.1, parts.2) := by
  have notQuote : ('\\' : Char) ≠ '"' := by decide
  simp only [stringBody, notQuote, accepted, ↓reduceIte, Result.ok_bind]
  cases stringBody input fuel rest <;> rfl

/-- A character that needs no escape contributes itself. -/
theorem stringBody_raw
    (input : List Char)
    {c : Char}
    (rest : List Char)
    (notQuote : c ≠ '"')
    (notBackslash : c ≠ '\\')
    (printable : ¬ c.toNat < 0x20)
    (fuel : Nat) :
    stringBody input (fuel + 1) (c :: rest) =
      (stringBody input fuel rest).map
        fun parts => (c :: parts.1, parts.2) := by
  simp only [stringBody, notQuote, notBackslash, printable, ↓reduceIte]
  cases stringBody input fuel rest <;> rfl

/-- One escaped character is read back as one step of the string loop. -/
theorem stringBody_escapeChar
    (input : List Char)
    (c : Char)
    (fuel : Nat)
    (rest : List Char) :
    stringBody input (fuel + 1) (Json.escapeChar c ++ rest) =
      (stringBody input fuel rest).map
        fun parts => (c :: parts.1, parts.2) := by
  have eqOfNat : ∀ n, c.toNat = n → c = Char.ofNat n := by
    rintro n rfl
    exact (Char.ofNat_toNat c).symm
  unfold Json.escapeChar
  -- one branch for each arm of `escape_into`, in its order
  split
  · rename_i quote
    subst quote
    exact stringBody_backslash (by simp [escapeSequence]) fuel
  split
  · rename_i backslash
    subst backslash
    exact stringBody_backslash (by simp [escapeSequence]) fuel
  split
  · rename_i line
    subst line
    exact stringBody_backslash (by simp [escapeSequence]) fuel
  split
  · rename_i carriage
    subst carriage
    exact stringBody_backslash (by simp [escapeSequence]) fuel
  split
  · rename_i tab
    subst tab
    exact stringBody_backslash (by simp [escapeSequence]) fuel
  split
  · rename_i backspace
    have shape := eqOfNat _ backspace
    subst shape
    exact stringBody_backslash (by simp [escapeSequence]) fuel
  split
  · rename_i formFeed
    have shape := eqOfNat _ formFeed
    subst shape
    exact stringBody_backslash (by simp [escapeSequence]) fuel
  split
  · rename_i control
    exact stringBody_backslash
      (escapeSequence_control input rest control) fuel
  · rename_i notQuote notBackslash _ _ _ _ _ printable
    exact stringBody_raw input rest notQuote notBackslash printable fuel

/-- The escaped characters of a string are read back up to the closing quote. -/
theorem stringBody_escaped
    (input : List Char)
    (cs rest : List Char)
    {fuel : Nat}
    (enough : cs.length < fuel) :
    stringBody input fuel (cs.flatMap Json.escapeChar ++ '"' :: rest) =
      .ok (cs, rest) := by
  induction cs generalizing fuel with
  | nil =>
      obtain ⟨fuel, rfl⟩ : ∃ n, fuel = n + 1 := ⟨fuel - 1, by simp at enough; omega⟩
      simp [stringBody]
  | cons c cs inductionHypothesis =>
      obtain ⟨fuel, rfl⟩ : ∃ n, fuel = n + 1 := ⟨fuel - 1, by simp at enough; omega⟩
      have restEnough : cs.length < fuel := by
        simpa using enough
      rw [List.flatMap_cons, List.append_assoc, stringBody_escapeChar,
        inductionHypothesis restEnough]
      rfl

/-- Every escaped character is at least one character long. -/
theorem length_le_length_escaped (cs : List Char) :
    cs.length ≤ (cs.flatMap Json.escapeChar).length := by
  induction cs with
  | nil =>
      simp
  | cons c cs inductionHypothesis =>
      have nonempty : 1 ≤ (Json.escapeChar c).length := by
        unfold Json.escapeChar
        split_ifs <;> simp
      simp only [List.flatMap_cons, List.length_append, List.length_cons]
      omega

/-- `Parser::string` inverts `escape_into`. -/
@[simp] theorem string_escape
    (input : List Char)
    (s : String)
    (rest : List Char) :
    string input (Json.escape s ++ rest) = .ok (s, rest) := by
  have enough : s.toList.length < (Json.escape s ++ rest).length := by
    have bound := length_le_length_escaped s.toList
    simp only [Json.escape, List.cons_append, List.length_append,
      List.length_cons, List.append_assoc]
    omega
  have body := stringBody_escaped input s.toList rest enough
  simp only [Json.escape, List.cons_append, List.append_assoc,
    List.nil_append, string, List.tail_cons] at body ⊢
  simp only [body, Result.ok_bind, Result.pure_eq_ok, String.ofList_toList]

/-! ## Numbers -/

/-- What follows a number may not continue it. -/
def NumberEnds (rest : List Char) : Prop :=
  ∀ c ∈ rest.head?, isNumberChar c = false

theorem numberEnds_nil : NumberEnds [] := by
  simp [NumberEnds]

theorem numberEnds_cons
    {c : Char}
    (rest : List Char)
    (stops : isNumberChar c = false) :
    NumberEnds (c :: rest) := by
  simpa [NumberEnds] using stops

/-- The scan of a number stops where the number ends. -/
theorem takeWhile_isNumberChar_append
    {text rest : List Char}
    (numeric : ∀ c ∈ text, isNumberChar c = true)
    (ends : NumberEnds rest) :
    (text ++ rest).takeWhile isNumberChar = text := by
  rw [List.takeWhile_append_of_pos numeric]
  cases rest with
  | nil =>
      simp
  | cons c rest =>
      have stops : isNumberChar c = false := ends c (by simp)
      simp [stops]

/--
The shape of a printed number: a digit or a minus sign first, then characters
that continue a number.
-/
structure NumberShape (text : List Char) : Prop where
  head : ∃ c cs, text = c :: cs ∧ (c.isDigit = true ∨ c = '-')
  numeric : ∀ c ∈ text, isNumberChar c = true

/-- A printed number is scanned exactly. -/
theorem numberText_append
    {text rest : List Char}
    (shape : NumberShape text)
    (ends : NumberEnds rest) :
    numberText (text ++ rest) = text := by
  obtain ⟨c, cs, rfl, first⟩ := shape.head
  have tailNumeric : ∀ d ∈ cs, isNumberChar d = true := by
    intro d member
    exact shape.numeric d (List.mem_cons_of_mem c member)
  rcases first with digit | minus
  · have notMinus : c ≠ '-' := by
      rintro rfl
      simp at digit
    have notPlus : c ≠ '+' := by
      rintro rfl
      simp at digit
    have scanned :=
      takeWhile_isNumberChar_append shape.numeric ends
    simp only [List.cons_append] at scanned ⊢
    unfold numberText
    split
    · rename_i rest' same
      simp only [List.cons.injEq] at same
      exact (notMinus same.1).elim
    · rename_i rest' same
      simp only [List.cons.injEq] at same
      exact (notPlus same.1).elim
    · exact scanned
  · subst minus
    simp only [List.cons_append, numberText]
    rw [takeWhile_isNumberChar_append tailNumeric ends]

/-- `Parser::number` on a printed number leaves exactly what follows it. -/
theorem number_append [F64Ops]
    (input : List Char)
    {text rest : List Char}
    {v : Json}
    (shape : NumberShape text)
    (ends : NumberEnds rest)
    (denotes : numberValue text = .ok v) :
    number input (text ++ rest) = .ok (v, rest) := by
  have nonempty : text.isEmpty = false := by
    obtain ⟨c, cs, rfl, _⟩ := shape.head
    rfl
  simp [number, numberText_append shape ends, nonempty, denotes]

/-! ## Printed integers -/

/-- A digit is not a character that makes a number a float. -/
theorem isFloatChar_of_isDigit
    {c : Char}
    (digit : c.isDigit = true) :
    isFloatChar c = false := by
  by_contra floats
  simp only [isFloatChar, Bool.not_eq_false, Bool.or_eq_true,
    decide_eq_true_eq] at floats
  rcases floats with (((rfl | rfl) | rfl) | rfl) | rfl <;>
    simp at digit

/-- The digits of a number contain no float character. -/
theorem any_isFloatChar_toDigits (n : Nat) :
    (Nat.toDigits 10 n).any isFloatChar = false := by
  rw [List.any_eq_false]
  intro c member
  have digit := List.all_eq_true.mp (toDigits_all_isDigit n) c member
  simp [isFloatChar_of_isDigit digit]

/-- The text of an integer has the shape of a number. -/
theorem numberShape_intText (i : Int64) :
    NumberShape (Json.intText i) := by
  have digits : ∀ c ∈ Nat.toDigits 10 i.toInt.natAbs, c.isDigit = true :=
    List.all_eq_true.mp (toDigits_all_isDigit _)
  unfold Json.intText
  split
  · refine ⟨⟨'-', _, rfl, Or.inr rfl⟩, ?_⟩
    intro c member
    rcases List.mem_cons.mp member with rfl | inDigits
    · decide
    · simp [isNumberChar, digits c inDigits]
  · refine ⟨?_, ?_⟩
    · cases shape : Nat.toDigits 10 i.toInt.natAbs with
      | nil =>
          exact (Nat.toDigits_ne_nil shape).elim
      | cons c cs =>
          exact ⟨c, cs, rfl, Or.inl (head_toDigits_isDigit shape)⟩
    · intro c member
      simp [isNumberChar, digits c member]

private theorem head_ne_sign
    {n : Nat}
    {sign : Char}
    {rest : List Char}
    (shape : Nat.toDigits 10 n = sign :: rest) :
    sign ≠ '-' ∧ sign ≠ '+' := by
  have digit := head_toDigits_isDigit shape
  constructor <;> rintro rfl <;> simp at digit

/-- The text of an integer is read as the integer. -/
theorem parseI64Chars_intText (i : Int64) :
    parseI64Chars (Json.intText i) = some i := by
  have lower := i.le_toInt
  have upper := i.toInt_lt
  unfold Json.intText
  split
  · rename_i negative
    have inRange : i.toInt.natAbs ≤ 2 ^ 63 := by
      omega
    have value : -(i.toInt.natAbs : Int) = i.toInt := by
      omega
    simp only [parseI64Chars, parseDigits_toDigits, Option.filter_some,
      inRange, decide_true, ↓reduceIte, Option.map_some, value,
      Int64.ofInt_toInt]
  · rename_i nonNegative
    have inRange : i.toInt.natAbs ≤ 2 ^ 63 - 1 := by
      omega
    have value : (i.toInt.natAbs : Int) = i.toInt := by
      omega
    unfold parseI64Chars
    split
    · rename_i rest shape
      exact ((head_ne_sign shape).1 rfl).elim
    · simp only [parseUnsigned_toDigits inRange, Option.map_some, value,
        Int64.ofInt_toInt]

private theorem looksFloat_intText (i : Int64) :
    looksFloat (Json.intText i) = false := by
  unfold Json.intText
  split
  · simp [looksFloat, any_isFloatChar_toDigits]
  · unfold looksFloat
    split
    · rename_i rest shape
      exact ((head_ne_sign shape).1 rfl).elim
    · rename_i rest shape
      exact ((head_ne_sign shape).2 rfl).elim
    · exact any_isFloatChar_toDigits _

/-- The text of an integer denotes the integer. -/
theorem numberValue_intText [F64Ops] (i : Int64) :
    numberValue (Json.intText i) = .ok (.int i) := by
  simp [numberValue, looksFloat_intText, parseI64Chars_intText]

end JsonParser

/-! ## Trees -/

namespace Json

/-- A float that the number parser reads back as some JSON number. -/
structure Readable [F64Ops] (f : F64) : Prop where
  finite : f.isFinite = true
  shape : JsonParser.NumberShape (F64Ops.display f)
  denotes : ∃ v, JsonParser.numberValue (F64Ops.display f) = .ok v

mutual

/-- Every float of the tree is readable. -/
def FloatsReadable [F64Ops] : Json → Prop
  | null => True
  | bool _ => True
  | int _ => True
  | float f => Readable f
  | str _ => True
  | arr items => ItemsReadable items
  | obj members => MembersReadable members

/-- Every float of every item is readable. -/
def ItemsReadable [F64Ops] : List Json → Prop
  | [] => True
  | item :: rest => item.FloatsReadable ∧ ItemsReadable rest

/-- Every float of every member is readable. -/
def MembersReadable [F64Ops] : List (String × Json) → Prop
  | [] => True
  | (_, value) :: rest => value.FloatsReadable ∧ MembersReadable rest

end

mutual

/-- What parsing the text of a value returns: floats as the parser reads them. -/
def reread [F64Ops] : Json → Json
  | null => null
  | bool b => bool b
  | int i => int i
  | float f =>
      match JsonParser.numberValue (F64Ops.display f) with
      | .ok v => v
      | .error _ => null
  | str s => str s
  | arr items => arr (rereadItems items)
  | obj members => obj (rereadMembers members)

/-- `reread` on the items of an array. -/
def rereadItems [F64Ops] : List Json → List Json
  | [] => []
  | item :: rest => item.reread :: rereadItems rest

/-- `reread` on the members of an object. -/
def rereadMembers [F64Ops] : List (String × Json) → List (String × Json)
  | [] => []
  | (key, value) :: rest => (key, value.reread) :: rereadMembers rest

end

/-- A first character that begins a value and nothing else. -/
def ValueStart (c : Char) : Prop :=
  c = '{' ∨ c = '[' ∨ c = '"' ∨ c = 't' ∨ c = 'f' ∨ c = 'n' ∨
    c.isDigit = true ∨ c = '-'

/-- The text of a readable value starts with a character that begins a value. -/
theorem write_head [F64Ops]
    (indent : Option Nat)
    (depth : Nat)
    {v : Json}
    (readable : v.FloatsReadable) :
    ∃ c cs, v.write indent depth = c :: cs ∧ ValueStart c := by
  cases v with
  | null =>
      exact ⟨'n', "ull".toList, by simp [write], by simp [ValueStart]⟩
  | bool b =>
      cases b with
      | true => exact ⟨'t', "rue".toList, by simp [write], by simp [ValueStart]⟩
      | false => exact ⟨'f', "alse".toList, by simp [write], by simp [ValueStart]⟩
  | int i =>
      obtain ⟨c, cs, shape, first⟩ := (JsonParser.numberShape_intText i).head
      exact ⟨c, cs, by simpa [write] using shape, by
        rcases first with digit | minus
        · simp [ValueStart, digit]
        · simp [ValueStart, minus]⟩
  | float f =>
      have readsBack : Readable f := by
        simpa [FloatsReadable] using readable
      obtain ⟨c, cs, shape, first⟩ := readsBack.shape.head
      exact ⟨c, cs, by simpa [write, readsBack.finite] using shape, by
        rcases first with digit | minus
        · simp [ValueStart, digit]
        · simp [ValueStart, minus]⟩
  | str s =>
      exact ⟨'"', _, by simp only [write, escape, List.cons_append]; rfl,
        by simp [ValueStart]⟩
  | arr items =>
      cases items with
      | nil => exact ⟨'[', [']'], by simp [write], by simp [ValueStart]⟩
      | cons first rest =>
          exact ⟨'[', _, by simp only [write, List.cons_append]; rfl,
            by simp [ValueStart]⟩
  | obj members =>
      cases members with
      | nil => exact ⟨'{', ['}'], by simp [write], by simp [ValueStart]⟩
      | cons first rest =>
          exact ⟨'{', _, by simp only [write, List.cons_append]; rfl,
            by simp [ValueStart]⟩

/-- A character that begins a value is neither blank nor a closing bracket. -/
theorem ValueStart.notBlank
    {c : Char}
    (start : ValueStart c) :
    JsonParser.NotBlank c ∧ c ≠ ']' := by
  rcases start with rfl | rfl | rfl | rfl | rfl | rfl | digit | rfl
  all_goals first
    | decide
    | skip
  refine ⟨⟨?_, ?_, ?_, ?_⟩, ?_⟩ <;>
  · rintro rfl
    simp at digit

/-- The text of a readable value is not skipped by `ws`. -/
theorem ws_write [F64Ops]
    (indent : Option Nat)
    (depth : Nat)
    {v : Json}
    (readable : v.FloatsReadable)
    (rest : List Char) :
    JsonParser.ws (v.write indent depth ++ rest) =
      v.write indent depth ++ rest := by
  obtain ⟨c, cs, shape, start⟩ := write_head indent depth readable
  rw [shape, List.cons_append]
  exact JsonParser.ws_cons_of_notBlank start.notBlank.1

/-- The text of a readable value is not empty. -/
theorem length_write_pos [F64Ops]
    (indent : Option Nat)
    (depth : Nat)
    {v : Json}
    (readable : v.FloatsReadable) :
    1 ≤ (v.write indent depth).length := by
  obtain ⟨c, cs, shape, _⟩ := write_head indent depth readable
  simp [shape]

end Json

namespace JsonParser

open Json

/-- A value that starts like a number is parsed as a number. -/
theorem value_of_numberShape [F64Ops]
    (input : List Char)
    {text rest : List Char}
    {v : Json}
    (shape : NumberShape text)
    (ends : NumberEnds rest)
    (denotes : numberValue text = .ok v)
    (fuel : Nat) :
    value input (fuel + 1) (text ++ rest) = .ok (v, rest) := by
  have parsed := number_append input shape ends denotes
  obtain ⟨c, cs, rfl, first⟩ := shape.head
  have other :
      c ≠ '{' ∧ c ≠ '[' ∧ c ≠ '"' ∧ c ≠ 't' ∧ c ≠ 'f' ∧ c ≠ 'n' := by
    rcases first with digit | rfl
    · refine ⟨?_, ?_, ?_, ?_, ?_, ?_⟩ <;>
      · rintro rfl
        simp at digit
    · decide
  obtain ⟨brace, bracket, quote, letterT, letterF, letterN⟩ := other
  simp only [List.cons_append] at parsed ⊢
  unfold value
  split <;> simp_all

/-- A value that starts like a literal is parsed as that literal. -/
theorem value_literal [F64Ops]
    (input rest : List Char)
    (fuel : Nat) :
    value input (fuel + 1) ("null".toList ++ rest) = .ok (.null, rest) ∧
      value input (fuel + 1) ("true".toList ++ rest) = .ok (.bool true, rest) ∧
      value input (fuel + 1) ("false".toList ++ rest) =
        .ok (.bool false, rest) := by
  refine ⟨?_, ?_, ?_⟩ <;> simp [value, literal, stripPrefixChars]

/-- What follows an item of an array does not continue a number. -/
theorem numberEnds_afterItem [F64Ops]
    (indent : Option Nat)
    (depth : Nat)
    (items : List Json)
    (rest : List Char) :
    NumberEnds
      (writeItems indent depth items ++ newline indent depth ++
        ']' :: rest) := by
  cases items with
  | nil =>
      cases indent <;> simp [NumberEnds, writeItems, newline, isNumberChar]
  | cons item items =>
      simp [NumberEnds, writeItems, isNumberChar]

/-- What follows a member of an object does not continue a number. -/
theorem numberEnds_afterMember [F64Ops]
    (indent : Option Nat)
    (depth : Nat)
    (members : List (String × Json))
    (rest : List Char) :
    NumberEnds
      (writeMembers indent depth members ++ newline indent depth ++
        '}' :: rest) := by
  cases members with
  | nil =>
      cases indent <;> simp [NumberEnds, writeMembers, newline, isNumberChar]
  | cons member members =>
      simp [NumberEnds, writeMembers, isNumberChar]

/-- One round of the loop of `Parser::object` on a printed member. -/
theorem objectLoop_member [F64Ops]
    (input : List Char)
    (indent : Option Nat)
    {key : String}
    {v : Json}
    {fuel : Nat}
    {text valueText after : List Char}
    (shape :
      ws text =
        escape key ++ ':' ::
          ((if indent.isSome then [' '] else []) ++ valueText))
    (stays : ws valueText = valueText)
    (parsed : value input fuel valueText = .ok (v, after)) :
    objectLoop input (fuel + 1) text =
      match ws after with
      | ',' :: rest => do
          let (members, rest') ← objectLoop input fuel rest
          return ((key, v) :: members, rest')
      | '}' :: rest => .ok ([(key, v)], rest)
      | other => err input other "expected ',' or '\x7d'" := by
  have keyRead :=
    string_escape input key
      (':' :: ((if indent.isSome then [' '] else []) ++ valueText))
  have colon :
      ws (':' :: ((if indent.isSome then [' '] else []) ++ valueText)) =
        ':' :: ((if indent.isSome then [' '] else []) ++ valueText) :=
    ws_cons_of_notBlank (by decide)
  simp only [escape, List.cons_append] at shape keyRead
  have unfolded := objectLoop.eq_def input (fuel + 1) text
  simp only [shape, keyRead, Result.ok_bind, colon, ws_afterColon, stays,
    parsed] at unfolded
  exact unfolded

private theorem value_write_float [F64Ops]
    (input : List Char)
    (indent : Option Nat)
    {f : F64}
    (depth fuel : Nat)
    {rest : List Char}
    (readable : Readable f)
    (ends : NumberEnds rest) :
    value input (fuel + 1) ((Json.float f).write indent depth ++ rest) =
      .ok ((Json.float f).reread, rest) := by
  obtain ⟨v, denotes⟩ := readable.denotes
  simpa [write, reread, readable.finite, denotes] using
    value_of_numberShape input readable.shape ends denotes fuel

private theorem value_write_str [F64Ops]
    (input : List Char)
    (indent : Option Nat)
    (s : String)
    (depth fuel : Nat)
    (rest : List Char) :
    value input (fuel + 1) ((Json.str s).write indent depth ++ rest) =
      .ok (.str s, rest) := by
  have parsed := string_escape input s rest
  simp only [write]
  simp only [escape, List.cons_append] at parsed ⊢
  unfold value
  simp only [parsed, Result.ok_bind, Result.pure_eq_ok]

/-- An array is read when its items are: the first item is no closing
bracket. -/
private theorem value_write_arr [F64Ops]
    (input : List Char)
    (indent : Option Nat)
    {first : Json}
    {items : List Json}
    {depth fuel : Nat}
    {rest : List Char}
    (readable : first.FloatsReadable)
    (loop :
      arrayLoop input fuel
        (first.write indent (depth + 1) ++
          (writeItems indent depth items ++ newline indent depth ++
            ']' :: rest)) =
        .ok (first.reread :: rereadItems items, rest)) :
    value input (fuel + 1)
        ((Json.arr (first :: items)).write indent depth ++ rest) =
      .ok ((Json.arr (first :: items)).reread, rest) := by
  obtain ⟨c, cs, shape, start⟩ := write_head indent (depth + 1) readable
  have skipped :=
    ws_write indent (depth + 1) readable
      (writeItems indent depth items ++ newline indent depth ++ ']' :: rest)
  have entered :
      ws (newline indent (depth + 1) ++ first.write indent (depth + 1) ++
          writeItems indent depth items ++ newline indent depth ++
          ']' :: rest) =
        first.write indent (depth + 1) ++
          (writeItems indent depth items ++ newline indent depth ++
            ']' :: rest) := by
    simpa [List.append_assoc] using skipped
  simp only [write, reread, rereadItems, List.cons_append,
    List.append_assoc, List.nil_append] at entered loop ⊢
  unfold value
  simp only [entered]
  rw [shape] at loop ⊢
  simp only [List.cons_append] at loop ⊢
  split
  · rename_i other same
    simp only [List.cons.injEq] at same
    exact (start.notBlank.2 same.1).elim
  · simp [loop]

private theorem ws_escape
    (key : String)
    (tail : List Char) :
    ws (escape key ++ tail) = escape key ++ tail :=
  ws_cons_of_notBlank (by decide)

/-- An object is read when its members are. -/
private theorem value_write_obj [F64Ops]
    (input : List Char)
    (indent : Option Nat)
    {key : String}
    {first : Json}
    {members : List (String × Json)}
    {depth fuel : Nat}
    {rest : List Char}
    (loop :
      objectLoop input fuel
        (escape key ++ ':' :: ((if indent.isSome then [' '] else []) ++
          (first.write indent (depth + 1) ++
            (writeMembers indent depth members ++ newline indent depth ++
              '}' :: rest)))) =
        .ok ((key, first.reread) :: rereadMembers members, rest)) :
    value input (fuel + 1)
        ((Json.obj ((key, first) :: members)).write indent depth ++ rest) =
      .ok ((Json.obj ((key, first) :: members)).reread, rest) := by
  simp only [write, reread, rereadMembers, List.cons_append,
    List.append_assoc, List.nil_append] at loop ⊢
  unfold value
  simp only [ws_newline, ws_escape]
  simp only [escape, List.cons_append] at loop ⊢
  simp only [loop, Result.ok_bind, Result.pure_eq_ok]
  rfl

mutual

/--
`Parser::value` inverts `write`.  Twice the length of the text bounds the
recursion, because every call consumes a character or enters a loop.
-/
theorem value_write [F64Ops]
    (input : List Char)
    (indent : Option Nat) :
    ∀ (v : Json) (depth fuel : Nat) (rest : List Char),
      v.FloatsReadable →
      NumberEnds rest →
      2 * (v.write indent depth).length ≤ fuel →
      value input fuel (v.write indent depth ++ rest) = .ok (v.reread, rest)
  | .null, depth, fuel, rest, _, _, enough => by
      obtain ⟨fuel, rfl⟩ : ∃ n, fuel = n + 1 :=
        ⟨fuel - 1, by simp [write] at enough; omega⟩
      simpa [write, reread] using (value_literal input rest fuel).1
  | .bool true, depth, fuel, rest, _, _, enough => by
      obtain ⟨fuel, rfl⟩ : ∃ n, fuel = n + 1 :=
        ⟨fuel - 1, by simp [write] at enough; omega⟩
      simpa [write, reread] using (value_literal input rest fuel).2.1
  | .bool false, depth, fuel, rest, _, _, enough => by
      obtain ⟨fuel, rfl⟩ : ∃ n, fuel = n + 1 :=
        ⟨fuel - 1, by simp [write] at enough; omega⟩
      simpa [write, reread] using (value_literal input rest fuel).2.2
  | .int i, depth, fuel, rest, readable, ends, enough => by
      have nonempty := length_write_pos indent depth readable
      obtain ⟨fuel, rfl⟩ : ∃ n, fuel = n + 1 := ⟨fuel - 1, by omega⟩
      simpa [write, reread] using
        value_of_numberShape input (numberShape_intText i) ends
          (numberValue_intText i) fuel
  | .float f, depth, fuel, rest, readable, ends, enough => by
      have nonempty := length_write_pos indent depth readable
      obtain ⟨fuel, rfl⟩ : ∃ n, fuel = n + 1 := ⟨fuel - 1, by omega⟩
      have readsBack : Readable f := by
        simpa [FloatsReadable] using readable
      exact value_write_float input indent depth fuel readsBack ends
  | .str s, depth, fuel, rest, readable, _, enough => by
      have nonempty := length_write_pos indent depth readable
      obtain ⟨fuel, rfl⟩ : ∃ n, fuel = n + 1 := ⟨fuel - 1, by omega⟩
      exact value_write_str input indent s depth fuel rest
  | .arr [], depth, fuel, rest, _, _, enough => by
      obtain ⟨fuel, rfl⟩ : ∃ n, fuel = n + 1 :=
        ⟨fuel - 1, by simp [write] at enough; omega⟩
      simp [write, reread, rereadItems, value, ws]
  | .arr (first :: items), depth, fuel, rest, readable, _, enough => by
      obtain ⟨fuel, rfl⟩ : ∃ n, fuel = n + 1 :=
        ⟨fuel - 1, by simp [write] at enough; omega⟩
      have readables : first.FloatsReadable ∧ ItemsReadable items := by
        simpa [FloatsReadable, ItemsReadable] using readable
      have skipped :=
        ws_write indent (depth + 1) readables.1
          (writeItems indent depth items ++ newline indent depth ++ ']' :: rest)
      have loop :=
        arrayLoop_write input indent first items depth fuel rest
          (first.write indent (depth + 1) ++
            (writeItems indent depth items ++ newline indent depth ++
              ']' :: rest))
          readables.1 readables.2 skipped
          (by
            simp only [write, List.length_append, List.length_cons,
              List.length_nil] at enough
            omega)
      exact value_write_arr input indent readables.1 loop
  | .obj [], depth, fuel, rest, _, _, enough => by
      obtain ⟨fuel, rfl⟩ : ∃ n, fuel = n + 1 :=
        ⟨fuel - 1, by simp [write] at enough; omega⟩
      simp [write, reread, rereadMembers, value, ws]
  | .obj ((key, first) :: members), depth, fuel, rest, readable, _, enough => by
      obtain ⟨fuel, rfl⟩ : ∃ n, fuel = n + 1 :=
        ⟨fuel - 1, by simp [write] at enough; omega⟩
      have readables : first.FloatsReadable ∧ MembersReadable members := by
        simpa [FloatsReadable, MembersReadable] using readable
      have loop :=
        objectLoop_write input indent key first members depth fuel rest
          (escape key ++ ':' :: ((if indent.isSome then [' '] else []) ++
            (first.write indent (depth + 1) ++
              (writeMembers indent depth members ++ newline indent depth ++
                '}' :: rest))))
          readables.1 readables.2 (ws_escape key _)
          (by
            simp only [write, List.length_append, List.length_cons,
              List.length_nil] at enough
            omega)
      exact value_write_obj input indent loop
termination_by _ _ fuel => fuel

/-- The loop of `Parser::array` inverts the items of an array. -/
theorem arrayLoop_write [F64Ops]
    (input : List Char)
    (indent : Option Nat) :
    ∀ (v : Json) (items : List Json) (depth fuel : Nat)
      (rest text : List Char),
      v.FloatsReadable →
      ItemsReadable items →
      ws text =
        v.write indent (depth + 1) ++
          (writeItems indent depth items ++ newline indent depth ++
            ']' :: rest) →
      2 * ((v.write indent (depth + 1)).length +
          (writeItems indent depth items).length) < fuel →
      arrayLoop input fuel text =
        .ok (v.reread :: rereadItems items, rest)
  | v, [], depth, fuel, rest, text, readable, _, shape, enough => by
      obtain ⟨fuel, rfl⟩ : ∃ n, fuel = n + 1 := ⟨fuel - 1, by omega⟩
      have parsed :=
        value_write input indent v (depth + 1) fuel _ readable
          (numberEnds_afterItem indent depth [] rest) (by omega)
      have closed :
          ws (writeItems indent depth [] ++ newline indent depth ++
              ']' :: rest) = ']' :: rest := by
        rw [writeItems, List.nil_append, ws_newline]
        exact ws_cons_of_notBlank (by decide)
      unfold arrayLoop
      simp only [shape, parsed, Result.ok_bind, closed, rereadItems]
  | v, item :: items, depth, fuel, rest, text, readable, itemsReadable, shape,
      enough => by
      obtain ⟨fuel, rfl⟩ : ∃ n, fuel = n + 1 := ⟨fuel - 1, by omega⟩
      have readables : item.FloatsReadable ∧ ItemsReadable items := by
        simpa [ItemsReadable] using itemsReadable
      have nonempty := length_write_pos indent (depth + 1) readable
      have parsed :=
        value_write input indent v (depth + 1) fuel _ readable
          (numberEnds_afterItem indent depth (item :: items) rest) (by omega)
      have skipped :=
        ws_write indent (depth + 1) readables.1
          (writeItems indent depth items ++ newline indent depth ++ ']' :: rest)
      have loop :=
        arrayLoop_write input indent item items depth fuel rest
          (newline indent (depth + 1) ++ (item.write indent (depth + 1) ++
            (writeItems indent depth items ++ newline indent depth ++
              ']' :: rest)))
          readables.1 readables.2
          (by rw [ws_newline, skipped])
          (by
            simp only [writeItems, List.length_append,
              List.length_cons] at enough
            omega)
      have comma :
          ws (writeItems indent depth (item :: items) ++
              newline indent depth ++ ']' :: rest) =
            ',' :: (newline indent (depth + 1) ++
              (item.write indent (depth + 1) ++
                (writeItems indent depth items ++ newline indent depth ++
                  ']' :: rest))) := by
        simp only [writeItems, List.cons_append, List.append_assoc]
        exact ws_cons_of_notBlank (by decide)
      unfold arrayLoop
      simp only [shape, parsed, Result.ok_bind, comma, loop,
        Result.pure_eq_ok, rereadItems]
termination_by _ _ _ fuel => fuel

/-- The loop of `Parser::object` inverts the members of an object. -/
theorem objectLoop_write [F64Ops]
    (input : List Char)
    (indent : Option Nat) :
    ∀ (key : String) (v : Json) (members : List (String × Json))
      (depth fuel : Nat) (rest text : List Char),
      v.FloatsReadable →
      MembersReadable members →
      ws text =
        escape key ++ ':' :: ((if indent.isSome then [' '] else []) ++
          (v.write indent (depth + 1) ++
            (writeMembers indent depth members ++ newline indent depth ++
              '}' :: rest))) →
      2 * ((v.write indent (depth + 1)).length +
          (writeMembers indent depth members).length) < fuel →
      objectLoop input fuel text =
        .ok ((key, v.reread) :: rereadMembers members, rest)
  | key, v, [], depth, fuel, rest, text, readable, _, shape, enough => by
      obtain ⟨fuel, rfl⟩ : ∃ n, fuel = n + 1 := ⟨fuel - 1, by omega⟩
      have parsed :=
        value_write input indent v (depth + 1) fuel _ readable
          (numberEnds_afterMember indent depth [] rest) (by omega)
      have closed :
          ws (writeMembers indent depth [] ++ newline indent depth ++
              '}' :: rest) = '}' :: rest := by
        rw [writeMembers, List.nil_append, ws_newline]
        exact ws_cons_of_notBlank (by decide)
      rw [objectLoop_member input indent shape
        (ws_write indent (depth + 1) readable _) parsed]
      simp only [closed, rereadMembers]
  | key, v, (nextKey, next) :: members, depth, fuel, rest, text, readable,
      membersReadable, shape, enough => by
      obtain ⟨fuel, rfl⟩ : ∃ n, fuel = n + 1 := ⟨fuel - 1, by omega⟩
      have readables : next.FloatsReadable ∧ MembersReadable members := by
        simpa [MembersReadable] using membersReadable
      have nonempty := length_write_pos indent (depth + 1) readable
      have parsed :=
        value_write input indent v (depth + 1) fuel _ readable
          (numberEnds_afterMember indent depth ((nextKey, next) :: members)
            rest)
          (by omega)
      have loop :=
        objectLoop_write input indent nextKey next members depth fuel rest
          (newline indent (depth + 1) ++ (escape nextKey ++
            ':' :: ((if indent.isSome then [' '] else []) ++
              (next.write indent (depth + 1) ++
                (writeMembers indent depth members ++ newline indent depth ++
                  '}' :: rest)))))
          readables.1 readables.2
          (by rw [ws_newline, ws_escape])
          (by
            simp only [writeMembers, List.length_append,
              List.length_cons] at enough
            omega)
      have comma :
          ws (writeMembers indent depth ((nextKey, next) :: members) ++
              newline indent depth ++ '}' :: rest) =
            ',' :: (newline indent (depth + 1) ++ (escape nextKey ++
              ':' :: ((if indent.isSome then [' '] else []) ++
                (next.write indent (depth + 1) ++
                  (writeMembers indent depth members ++
                    newline indent depth ++ '}' :: rest))))) := by
        simp only [writeMembers, List.cons_append, List.append_assoc]
        exact ws_cons_of_notBlank (by decide)
      rw [objectLoop_member input indent shape
        (ws_write indent (depth + 1) readable _) parsed]
      simp only [comma, loop, Result.ok_bind, Result.pure_eq_ok,
        rereadMembers]
termination_by _ _ _ _ fuel => fuel

end

end JsonParser

/-! ## Documents -/

/-- Parsing the text of a value returns the value as it is reread. -/
theorem parseJson_write [F64Ops]
    (indent : Option Nat)
    {v : Json}
    (readable : v.FloatsReadable) :
    parseJson (String.ofList (v.write indent 0)) = .ok v.reread := by
  have stays := Json.ws_write indent 0 readable []
  have parsed :=
    JsonParser.value_write (v.write indent 0) indent v 0
      (2 * (v.write indent 0).length + 2) [] readable
      JsonParser.numberEnds_nil (by omega)
  simp only [List.append_nil] at stays parsed
  simp only [parseJson, String.toList_ofList, stays, parsed, Result.ok_bind,
    JsonParser.ws, Result.pure_eq_ok]

/-- Parsing inverts `Json::to_string`. -/
theorem parseJson_toText [F64Ops]
    {v : Json}
    (readable : v.FloatsReadable) :
    parseJson v.toText = .ok v.reread :=
  parseJson_write none readable

/-- Parsing inverts `Json::to_string_pretty`. -/
theorem parseJson_toStringPretty [F64Ops]
    {v : Json}
    (readable : v.FloatsReadable) :
    parseJson v.toStringPretty = .ok v.reread :=
  parseJson_write (some 2) readable

namespace Json

mutual

/-- A tree without floating point numbers. -/
def FloatFree : Json → Prop
  | float _ => False
  | arr items => ItemsFloatFree items
  | obj members => MembersFloatFree members
  | _ => True

/-- `FloatFree` for the items of an array. -/
def ItemsFloatFree : List Json → Prop
  | [] => True
  | item :: rest => item.FloatFree ∧ ItemsFloatFree rest

/-- `FloatFree` for the members of an object. -/
def MembersFloatFree : List (String × Json) → Prop
  | [] => True
  | (_, value) :: rest => value.FloatFree ∧ MembersFloatFree rest

end

mutual

/-- A tree without floats is readable, and rereading does not change it. -/
theorem FloatFree.reread [F64Ops] :
    ∀ {v : Json}, v.FloatFree → v.FloatsReadable ∧ v.reread = v
  | .null, _ => by simp [FloatsReadable, Json.reread]
  | .bool _, _ => by simp [FloatsReadable, Json.reread]
  | .int _, _ => by simp [FloatsReadable, Json.reread]
  | .float _, free => by simp [FloatFree] at free
  | .str _, _ => by simp [FloatsReadable, Json.reread]
  | .arr items, free => by
      have itemsFree : ItemsFloatFree items := by
        simpa [FloatFree] using free
      have ⟨readable, same⟩ := itemsFloatFree_reread itemsFree
      exact ⟨by simpa [FloatsReadable] using readable,
        by simp [Json.reread, same]⟩
  | .obj members, free => by
      have membersFree : MembersFloatFree members := by
        simpa [FloatFree] using free
      have ⟨readable, same⟩ := membersFloatFree_reread membersFree
      exact ⟨by simpa [FloatsReadable] using readable,
        by simp [Json.reread, same]⟩

theorem itemsFloatFree_reread [F64Ops] :
    ∀ {items : List Json}, ItemsFloatFree items →
      ItemsReadable items ∧ rereadItems items = items
  | [], _ => by simp [ItemsReadable, rereadItems]
  | item :: rest, free => by
      have ⟨itemFree, restFree⟩ : item.FloatFree ∧ ItemsFloatFree rest := by
        simpa [ItemsFloatFree] using free
      have ⟨itemReadable, itemSame⟩ := itemFree.reread
      have ⟨restReadable, restSame⟩ := itemsFloatFree_reread restFree
      exact ⟨by simpa [ItemsReadable] using ⟨itemReadable, restReadable⟩,
        by simp [rereadItems, itemSame, restSame]⟩

private theorem membersFloatFree_reread [F64Ops] :
    ∀ {members : List (String × Json)}, MembersFloatFree members →
      MembersReadable members ∧ rereadMembers members = members
  | [], _ => by simp [MembersReadable, rereadMembers]
  | (key, value) :: rest, free => by
      have ⟨valueFree, restFree⟩ :
          value.FloatFree ∧ MembersFloatFree rest := by
        simpa [MembersFloatFree] using free
      have ⟨valueReadable, valueSame⟩ := valueFree.reread
      have ⟨restReadable, restSame⟩ := membersFloatFree_reread restFree
      exact ⟨by simpa [MembersReadable] using ⟨valueReadable, restReadable⟩,
        by simp [rereadMembers, valueSame, restSame]⟩

end

/-- A tree without floats is printed, in either form, so that it is read back. -/
theorem print_then_parse [F64Ops]
    {v : Json}
    (free : v.FloatFree) :
    parseJson v.toText = .ok v ∧ parseJson v.toStringPretty = .ok v := by
  obtain ⟨readable, same⟩ := free.reread
  constructor
  · rw [parseJson_toText readable, same]
  · rw [parseJson_toStringPretty readable, same]

/-- A tree with a repeated key, a control character and the smallest integer. -/
def sampleTree : Json :=
  .obj [
    ("k", .arr [.int Int64.minValue, .null, .str "é\u0001\"", .arr []]),
    ("k", .obj []),
    ("", .bool true)]

theorem sampleTree_printed :
    @parseJson unitOps (@toText unitOps sampleTree) = .ok sampleTree ∧
      @parseJson unitOps (@toStringPretty unitOps sampleTree) =
        .ok sampleTree := by
  let _ := unitOps
  have free : sampleTree.FloatFree := by
    simp [sampleTree, FloatFree, ItemsFloatFree, MembersFloatFree]
  exact print_then_parse free

end Json

end Myrun
