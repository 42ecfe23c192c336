import Myrun.JsonRoundTrip

namespace Myrun

/-!
# The JSON grammar

The documents of RFC 8259 whose numbers are integers of 64 bits without
fraction and exponent, with the tree each one denotes.  The grammar is stated on
its own, with white space wherever the RFC allows it and every form of escape.

A character outside the basic plane may be written as a surrogate pair, two
`\u` escapes in a row.  The parser decodes one escape at a time and reads each
half as a replacement character, so a document is read as the tree it denotes
exactly when no character is written that way.  `Phrase` counts those that are.
-/

namespace JsonGrammar

/-- White space between tokens. -/
def Blank (text : List Char) : Prop :=
  ∀ c ∈ text, c = ' ' ∨ c = '\t' ∨ c = '\n' ∨ c = '\r'

/-- The digits of an integer: no leading zero. -/
structure Digits (text : List Char) : Prop where
  nonempty : text ≠ []
  digits : ∀ c ∈ text, c.isDigit = true
  noLeadingZero : text.head? = some '0' → text = ['0']

/-- The text of an integer in the 64-bit range. -/
inductive Number : List Char → Int64 → Prop where
  | natural
      {text : List Char}
      {i : Int64}
      (digits : Digits text)
      (denotes : i.toInt = (Nat.ofDigitChars 10 text 0 : Nat)) :
      Number text i
  | negative
      {text : List Char}
      {i : Int64}
      (digits : Digits text)
      (denotes : i.toInt = -(Nat.ofDigitChars 10 text 0 : Nat)) :
      Number ('-' :: text) i

/-- The value of a hexadecimal digit. -/
def hexValue (c : Char) : Option Nat :=
  if c.isDigit then some (c.toNat - '0'.toNat)
  else if 'a' ≤ c ∧ c ≤ 'f' then some (c.toNat - 'a'.toNat + 10)
  else if 'A' ≤ c ∧ c ≤ 'F' then some (c.toNat - 'A'.toNat + 10)
  else none

/-- Four hexadecimal digits. -/
inductive Hex4 : List Char → Nat → Prop where
  | mk
      {a b c d : Char}
      {i j k l : Nat}
      (first : hexValue a = some i)
      (second : hexValue b = some j)
      (third : hexValue c = some k)
      (fourth : hexValue d = some l) :
      Hex4 [a, b, c, d] (4096 * i + 256 * j + 16 * k + l)

/-- The escapes of one character after the backslash. -/
def shortEscape : Char → Option Char
  | '"' => some '"'
  | '\\' => some '\\'
  | '/' => some '/'
  | 'b' => some (Char.ofNat 0x08)
  | 'f' => some (Char.ofNat 0x0c)
  | 'n' => some '\n'
  | 'r' => some '\r'
  | 't' => some '\t'
  | _ => none

/-- The text between the quotes of a string, the characters it denotes and the
number of surrogate pairs in it. -/
inductive Chars : List Char → List Char → Nat → Prop where
  | nil :
      Chars [] [] 0
  | plain
      {c : Char}
      {text chars : List Char}
      {pairs : Nat}
      (notQuote : c ≠ '"')
      (notBackslash : c ≠ '\\')
      (printable : 0x20 ≤ c.toNat)
      (rest : Chars text chars pairs) :
      Chars (c :: text) (c :: chars) pairs
  | short
      {e c : Char}
      {text chars : List Char}
      {pairs : Nat}
      (denotes : shortEscape e = some c)
      (rest : Chars text chars pairs) :
      Chars ('\\' :: e :: text) (c :: chars) pairs
  | unicode
      {c : Char}
      {hex text chars : List Char}
      {pairs : Nat}
      (denotes : Hex4 hex c.toNat)
      (rest : Chars text chars pairs) :
      Chars ('\\' :: 'u' :: (hex ++ text)) (c :: chars) pairs
  | surrogates
      {c : Char}
      {high low : Nat}
      {first second text chars : List Char}
      {pairs : Nat}
      (firstHalf : Hex4 first high)
      (secondHalf : Hex4 second low)
      (isHigh : 0xD800 ≤ high ∧ high < 0xDC00)
      (isLow : 0xDC00 ≤ low ∧ low < 0xE000)
      (denotes : c.toNat =
        0x10000 + (high - 0xD800) * 0x400 + (low - 0xDC00))
      (rest : Chars text chars pairs) :
      Chars ('\\' :: 'u' :: (first ++ '\\' :: 'u' :: (second ++ text)))
        (c :: chars) (pairs + 1)

/-- What a phrase denotes. -/
inductive Meaning where
  | value (v : Json)
  | items (vs : List Json)
  | members (ms : List (String × Json))

/-- The quoted form of a string. -/
def quoted (text : List Char) : List Char :=
  '"' :: (text ++ ['"'])

/-- A value, the items of an array or the members of an object; at least one
item or member.  The last index counts the surrogate pairs. -/
inductive Phrase : List Char → Meaning → Nat → Prop where
  | null :
      Phrase "null".toList (.value .null) 0
  | true :
      Phrase "true".toList (.value (.bool true)) 0
  | false :
      Phrase "false".toList (.value (.bool false)) 0
  | int
      {text : List Char}
      {i : Int64}
      (number : Number text i) :
      Phrase text (.value (.int i)) 0
  | str
      {text chars : List Char}
      {pairs : Nat}
      (contents : Chars text chars pairs) :
      Phrase (quoted text) (.value (.str (String.ofList chars))) pairs
  | emptyArray
      {blank : List Char}
      (isBlank : Blank blank) :
      Phrase ('[' :: (blank ++ [']'])) (.value (.arr [])) 0
  | array
      {text : List Char}
      {items : List Json}
      {pairs : Nat}
      (contents : Phrase text (.items items) pairs) :
      Phrase ('[' :: (text ++ [']'])) (.value (.arr items)) pairs
  | emptyObject
      {blank : List Char}
      (isBlank : Blank blank) :
      Phrase ('{' :: (blank ++ ['}'])) (.value (.obj [])) 0
  | object
      {text : List Char}
      {members : List (String × Json)}
      {pairs : Nat}
      (contents : Phrase text (.members members) pairs) :
      Phrase ('{' :: (text ++ ['}'])) (.value (.obj members)) pairs
  | lastItem
      {before text after : List Char}
      {v : Json}
      {pairs : Nat}
      (blankBefore : Blank before)
      (item : Phrase text (.value v) pairs)
      (blankAfter : Blank after) :
      Phrase (before ++ (text ++ after)) (.items [v]) pairs
  | item
      {before text after others : List Char}
      {v : Json}
      {vs : List Json}
      {pairs morePairs : Nat}
      (blankBefore : Blank before)
      (item : Phrase text (.value v) pairs)
      (blankAfter : Blank after)
      (rest : Phrase others (.items vs) morePairs) :
      Phrase (before ++ (text ++ (after ++ ',' :: others))) (.items (v :: vs))
        (pairs + morePairs)
  | lastMember
      {before key between colon text after chars : List Char}
      {v : Json}
      {keyPairs pairs : Nat}
      (blankBefore : Blank before)
      (name : Chars key chars keyPairs)
      (blankBetween : Blank between)
      (blankColon : Blank colon)
      (member : Phrase text (.value v) pairs)
      (blankAfter : Blank after) :
      Phrase (before ++ (quoted key ++ (between ++ ':' ::
        (colon ++ (text ++ after)))))
        (.members [(String.ofList chars, v)]) (keyPairs + pairs)
  | member
      {before key between colon text after others chars : List Char}
      {v : Json}
      {ms : List (String × Json)}
      {keyPairs pairs morePairs : Nat}
      (blankBefore : Blank before)
      (name : Chars key chars keyPairs)
      (blankBetween : Blank between)
      (blankColon : Blank colon)
      (member : Phrase text (.value v) pairs)
      (blankAfter : Blank after)
      (rest : Phrase others (.members ms) morePairs) :
      Phrase (before ++ (quoted key ++ (between ++ ':' ::
        (colon ++ (text ++ (after ++ ',' :: others))))))
        (.members ((String.ofList chars, v) :: ms))
        (keyPairs + pairs + morePairs)

/-- A document: a value with white space around it. -/
inductive Document : String → Json → Nat → Prop where
  | mk
      {before text after : List Char}
      {v : Json}
      {pairs : Nat}
      (blankBefore : Blank before)
      (phrase : Phrase text (.value v) pairs)
      (blankAfter : Blank after) :
      Document (String.ofList (before ++ (text ++ after))) v pairs

open JsonParser

/-! ## White space -/

private theorem Blank.ws_append
    {blank : List Char}
    (isBlank : Blank blank)
    (rest : List Char) :
    ws (blank ++ rest) = ws rest := by
  induction blank with
  | nil =>
      rfl
  | cons c tail inductionHypothesis =>
      have head := isBlank c List.mem_cons_self
      have tailBlank : Blank tail :=
        fun d member => isBlank d (List.mem_cons_of_mem c member)
      simp only [List.cons_append, ws, head, ↓reduceIte]
      exact inductionHypothesis tailBlank

private theorem ws_ws (text : List Char) : ws (ws text) = ws text := by
  induction text with
  | nil =>
      rfl
  | cons c tail inductionHypothesis =>
      by_cases blank : c = ' ' ∨ c = '\t' ∨ c = '\n' ∨ c = '\r'
      · simpa only [ws, blank, ↓reduceIte] using inductionHypothesis
      · simp only [ws, blank, ↓reduceIte]

private theorem Blank.numberEnds
    {blank : List Char}
    (isBlank : Blank blank)
    {rest : List Char}
    (ends : NumberEnds rest) :
    NumberEnds (blank ++ rest) := by
  cases blank with
  | nil =>
      exact ends
  | cons c tail =>
      refine numberEnds_cons _ ?_
      rcases isBlank c List.mem_cons_self with rfl | rfl | rfl | rfl
      all_goals rfl

private theorem arrayLoop_ws [F64Ops] (input : List Char) (fuel : Nat)
    (text : List Char) :
    arrayLoop input fuel (ws text) = arrayLoop input fuel text ∨ fuel = 0 := by
  cases fuel with
  | zero =>
      exact .inr rfl
  | succ fuel =>
      left
      unfold arrayLoop
      rw [ws_ws]

private theorem objectLoop_ws [F64Ops] (input : List Char) (fuel : Nat)
    (text : List Char) :
    objectLoop input fuel (ws text) = objectLoop input fuel text ∨ fuel = 0 := by
  cases fuel with
  | zero =>
      exact .inr rfl
  | succ fuel =>
      left
      unfold objectLoop
      rw [ws_ws]

/-! ## Numbers -/

private theorem Digits.head
    {text : List Char}
    (digits : Digits text) :
    ∃ c cs, text = c :: cs ∧ c.isDigit = true := by
  cases text with
  | nil =>
      exact (digits.nonempty rfl).elim
  | cons c cs =>
      exact ⟨c, cs, rfl, digits.digits c List.mem_cons_self⟩

private theorem Digits.parseDigits
    {text : List Char}
    (digits : Digits text) :
    parseDigits text = some (Nat.ofDigitChars 10 text 0) := by
  have nonempty : text.isEmpty = false := by
    simpa using digits.nonempty
  have all : text.all Char.isDigit = true :=
    List.all_eq_true.mpr digits.digits
  simp [Myrun.parseDigits, nonempty, all]

private theorem Digits.not_float
    {text : List Char}
    (digits : Digits text) :
    text.any isFloatChar = false := by
  rw [List.any_eq_false]
  intro c member
  simp [isFloatChar_of_isDigit (digits.digits c member)]

private theorem Number.shape
    {text : List Char}
    {i : Int64}
    (number : Number text i) :
    NumberShape text := by
  cases number with
  | natural digits _ =>
      obtain ⟨c, cs, shape, digit⟩ := digits.head
      refine ⟨⟨c, cs, shape, .inl digit⟩, ?_⟩
      intro d member
      simp [isNumberChar, digits.digits d member]
  | negative digits _ =>
      refine ⟨⟨'-', _, rfl, .inr rfl⟩, ?_⟩
      intro d member
      rcases List.mem_cons.mp member with rfl | inDigits
      · decide
      · simp [isNumberChar, digits.digits d inDigits]

private theorem Number.numberValue [F64Ops]
    {text : List Char}
    {i : Int64}
    (number : Number text i) :
    numberValue text = .ok (.int i) := by
  have lower := i.le_toInt
  have upper := i.toInt_lt
  cases number with
  | natural digits denotes =>
      obtain ⟨c, cs, shape, digit⟩ := digits.head
      have notMinus : c ≠ '-' := by
        rintro rfl
        simp at digit
      have notPlus : c ≠ '+' := by
        rintro rfl
        simp at digit
      have integral : looksFloat text = false := by
        have none := digits.not_float
        subst shape
        unfold looksFloat
        split
        · rename_i same
          exact (notMinus (List.cons.inj same).1).elim
        · rename_i same
          exact (notPlus (List.cons.inj same).1).elim
        · exact none
      have parsed : parseI64Chars text = some i := by
        have inRange : Nat.ofDigitChars 10 text 0 ≤ 2 ^ 63 - 1 := by
          omega
        have read : parseUnsigned (2 ^ 63 - 1) text =
            some (Nat.ofDigitChars 10 text 0) := by
          have whole := digits.parseDigits
          subst shape
          unfold parseUnsigned
          split
          · rename_i same
            exact (notPlus (List.cons.inj same).1).elim
          · simp only [whole, Option.filter_some, inRange, decide_true,
              ↓reduceIte]
        subst shape
        unfold parseI64Chars
        split
        · rename_i same
          exact (notMinus (List.cons.inj same).1).elim
        · rw [read]
          simp only [Option.map_some, ← denotes, Int64.ofInt_toInt]
      simp [JsonParser.numberValue, integral, parsed]
  | @negative digitsText i digits denotes =>
      have integral : looksFloat ('-' :: digitsText) = false := by
        simpa [looksFloat] using digits.not_float
      have parsed : parseI64Chars ('-' :: digitsText) = some i := by
        have inRange : Nat.ofDigitChars 10 digitsText 0 ≤ 2 ^ 63 := by
          omega
        simp only [parseI64Chars, digits.parseDigits, Option.filter_some,
          inRange, decide_true, ↓reduceIte, Option.map_some, ← denotes,
          Int64.ofInt_toInt]
      simp [JsonParser.numberValue, integral, parsed]

/-! ## Strings -/

private theorem hexDigit_of_hexValue
    {c : Char}
    {n : Nat}
    (denotes : hexValue c = some n) :
    hexDigit c = some n ∧ c.utf8Size = 1 := by
  have size : c.toNat ≤ 127 → c.utf8Size = 1 := by
    intro small
    refine Char.utf8Size_eq_one_iff.mpr ?_
    exact UInt32.le_iff_toNat_le.mpr small
  have bounds : ∀ low high : Char, low ≤ c ∧ c ≤ high →
      low.toNat ≤ c.toNat ∧ c.toNat ≤ high.toNat := by
    intro low high ⟨above, below⟩
    exact ⟨UInt32.le_iff_toNat_le.mp above, UInt32.le_iff_toNat_le.mp below⟩
  unfold hexValue at denotes
  split at denotes
  · rename_i digit
    have range : '0' ≤ c ∧ c ≤ '9' := by
      simpa [Char.isDigit, Char.le_def] using digit
    have nums := bounds _ _ range
    refine ⟨?_, size (nums.2.trans (by decide))⟩
    simpa [hexDigit, range] using denotes
  · rename_i notDigit
    have notRange : ¬ ('0' ≤ c ∧ c ≤ '9') := by
      simpa [Char.isDigit, Char.le_def] using notDigit
    split at denotes
    · rename_i range
      have nums := bounds _ _ range
      refine ⟨?_, size (nums.2.trans (by decide))⟩
      have value : c.toNat - 97 + 10 = n := by
        simpa using denotes
      have low : 97 ≤ c.toNat := nums.1
      simp only [hexDigit, notRange, range, ↓reduceIte, and_self,
        Option.some.injEq]
      omega
    · rename_i notLower
      split at denotes
      · rename_i range
        have nums := bounds _ _ range
        refine ⟨?_, size (nums.2.trans (by decide))⟩
        have value : c.toNat - 65 + 10 = n := by
          simpa using denotes
        have low : 65 ≤ c.toNat := nums.1
        simp only [hexDigit, notRange, notLower, range, ↓reduceIte, and_self,
          Option.some.injEq]
        omega
      · simp at denotes

private theorem hexDigit_plus : hexDigit '+' = none := by
  decide

/-- A `\u` escape is read as its code point, or as a replacement character. -/
theorem escapeSequence_hex
    (input : List Char)
    {hex : List Char}
    {n : Nat}
    (denotes : Hex4 hex n)
    (rest : List Char) :
    escapeSequence input ('u' :: (hex ++ rest)) =
      .ok (charOrReplacement n, rest) := by
  cases denotes with
  | @mk a b c d i j k l first second third fourth =>
      obtain ⟨readA, sizeA⟩ := hexDigit_of_hexValue first
      obtain ⟨readB, sizeB⟩ := hexDigit_of_hexValue second
      obtain ⟨readC, sizeC⟩ := hexDigit_of_hexValue third
      obtain ⟨readD, sizeD⟩ := hexDigit_of_hexValue fourth
      have notPlus : a ≠ '+' := by
        rintro rfl
        rw [hexDigit_plus] at readA
        simp at readA
      have enough : ¬ utf8Len (a :: b :: c :: d :: rest) < 4 := by
        simp only [utf8Len, List.map_cons, List.sum_cons, sizeA, sizeB, sizeC,
          sizeD]
        omega
      have cut : takeBytes 4 (a :: b :: c :: d :: rest) =
          some ([a, b, c, d], rest) := by
        simp [takeBytes, sizeA, sizeB, sizeC, sizeD]
      have decoded : fromHex [a, b, c, d] =
          some (4096 * i + 256 * j + 16 * k + l) := by
        unfold fromHex
        split
        · rename_i same
          simp at same
        · rename_i same
          simp at same
        · rename_i same
          exact (notPlus (List.cons.inj same).1).elim
        · simp only [hexDigits, readA, readB, readC, readD, Option.some.injEq]
          omega
      simp [escapeSequence, enough, cut, decoded]

private theorem charOrReplacement_char (c : Char) : charOrReplacement c.toNat = c := by
  have valid : c.toNat.isValidChar := c.valid
  simp [charOrReplacement, valid, Char.ofNat_toNat]

private theorem escapeSequence_short
    (input : List Char)
    {e c : Char}
    (denotes : shortEscape e = some c)
    (rest : List Char) :
    escapeSequence input (e :: rest) = .ok (c, rest) := by
  unfold shortEscape at denotes
  split at denotes
  all_goals first
    | (obtain rfl := Option.some.inj denotes; simp [escapeSequence])
    | simp at denotes

/-- The text of a string is read up to its closing quote.  A surrogate pair
contributes two characters instead of one. -/
theorem Chars.stringBody
    {text chars : List Char}
    {pairs : Nat}
    (contents : Chars text chars pairs)
    (input rest : List Char)
    {fuel : Nat}
    (enough : text.length < fuel) :
    ∃ read, stringBody input fuel (text ++ '"' :: rest) = .ok (read, rest) ∧
      read.length = chars.length + pairs ∧ (pairs = 0 → read = chars) := by
  induction contents generalizing fuel with
  | nil =>
      obtain ⟨fuel, rfl⟩ : ∃ n, fuel = n + 1 :=
        ⟨fuel - 1, by simp at enough; omega⟩
      exact ⟨[], by simp [JsonParser.stringBody], rfl, fun _ => rfl⟩
  | @plain c text chars pairs notQuote notBackslash printable _
      inductionHypothesis =>
      obtain ⟨fuel, rfl⟩ : ∃ n, fuel = n + 1 :=
        ⟨fuel - 1, by simp at enough; omega⟩
      have shorter : text.length < fuel := by
        simp at enough
        omega
      obtain ⟨read, parsed, length, same⟩ := inductionHypothesis shorter
      refine ⟨c :: read, ?_, by simp [length]; omega,
        fun none => by rw [same none]⟩
      rw [List.cons_append, stringBody_raw input _ notQuote notBackslash
        (by omega), parsed]
      rfl
  | @short e c text chars pairs denotes _ inductionHypothesis =>
      obtain ⟨fuel, rfl⟩ : ∃ n, fuel = n + 1 :=
        ⟨fuel - 1, by simp at enough; omega⟩
      have shorter : text.length < fuel := by
        simp at enough
        omega
      obtain ⟨read, parsed, length, same⟩ := inductionHypothesis shorter
      refine ⟨c :: read, ?_, by simp [length]; omega,
        fun none => by rw [same none]⟩
      rw [List.cons_append, List.cons_append,
        stringBody_backslash (escapeSequence_short input denotes _), parsed]
      rfl
  | @unicode c hex text chars pairs denotes _ inductionHypothesis =>
      obtain ⟨fuel, rfl⟩ : ∃ n, fuel = n + 1 :=
        ⟨fuel - 1, by simp at enough; omega⟩
      have shorter : text.length < fuel := by
        simp at enough
        omega
      obtain ⟨read, parsed, length, same⟩ := inductionHypothesis shorter
      refine ⟨c :: read, ?_, by simp [length]; omega,
        fun none => by rw [same none]⟩
      rw [List.cons_append, List.cons_append, List.append_assoc,
        stringBody_backslash (escapeSequence_hex input denotes _), parsed,
        charOrReplacement_char]
      rfl
  | @surrogates c high low first second text chars pairs firstHalf secondHalf
      isHigh isLow denotes _ inductionHypothesis =>
      obtain ⟨fuel, rfl⟩ : ∃ n, fuel = n + 2 :=
        ⟨fuel - 2, by simp at enough; omega⟩
      have shorter : text.length < fuel := by
        simp at enough
        omega
      obtain ⟨read, parsed, length, same⟩ := inductionHypothesis shorter
      refine ⟨charOrReplacement high :: charOrReplacement low :: read, ?_,
        by simp [length]; omega, by simp⟩
      rw [List.cons_append, List.cons_append, List.append_assoc,
        stringBody_backslash (escapeSequence_hex input firstHalf _),
        List.cons_append, List.cons_append, List.append_assoc,
        stringBody_backslash (escapeSequence_hex input secondHalf _), parsed]
      rfl

private theorem Chars.string
    {text chars : List Char}
    {pairs : Nat}
    (contents : Chars text chars pairs)
    (input rest : List Char) :
    ∃ read, string input (quoted text ++ rest) =
        .ok (String.ofList read, rest) ∧
      read.length = chars.length + pairs ∧ (pairs = 0 → read = chars) := by
  have enough : text.length < (quoted text ++ rest).length := by
    simp [quoted]
  obtain ⟨read, parsed, length, same⟩ := contents.stringBody input rest enough
  refine ⟨read, ?_, length, same⟩
  have shape : (quoted text ++ rest).tail = text ++ '"' :: rest := by
    simp [quoted]
  rw [JsonParser.string, shape, parsed]
  rfl

/-! ## Trees -/

end JsonGrammar

namespace Json

mutual

/-- The number of characters in the strings and keys of a tree. -/
def textSize : Json → Nat
  | str s => s.toList.length
  | arr items => itemsTextSize items
  | obj members => membersTextSize members
  | _ => 0

/-- `textSize` of the items of an array. -/
def itemsTextSize : List Json → Nat
  | [] => 0
  | item :: rest => item.textSize + itemsTextSize rest

/-- `textSize` of the members of an object. -/
def membersTextSize : List (String × Json) → Nat
  | [] => 0
  | (key, value) :: rest =>
      key.toList.length + value.textSize + membersTextSize rest

end

end Json

namespace JsonGrammar

open JsonParser

/-- The size of what is denoted. -/
def Meaning.textSize : Meaning → Nat
  | value v => v.textSize
  | items vs => Json.itemsTextSize vs
  | members ms => Json.membersTextSize ms

/-- What the parser reads for a phrase with a given number of surrogate pairs:
the same when there are none, more characters otherwise. -/
structure ReadsAs (meant read : Meaning) (pairs : Nat) : Prop where
  size : read.textSize = meant.textSize + pairs
  exact : pairs = 0 → read = meant

/-- The text of a phrase starts like a value: not with a blank, and not with
what closes a container. -/
def Starts (text : List Char) : Prop :=
  ∃ c cs, text = c :: cs ∧ Json.ValueStart c

private theorem Phrase.starts
    {text : List Char}
    {v : Json}
    {pairs : Nat}
    (phrase : Phrase text (.value v) pairs) :
    Starts text := by
  cases phrase with
  | null =>
      exact ⟨'n', "ull".toList, rfl, by simp [Json.ValueStart]⟩
  | true =>
      exact ⟨'t', "rue".toList, rfl, by simp [Json.ValueStart]⟩
  | false =>
      exact ⟨'f', "alse".toList, rfl, by simp [Json.ValueStart]⟩
  | int number =>
      obtain ⟨c, cs, shape, start⟩ := number.shape.head
      refine ⟨c, cs, shape, ?_⟩
      rcases start with digit | minus
      · simp [Json.ValueStart, digit]
      · simp [Json.ValueStart, minus]
  | str contents =>
      exact ⟨'"', _, rfl, by simp [Json.ValueStart]⟩
  | emptyArray isBlank =>
      exact ⟨'[', _, rfl, by simp [Json.ValueStart]⟩
  | array contents =>
      exact ⟨'[', _, rfl, by simp [Json.ValueStart]⟩
  | emptyObject isBlank =>
      exact ⟨'{', _, rfl, by simp [Json.ValueStart]⟩
  | object contents =>
      exact ⟨'{', _, rfl, by simp [Json.ValueStart]⟩

private theorem Starts.ws_append
    {text : List Char}
    (starts : Starts text)
    (rest : List Char) :
    ws (text ++ rest) = text ++ rest := by
  obtain ⟨c, cs, rfl, start⟩ := starts
  exact ws_cons_of_notBlank start.notBlank.1

/-- What is to be shown of a phrase. -/
def Reads [F64Ops] (text : List Char) (pairs : Nat) : Meaning → Prop
  | .value v => ∀ input fuel rest, NumberEnds rest → 2 * text.length ≤ fuel →
      ∃ read, value input fuel (text ++ rest) = .ok (read, rest) ∧
        ReadsAs (.value v) (.value read) pairs
  | .items vs => ∀ input fuel rest, 2 * text.length < fuel →
      ∃ read, arrayLoop input fuel (text ++ ']' :: rest) = .ok (read, rest) ∧
        ReadsAs (.items vs) (.items read) pairs
  | .members ms => ∀ input fuel rest, 2 * text.length < fuel →
      ∃ read, objectLoop input fuel (text ++ '}' :: rest) = .ok (read, rest) ∧
        ReadsAs (.members ms) (.members read) pairs

private theorem reads_literal [F64Ops]
    {text : List Char}
    {v : Json}
    (nonempty : 1 ≤ text.length)
    (parsed : ∀ input rest fuel,
      value input (fuel + 1) (text ++ rest) = .ok (v, rest)) :
    Reads text 0 (.value v) := by
  intro input fuel rest _ enough
  obtain ⟨fuel, rfl⟩ : ∃ n, fuel = n + 1 := ⟨fuel - 1, by omega⟩
  exact ⟨v, parsed input rest fuel, rfl, fun _ => rfl⟩

/-- The first token of an array is not a closing bracket. -/
theorem Phrase.items_start
    {text : List Char}
    {vs : List Json}
    {pairs : Nat}
    (phrase : Phrase text (.items vs) pairs)
    (rest : List Char) :
    ∃ c cs, ws (text ++ rest) = c :: cs ∧ c ≠ ']' := by
  cases phrase with
  | lastItem blankBefore item blankAfter =>
      have starts := item.starts
      rw [List.append_assoc, List.append_assoc, blankBefore.ws_append,
        starts.ws_append]
      obtain ⟨c, cs, rfl, start⟩ := starts
      exact ⟨c, _, rfl, start.notBlank.2⟩
  | item blankBefore item blankAfter _ =>
      have starts := item.starts
      rw [List.append_assoc, List.append_assoc, blankBefore.ws_append,
        starts.ws_append]
      obtain ⟨c, cs, rfl, start⟩ := starts
      exact ⟨c, _, rfl, start.notBlank.2⟩

private theorem Phrase.members_start
    {text : List Char}
    {ms : List (String × Json)}
    {pairs : Nat}
    (phrase : Phrase text (.members ms) pairs)
    (rest : List Char) :
    ∃ cs, ws (text ++ rest) = '"' :: cs := by
  cases phrase with
  | lastMember blankBefore _ _ _ _ _ =>
      rw [List.append_assoc, blankBefore.ws_append]
      exact ⟨_, ws_cons_of_notBlank (by decide)⟩
  | member blankBefore _ _ _ _ _ _ =>
      rw [List.append_assoc, blankBefore.ws_append]
      exact ⟨_, ws_cons_of_notBlank (by decide)⟩

/-- One round of the loop of `Parser::array`. -/
theorem arrayLoop_item [F64Ops]
    {before text after : List Char}
    {v : Json}
    {pairs : Nat}
    (blankBefore : Blank before)
    (starts : Starts text)
    (reads : Reads text pairs (.value v))
    (blankAfter : Blank after)
    (input : List Char)
    {fuel : Nat}
    (enough : 2 * text.length ≤ fuel)
    {next : Char}
    (rest : List Char)
    (token : NotBlank next)
    (ends : isNumberChar next = false) :
    ∃ read, ReadsAs (.value v) (.value read) pairs ∧
      arrayLoop input (fuel + 1) (before ++ (text ++ (after ++ next :: rest))) =
        match next :: rest with
        | ',' :: rest' => do
            let (items, rest'') ← arrayLoop input fuel rest'
            return (read :: items, rest'')
        | ']' :: rest' => .ok ([read], rest')
        | other => err input other "expected ',' or ']'" := by
  obtain ⟨read, parsed, readsAs⟩ := reads input fuel (after ++ next :: rest)
    (blankAfter.numberEnds (numberEnds_cons rest ends)) enough
  refine ⟨read, readsAs, ?_⟩
  have skipped : ws (after ++ next :: rest) = next :: rest := by
    rw [blankAfter.ws_append]
    exact ws_cons_of_notBlank token
  have unfolded := arrayLoop.eq_def input (fuel + 1)
    (before ++ (text ++ (after ++ next :: rest)))
  simp only [blankBefore.ws_append, starts.ws_append, parsed, Result.ok_bind,
    skipped] at unfolded
  exact unfolded

/-- One round of the loop of `Parser::object`. -/
theorem objectLoop_round [F64Ops]
    {before key between colon text after chars : List Char}
    {v : Json}
    {keyPairs pairs : Nat}
    (blankBefore : Blank before)
    (name : Chars key chars keyPairs)
    (blankBetween : Blank between)
    (blankColon : Blank colon)
    (starts : Starts text)
    (reads : Reads text pairs (.value v))
    (blankAfter : Blank after)
    (input : List Char)
    {fuel : Nat}
    (enough : 2 * text.length ≤ fuel)
    {next : Char}
    (rest : List Char)
    (token : NotBlank next)
    (ends : isNumberChar next = false) :
    ∃ readKey read, readKey.length = chars.length + keyPairs ∧
      (keyPairs = 0 → readKey = chars) ∧
      ReadsAs (.value v) (.value read) pairs ∧
      objectLoop input (fuel + 1) (before ++ (quoted key ++ (between ++ ':' ::
          (colon ++ (text ++ (after ++ next :: rest)))))) =
        match next :: rest with
        | ',' :: rest' => do
            let (members, rest'') ← objectLoop input fuel rest'
            return ((String.ofList readKey, read) :: members, rest'')
        | '}' :: rest' => .ok ([(String.ofList readKey, read)], rest')
        | other => err input other "expected ',' or '\x7d'" := by
  obtain ⟨read, parsed, readsAs⟩ := reads input fuel (after ++ next :: rest)
    (blankAfter.numberEnds (numberEnds_cons rest ends)) enough
  obtain ⟨readKey, keyParsed, keyLength, keySame⟩ := name.string input
    (between ++ ':' :: (colon ++ (text ++ (after ++ next :: rest))))
  refine ⟨readKey, read, keyLength, keySame, readsAs, ?_⟩
  have skipped : ws (after ++ next :: rest) = next :: rest := by
    rw [blankAfter.ws_append]
    exact ws_cons_of_notBlank token
  have atKey : ∀ tail, ws (before ++ (quoted key ++ tail)) =
      '"' :: (key ++ ['"'] ++ tail) := by
    intro tail
    rw [blankBefore.ws_append]
    exact ws_cons_of_notBlank (by decide)
  have atColon : ws (between ++ ':' :: (colon ++ (text ++
      (after ++ next :: rest)))) =
        ':' :: (colon ++ (text ++ (after ++ next :: rest))) := by
    rw [blankBetween.ws_append]
    exact ws_cons_of_notBlank (by decide)
  have keyParsed' : string input ('"' :: (key ++ ['"'] ++ (between ++ ':' ::
      (colon ++ (text ++ (after ++ next :: rest)))))) =
      .ok (String.ofList readKey, between ++ ':' ::
        (colon ++ (text ++ (after ++ next :: rest)))) := by
    simpa [quoted] using keyParsed
  have unfolded := objectLoop.eq_def input (fuel + 1)
    (before ++ (quoted key ++ (between ++ ':' ::
      (colon ++ (text ++ (after ++ next :: rest))))))
  simp only [atKey, keyParsed', Result.ok_bind, atColon, blankColon.ws_append,
    starts.ws_append, parsed, skipped] at unfolded
  exact unfolded

private theorem ReadsAs.refl
    (meant : Meaning) :
    ReadsAs meant meant 0 :=
  ⟨rfl, fun _ => rfl⟩

private theorem ReadsAs.arr
    {vs read : List Json}
    {pairs : Nat}
    (readsAs : ReadsAs (.items vs) (.items read) pairs) :
    ReadsAs (.value (.arr vs)) (.value (.arr read)) pairs := by
  refine ⟨readsAs.size, fun none => ?_⟩
  have same := readsAs.exact none
  simp only [Meaning.items.injEq] at same
  rw [same]

private theorem ReadsAs.obj
    {ms read : List (String × Json)}
    {pairs : Nat}
    (readsAs : ReadsAs (.members ms) (.members read) pairs) :
    ReadsAs (.value (.obj ms)) (.value (.obj read)) pairs := by
  refine ⟨readsAs.size, fun none => ?_⟩
  have same := readsAs.exact none
  simp only [Meaning.members.injEq] at same
  rw [same]

/-- Items are read as a whole when the first and the others are. -/
private theorem ReadsAs.item
    {v read : Json}
    {vs reads : List Json}
    {pairs morePairs : Nat}
    (first : ReadsAs (.value v) (.value read) pairs)
    (others : ReadsAs (.items vs) (.items reads) morePairs) :
    ReadsAs (.items (v :: vs)) (.items (read :: reads)) (pairs + morePairs) := by
  refine ⟨?_, fun none => ?_⟩
  · have size := first.size
    have sizes := others.size
    simp only [Meaning.textSize, Json.itemsTextSize] at size sizes ⊢
    omega
  · have same := first.exact (by omega)
    have sames := others.exact (by omega)
    simp only [Meaning.value.injEq] at same
    simp only [Meaning.items.injEq] at sames
    rw [same, sames]

/-- Members are read as a whole when the first key, its value and the other
members are. -/
private theorem ReadsAs.member
    {chars readKey : List Char}
    {v read : Json}
    {ms reads : List (String × Json)}
    {keyPairs pairs morePairs : Nat}
    (keyLength : readKey.length = chars.length + keyPairs)
    (keySame : keyPairs = 0 → readKey = chars)
    (first : ReadsAs (.value v) (.value read) pairs)
    (others : ReadsAs (.members ms) (.members reads) morePairs) :
    ReadsAs (.members ((String.ofList chars, v) :: ms))
      (.members ((String.ofList readKey, read) :: reads))
      (keyPairs + pairs + morePairs) := by
  refine ⟨?_, fun none => ?_⟩
  · have size := first.size
    have sizes := others.size
    simp only [Meaning.textSize, Json.membersTextSize,
      String.toList_ofList] at size sizes ⊢
    omega
  · have same := first.exact (by omega)
    have sames := others.exact (by omega)
    simp only [Meaning.value.injEq] at same
    simp only [Meaning.members.injEq] at sames
    rw [same, sames, keySame (by omega)]

private theorem reads_int [F64Ops]
    {text : List Char}
    {i : Int64}
    (number : Number text i) :
    Reads text 0 (.value (.int i)) := by
  intro input fuel rest ends enough
  obtain ⟨c, cs, shape, _⟩ := number.shape.head
  obtain ⟨fuel, rfl⟩ : ∃ n, fuel = n + 1 :=
    ⟨fuel - 1, by simp [shape] at enough; omega⟩
  exact ⟨.int i, value_of_numberShape input number.shape ends
    number.numberValue fuel, rfl, fun _ => rfl⟩

private theorem reads_str [F64Ops]
    {text chars : List Char}
    {pairs : Nat}
    (contents : Chars text chars pairs) :
    Reads (quoted text) pairs (.value (.str (String.ofList chars))) := by
  intro input fuel rest _ enough
  obtain ⟨fuel, rfl⟩ : ∃ n, fuel = n + 1 :=
    ⟨fuel - 1, by simp [quoted] at enough; omega⟩
  obtain ⟨read, parsed, length, same⟩ := contents.string input rest
  refine ⟨.str (String.ofList read), ?_, ?_, ?_⟩
  · simp only [quoted, List.cons_append] at parsed ⊢
    unfold value
    simp only [parsed, Result.ok_bind, Result.pure_eq_ok]
  · simpa [Meaning.textSize, Json.textSize] using length
  · intro none
    rw [same none]

private theorem reads_emptyArray [F64Ops]
    {blank : List Char}
    (isBlank : Blank blank) :
    Reads ('[' :: (blank ++ [']'])) 0 (.value (.arr [])) := by
  refine reads_literal (by simp) ?_
  intro input rest fuel
  have closed : ws (blank ++ [']'] ++ rest) = ']' :: rest := by
    rw [List.append_assoc, isBlank.ws_append]
    exact ws_cons_of_notBlank (by decide)
  simp only [List.cons_append, value, closed]

private theorem reads_emptyObject [F64Ops]
    {blank : List Char}
    (isBlank : Blank blank) :
    Reads ('{' :: (blank ++ ['}'])) 0 (.value (.obj [])) := by
  refine reads_literal (by simp) ?_
  intro input rest fuel
  have closed : ws (blank ++ ['}'] ++ rest) = '}' :: rest := by
    rw [List.append_assoc, isBlank.ws_append]
    exact ws_cons_of_notBlank (by decide)
  simp only [List.cons_append, value, closed]

/-- An array that is not empty: the first token is no closing bracket, so the
loop reads its items. -/
private theorem reads_array [F64Ops]
    {text : List Char}
    {items : List Json}
    {pairs : Nat}
    (contents : Phrase text (.items items) pairs)
    (reads : Reads text pairs (.items items)) :
    Reads ('[' :: (text ++ [']'])) pairs (.value (.arr items)) := by
  intro input fuel rest _ enough
  obtain ⟨fuel, rfl⟩ : ∃ n, fuel = n + 1 :=
    ⟨fuel - 1, by simp at enough; omega⟩
  obtain ⟨read, parsed, readsAs⟩ := reads input fuel rest
    (by simp at enough; omega)
  refine ⟨.arr read, ?_, readsAs.arr⟩
  obtain ⟨c, cs, entered, notClosed⟩ := contents.items_start (']' :: rest)
  have loop : arrayLoop input fuel (c :: cs) = .ok (read, rest) := by
    rcases arrayLoop_ws input fuel (text ++ ']' :: rest) with same | zero
    · rw [← entered, same, parsed]
    · simp [zero] at enough
      omega
  have shape : text ++ [']'] ++ rest = text ++ ']' :: rest := by
    simp
  simp only [List.cons_append, value, shape, entered]
  split
  · rename_i other same
    exact (notClosed (List.cons.inj same).1).elim
  · simp [loop]

private theorem reads_object [F64Ops]
    {text : List Char}
    {members : List (String × Json)}
    {pairs : Nat}
    (contents : Phrase text (.members members) pairs)
    (reads : Reads text pairs (.members members)) :
    Reads ('{' :: (text ++ ['}'])) pairs (.value (.obj members)) := by
  intro input fuel rest _ enough
  obtain ⟨fuel, rfl⟩ : ∃ n, fuel = n + 1 :=
    ⟨fuel - 1, by simp at enough; omega⟩
  obtain ⟨read, parsed, readsAs⟩ := reads input fuel rest
    (by simp at enough; omega)
  refine ⟨.obj read, ?_, readsAs.obj⟩
  obtain ⟨cs, entered⟩ := contents.members_start ('}' :: rest)
  have loop : objectLoop input fuel ('"' :: cs) = .ok (read, rest) := by
    rcases objectLoop_ws input fuel (text ++ '}' :: rest) with same | zero
    · rw [← entered, same, parsed]
    · simp [zero] at enough
      omega
  have shape : text ++ ['}'] ++ rest = text ++ '}' :: rest := by
    simp
  simp only [List.cons_append, value, shape, entered, loop,
    Result.ok_bind, Result.pure_eq_ok]
  rfl

private theorem reads_lastItem [F64Ops]
    {before text after : List Char}
    {v : Json}
    {pairs : Nat}
    (blankBefore : Blank before)
    (starts : Starts text)
    (reads : Reads text pairs (.value v))
    (blankAfter : Blank after) :
    Reads (before ++ (text ++ after)) pairs (.items [v]) := by
  intro input fuel rest enough
  obtain ⟨fuel, rfl⟩ : ∃ n, fuel = n + 1 := ⟨fuel - 1, by omega⟩
  obtain ⟨read, readsAs, round⟩ := arrayLoop_item blankBefore starts reads
    blankAfter input (by simp at enough; omega : 2 * text.length ≤ fuel)
    rest (by decide : NotBlank ']') rfl
  refine ⟨[read], ?_, readsAs.item (ReadsAs.refl (.items []))⟩
  simpa using round

private theorem reads_item [F64Ops]
    {before text after others : List Char}
    {v : Json}
    {vs : List Json}
    {pairs morePairs : Nat}
    (blankBefore : Blank before)
    (starts : Starts text)
    (reads : Reads text pairs (.value v))
    (blankAfter : Blank after)
    (readsOthers : Reads others morePairs (.items vs)) :
    Reads (before ++ (text ++ (after ++ ',' :: others))) (pairs + morePairs)
      (.items (v :: vs)) := by
  intro input fuel rest enough
  obtain ⟨fuel, rfl⟩ : ∃ n, fuel = n + 1 := ⟨fuel - 1, by omega⟩
  obtain ⟨read, readsAs, round⟩ := arrayLoop_item blankBefore starts reads
    blankAfter input (by simp at enough; omega : 2 * text.length ≤ fuel)
    (others ++ ']' :: rest) (by decide : NotBlank ',') rfl
  obtain ⟨readOthers, parsed, readsAll⟩ := readsOthers input fuel rest
    (by simp at enough; omega)
  refine ⟨read :: readOthers, ?_, readsAs.item readsAll⟩
  simpa [parsed] using round

private theorem reads_lastMember [F64Ops]
    {before key between colon text after chars : List Char}
    {v : Json}
    {keyPairs pairs : Nat}
    (blankBefore : Blank before)
    (name : Chars key chars keyPairs)
    (blankBetween : Blank between)
    (blankColon : Blank colon)
    (starts : Starts text)
    (reads : Reads text pairs (.value v))
    (blankAfter : Blank after) :
    Reads (before ++ (quoted key ++ (between ++ ':' ::
        (colon ++ (text ++ after))))) (keyPairs + pairs)
      (.members [(String.ofList chars, v)]) := by
  intro input fuel rest enough
  obtain ⟨fuel, rfl⟩ : ∃ n, fuel = n + 1 := ⟨fuel - 1, by omega⟩
  obtain ⟨readKey, read, keyLength, keySame, readsAs, round⟩ :=
    objectLoop_round blankBefore name blankBetween blankColon starts reads
      blankAfter input (by simp at enough; omega : 2 * text.length ≤ fuel)
      rest (by decide : NotBlank '}') rfl
  refine ⟨[(String.ofList readKey, read)], ?_,
    ReadsAs.member keyLength keySame readsAs (ReadsAs.refl (.members []))⟩
  simpa using round

private theorem reads_member [F64Ops]
    {before key between colon text after others chars : List Char}
    {v : Json}
    {ms : List (String × Json)}
    {keyPairs pairs morePairs : Nat}
    (blankBefore : Blank before)
    (name : Chars key chars keyPairs)
    (blankBetween : Blank between)
    (blankColon : Blank colon)
    (starts : Starts text)
    (reads : Reads text pairs (.value v))
    (blankAfter : Blank after)
    (readsOthers : Reads others morePairs (.members ms)) :
    Reads (before ++ (quoted key ++ (between ++ ':' ::
        (colon ++ (text ++ (after ++ ',' :: others))))))
      (keyPairs + pairs + morePairs)
      (.members ((String.ofList chars, v) :: ms)) := by
  intro input fuel rest enough
  obtain ⟨fuel, rfl⟩ : ∃ n, fuel = n + 1 := ⟨fuel - 1, by omega⟩
  obtain ⟨readKey, read, keyLength, keySame, readsAs, round⟩ :=
    objectLoop_round blankBefore name blankBetween blankColon starts reads
      blankAfter input (by simp at enough; omega : 2 * text.length ≤ fuel)
      (others ++ '}' :: rest) (by decide : NotBlank ',') rfl
  obtain ⟨readOthers, parsed, readsAll⟩ := readsOthers input fuel rest
    (by simp at enough; omega)
  refine ⟨(String.ofList readKey, read) :: readOthers, ?_,
    ReadsAs.member keyLength keySame readsAs readsAll⟩
  simpa [parsed] using round

/-- Every phrase of the grammar is read as what it denotes. -/
private theorem Phrase.reads [F64Ops]
    {text : List Char}
    {meaning : Meaning}
    {pairs : Nat}
    (phrase : Phrase text meaning pairs) :
    Reads text pairs meaning := by
  induction phrase with
  | null =>
      exact reads_literal (by decide) fun input rest fuel =>
        (value_literal input rest fuel).1
  | true =>
      exact reads_literal (by decide) fun input rest fuel =>
        (value_literal input rest fuel).2.1
  | false =>
      exact reads_literal (by decide) fun input rest fuel =>
        (value_literal input rest fuel).2.2
  | int number =>
      exact reads_int number
  | str contents =>
      exact reads_str contents
  | emptyArray isBlank =>
      exact reads_emptyArray isBlank
  | array contents inductionHypothesis =>
      exact reads_array contents inductionHypothesis
  | emptyObject isBlank =>
      exact reads_emptyObject isBlank
  | object contents inductionHypothesis =>
      exact reads_object contents inductionHypothesis
  | lastItem blankBefore item blankAfter inductionHypothesis =>
      exact reads_lastItem blankBefore item.starts inductionHypothesis
        blankAfter
  | item blankBefore item blankAfter _ itemReads othersRead =>
      exact reads_item blankBefore item.starts itemReads blankAfter othersRead
  | lastMember blankBefore name blankBetween blankColon member blankAfter
      inductionHypothesis =>
      exact reads_lastMember blankBefore name blankBetween blankColon
        member.starts inductionHypothesis blankAfter
  | member blankBefore name blankBetween blankColon member blankAfter _
      memberReads othersRead =>
      exact reads_member blankBefore name blankBetween blankColon
        member.starts memberReads blankAfter othersRead

/-! ## Documents -/

private theorem Document.reads [F64Ops]
    {text : String}
    {v : Json}
    {pairs : Nat}
    (document : Document text v pairs) :
    ∃ read, parseJson text = .ok read ∧
      ReadsAs (.value v) (.value read) pairs := by
  cases document with
  | @mk before text after v pairs blankBefore phrase blankAfter =>
      have ends : NumberEnds after := by
        have atEnd := blankAfter.numberEnds numberEnds_nil
        simpa using atEnd
      have closed : ws after = [] := by
        have skipped := blankAfter.ws_append []
        simpa [ws] using skipped
      have enough : 2 * text.length ≤
          2 * (before ++ (text ++ after)).length + 2 := by
        simp only [List.length_append]
        omega
      obtain ⟨read, parsed, readsAs⟩ := phrase.reads
        (before ++ (text ++ after)) _ after ends enough
      refine ⟨read, ?_, readsAs⟩
      simp only [parseJson, String.toList_ofList, blankBefore.ws_append,
        phrase.starts.ws_append, parsed, Result.ok_bind, closed,
        Result.pure_eq_ok]

/-- A document is read as the tree it denotes exactly when none of its
characters is written as a surrogate pair. -/
theorem parse_denotes_iff [F64Ops]
    {text : String}
    {v : Json}
    {pairs : Nat}
    (document : Document text v pairs) :
    parseJson text = .ok v ↔ pairs = 0 := by
  obtain ⟨read, parsed, readsAs⟩ := document.reads
  rw [parsed]
  constructor
  · intro same
    obtain rfl : read = v := Except.ok.inj same
    have size := readsAs.size
    omega
  · intro none
    have same := readsAs.exact none
    simp only [Meaning.value.injEq] at same
    rw [same]

private theorem blank_nil : Blank [] := by
  simp [Blank]

/-- A document with white space, a negative zero and an escape. -/
theorem sample_document_parsed :
    Document " [ -0,\"\\u00e9\"]\n" (.arr [.int 0, .str "é"]) 0 ∧
      @parseJson unitOps " [ -0,\"\\u00e9\"]\n" =
        .ok (.arr [.int 0, .str "é"]) := by
  let _ := unitOps
  have zero : Phrase ['-', '0'] (.value (.int 0)) 0 :=
    .int (.negative ⟨by simp, by simp [Char.isDigit], fun _ => rfl⟩ (by decide))
  have escaped : Hex4 ['0', '0', 'e', '9'] 'é'.toNat :=
    @Hex4.mk '0' '0' 'e' '9' 0 0 14 9 rfl rfl rfl rfl
  have accent : Phrase (quoted "\\u00e9".toList) (.value (.str "é")) 0 :=
    .str (.unicode escaped .nil)
  have space : Blank [' '] := by
    simp [Blank]
  have document : Document " [ -0,\"\\u00e9\"]\n"
      (.arr [.int 0, .str "é"]) 0 :=
    @Document.mk [' '] _ ['\n'] _ 0 space
      (.array (.item space zero blank_nil (.lastItem blank_nil accent blank_nil)))
      (by simp [Blank])
  exact ⟨document, (parse_denotes_iff document).mpr rfl⟩

/-- A character outside the basic plane, written as a surrogate pair, is read
as two replacement characters. -/
theorem surrogate_pair_misread :
    Document "\"\\ud83d\\ude00\"" (.str "😀") 1 ∧
      @parseJson unitOps "\"\\ud83d\\ude00\"" ≠ .ok (.str "😀") := by
  let _ := unitOps
  constructor
  · have first : Hex4 ['d', '8', '3', 'd'] 0xd83d :=
      @Hex4.mk 'd' '8' '3' 'd' 13 8 3 13 rfl rfl rfl rfl
    have second : Hex4 ['d', 'e', '0', '0'] 0xde00 :=
      @Hex4.mk 'd' 'e' '0' '0' 13 14 0 0 rfl rfl rfl rfl
    have pair : Chars "\\ud83d\\ude00".toList ['😀'] 1 :=
      .surrogates first second (by decide) (by decide) (by decide) .nil
    exact @Document.mk [] _ [] _ 1 blank_nil (.str pair) blank_nil
  · intro parsed
    have read : ((parseJson "\"\\ud83d\\ude00\"").toOption.bind Json.asStr) =
        some (String.ofList [Char.ofNat 0xfffd, Char.ofNat 0xfffd]) := by
      decide +kernel
    rw [parsed] at read
    revert read
    decide +kernel

end JsonGrammar

end Myrun
