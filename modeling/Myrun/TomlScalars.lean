import Myrun.TomlTokens

namespace Myrun

/-!
# Reading scalars

The texts that TOML has for strings, integers and booleans are tokens that the
scanners pass over, and the reader reads each as the value that it stands for.
-/

namespace Toml

/-! ## Quoted text is not active -/

private theorem annotate_basic_plain
    {cs : List Char}
    (plain : ∀ c ∈ cs, c ≠ '"' ∧ c ≠ '\\')
    (rest : List Char) :
    annotate .basic (cs ++ rest) =
      cs.map (·, false) ++ annotate .basic rest := by
  induction cs with
  | nil =>
      rfl
  | cons c cs inductionHypothesis =>
      obtain ⟨notQuote, notBackslash⟩ := plain c List.mem_cons_self
      have stays : Quote.basic.after c = .basic := by
        simp [Quote.after, notQuote]
      rw [List.cons_append, annotate_cons (fun both => notBackslash both.2),
        stays, inductionHypothesis
          (fun other member => plain other (List.mem_cons_of_mem c member))]
      rfl

/-- Hexadecimal digits are no quotes. -/
theorem hexDigits_plain
    {hex : List Char}
    {value result : Nat}
    (read : JsonParser.hexDigits hex value = some result) :
    ∀ c ∈ hex, JsonParser.hexDigit c ≠ none := by
  induction hex generalizing value with
  | nil =>
      simp
  | cons c hex inductionHypothesis =>
      rw [JsonParser.hexDigits] at read
      split at read
      · rename_i d digit
        intro other member
        rcases List.mem_cons.mp member with rfl | later
        · rw [digit]
          simp
        · exact inductionHypothesis read other later
      · cases read

private theorem ne_of_hexDigit
    {c d : Char}
    (digit : JsonParser.hexDigit c ≠ none)
    (other : JsonParser.hexDigit d = none) :
    c ≠ d := by
  rintro rfl
  exact digit other

/-- An escape takes one character, and hexadecimal digits with it. -/
theorem Escapes.Reads.shape
    {escapes : Escapes}
    {text : List Char}
    {c : Char}
    (reads : escapes.Reads text c) :
    ∃ letter hex, text = letter :: hex ∧
      ∀ d ∈ hex, JsonParser.hexDigit d ≠ none := by
  cases reads with
  | @simple letter _ known =>
      exact ⟨letter, [], rfl, by simp⟩
  | @unicode letter _ count hex known digits value =>
      exact ⟨letter, hex, rfl, hexDigits_plain value⟩

/-- Inside a basic string nothing is active until it is closed. -/
theorem BasicBody.annotate
    {escapes : Escapes}
    {content body : List Char}
    (reads : BasicBody escapes content body)
    (rest : List Char) :
    annotate .basic (body ++ '"' :: rest) =
      body.map (·, false) ++ ('"', false) :: annotate .outside rest := by
  induction reads with
  | nil =>
      rw [List.nil_append, annotate_cons (by simp)]
      rfl
  | @raw c content body plain notQuote notBackslash _ inductionHypothesis =>
      have single : ∀ d ∈ [c], d ≠ '"' ∧ d ≠ '\\' := by
        simpa using ⟨notQuote, notBackslash⟩
      have passed := annotate_basic_plain single (body ++ '"' :: rest)
      rw [inductionHypothesis] at passed
      exact passed
  | @escaped c text content body reads _ inductionHypothesis =>
      obtain ⟨letter, hex, rfl, digits⟩ := reads.shape
      have plain : ∀ d ∈ hex, d ≠ '"' ∧ d ≠ '\\' := fun d member =>
        ⟨ne_of_hexDigit (digits d member) (by decide),
          ne_of_hexDigit (digits d member) (by decide)⟩
      have passed := annotate_basic_plain plain (body ++ '"' :: rest)
      rw [inductionHypothesis] at passed
      simp only [List.cons_append, List.append_assoc, annotate_escape, passed,
        List.map_cons, List.map_append]

private theorem LiteralBody.annotate
    {body : List Char}
    (reads : LiteralBody body)
    (rest : List Char) :
    annotate .literal (body ++ '\'' :: rest) =
      body.map (·, false) ++ ('\'', false) :: annotate .outside rest := by
  induction body with
  | nil =>
      rw [List.nil_append, annotate_cons (by simp)]
      rfl
  | cons c body inductionHypothesis =>
      have stays : Quote.literal.after c = .literal := by
        simp [Quote.after, (reads c List.mem_cons_self).2]
      rw [List.cons_append, annotate_cons (by simp), stays,
        inductionHypothesis
          (fun other member => reads other (List.mem_cons_of_mem c member))]
      rfl

/-! ## Scalars are atoms -/

/-- A text whose annotation is known, whatever follows it. -/
def Atom.ofMarks
    (text : List Char)
    (marks : List (Char × Bool))
    (annotated : ∀ rest, annotate .outside (text ++ rest) =
      marks ++ annotate .outside rest)
    (quiet : Quiet marks)
    (starts : ∃ c rest, text = c :: rest ∧ isWhitespace c = false)
    (ends : ∃ front c, text = front ++ [c] ∧ isWhitespace c = false)
    (oneLine : '\n' ∉ text ∧ '\r' ∉ text) : Atom where
  text := text
  starts := starts
  ends := ends
  closed := by
    intro rest
    have alone := annotated []
    simp only [List.append_nil, annotate] at alone
    rw [annotated, alone]
  quiet := by
    have alone := annotated []
    simp only [List.append_nil, annotate] at alone
    rw [alone]
    exact quiet
  oneLine := oneLine

private theorem quiet_inactive
    (cs : List Char) :
    Quiet (cs.map (·, false)) := by
  intro c member
  obtain ⟨d, _, same⟩ := List.mem_map.mp member
  cases (Prod.mk.inj same).2

/-- A character of a number or a word. -/
def isWordChar (c : Char) : Bool :=
  isAsciiAlphanumeric c || c = '_' || c = '-' || c = '+' || c = '.'

private theorem isWordChar_range
    {c : Char}
    (word : isWordChar c = true) :
    43 ≤ c.toNat ∧ c.toNat ≤ 122 := by
  simp only [isWordChar, isAsciiAlphanumeric, Bool.or_eq_true,
    Bool.and_eq_true, decide_eq_true_eq, Char.le_def,
    UInt32.le_iff_toNat_le] at word
  have codes : '0'.val.toNat = 48 ∧ '9'.val.toNat = 57 ∧
      'a'.val.toNat = 97 ∧ 'z'.val.toNat = 122 ∧
      'A'.val.toNat = 65 ∧ 'Z'.val.toNat = 90 := by
    decide
  have same : c.toNat = c.val.toNat := rfl
  rcases word with (((((⟨_, _⟩ | ⟨_, _⟩) | ⟨_, _⟩) | rfl) | rfl) | rfl) | rfl
  · omega
  · omega
  · omega
  · decide
  · decide
  · decide
  · decide

private theorem isWordChar_not_white
    {c : Char}
    (word : isWordChar c = true) :
    isWhitespace c = false := by
  have range := isWordChar_range word
  simp only [isWhitespace, Bool.or_eq_false_iff, Bool.and_eq_false_iff,
    decide_eq_false_iff_not]
  omega

private theorem ne_of_word
    {c d : Char}
    (word : isWordChar c = true)
    (other : isWordChar d = false) :
    c ≠ d := by
  rintro rfl
  rw [word] at other
  cases other

/-- A text without blanks, quotes and marks. -/
def Atom.ofWord
    (text : List Char)
    (nonempty : text ≠ [])
    (word : ∀ c ∈ text, isWordChar c = true) : Atom :=
  .ofMarks text (text.map (·, true))
    (annotate_unquoted fun c member =>
      ⟨ne_of_word (word c member) (by decide),
        ne_of_word (word c member) (by decide)⟩)
    (by
      intro c member
      obtain ⟨d, inText, same⟩ := List.mem_map.mp member
      obtain ⟨rfl, _⟩ := Prod.mk.inj same
      have isWord := word d inText
      simp only [isMark, Bool.or_eq_false_iff, decide_eq_false_iff_not]
      exact ⟨⟨⟨ne_of_word isWord (by decide), ne_of_word isWord (by decide)⟩,
        ne_of_word isWord (by decide)⟩, ne_of_word isWord (by decide)⟩)
    (by
      cases text with
      | nil => exact (nonempty rfl).elim
      | cons c rest =>
          exact ⟨c, rest, rfl,
            isWordChar_not_white (word c List.mem_cons_self)⟩)
    (by
      refine ⟨text.dropLast, text.getLast nonempty,
        (List.dropLast_append_getLast nonempty).symm, ?_⟩
      exact isWordChar_not_white (word _ (List.getLast_mem nonempty)))
    ⟨fun member => absurd (word _ member) (by decide),
      fun member => absurd (word _ member) (by decide)⟩

theorem not_lineBreak_of_plain
    {c : Char}
    (plain : isPlain c = true) :
    c ≠ '\n' ∧ c ≠ '\r' := by
  constructor
  · rintro rfl
    revert plain
    decide
  · rintro rfl
    revert plain
    decide

/-- A text between quotes. -/
def Atom.ofQuoted
    (quote : Char)
    (isQuote : quote = '"' ∨ quote = '\'')
    (body : List Char)
    (annotated : ∀ rest, annotate .outside (quote :: (body ++ quote :: rest)) =
      (quote, false) :: (body.map (·, false) ++
        (quote, false) :: annotate .outside rest))
    (oneLine : ∀ c ∈ body, c ≠ '\n' ∧ c ≠ '\r') : Atom :=
  .ofMarks (quote :: (body ++ [quote]))
    ((quote :: (body ++ [quote])).map (·, false))
    (by
      intro rest
      simpa using annotated rest)
    (quiet_inactive _)
    ⟨quote, body ++ [quote], rfl, by rcases isQuote with rfl | rfl <;> decide⟩
    ⟨quote :: body, quote, rfl, by rcases isQuote with rfl | rfl <;> decide⟩
    (by
      have outer : quote ≠ '\n' ∧ quote ≠ '\r' := by
        rcases isQuote with rfl | rfl <;> decide
      constructor
      · intro member
        simp only [List.mem_cons, List.mem_append, List.not_mem_nil,
          or_false] at member
        rcases member with same | inBody | same
        · exact outer.1 same.symm
        · exact (oneLine _ inBody).1 rfl
        · exact outer.1 same.symm
      · intro member
        simp only [List.mem_cons, List.mem_append, List.not_mem_nil,
          or_false] at member
        rcases member with same | inBody | same
        · exact outer.2 same.symm
        · exact (oneLine _ inBody).2 rfl
        · exact outer.2 same.symm)

/-- The letters of the escapes of TOML. -/
theorem toml_letters
    {text : List Char}
    {c : Char}
    (reads : Escapes.toml.Reads text c) :
    ∃ letter hex, text = letter :: hex ∧ (letter ≠ '\n' ∧ letter ≠ '\r') ∧
      ∀ d ∈ hex, JsonParser.hexDigit d ≠ none := by
  cases reads with
  | @simple letter _ known =>
      refine ⟨letter, [], rfl, ?_, by simp⟩
      simp only [Escapes.toml, Escapes.shared, List.cons_append,
        List.nil_append, List.mem_cons, Prod.mk.injEq, List.not_mem_nil,
        or_false] at known
      rcases known with ⟨rfl, _⟩ | ⟨rfl, _⟩ | ⟨rfl, _⟩ | ⟨rfl, _⟩ | ⟨rfl, _⟩ |
        ⟨rfl, _⟩ | ⟨rfl, _⟩ <;> decide
  | @unicode letter _ count hex known digits value =>
      refine ⟨letter, hex, rfl, ?_, hexDigits_plain value⟩
      simp only [Escapes.toml, Escapes.shared, List.cons_append,
        List.nil_append, List.mem_cons, Prod.mk.injEq, List.not_mem_nil,
        or_false] at known
      rcases known with ⟨rfl, _⟩ | ⟨rfl, _⟩ <;> decide

private theorem BasicBody.oneLine
    {content body : List Char}
    (reads : BasicBody .toml content body) :
    ∀ c ∈ body, c ≠ '\n' ∧ c ≠ '\r' := by
  induction reads with
  | nil =>
      simp
  | raw plain notQuote notBackslash _ inductionHypothesis =>
      intro d member
      rcases List.mem_cons.mp member with rfl | later
      · exact not_lineBreak_of_plain plain
      · exact inductionHypothesis d later
  | escaped reads _ inductionHypothesis =>
      obtain ⟨letter, hex, rfl, noBreak, digits⟩ := toml_letters reads
      intro d member
      simp only [List.cons_append, List.mem_cons, List.mem_append] at member
      rcases member with rfl | rfl | inHex | later
      · decide
      · exact noBreak
      · exact ⟨ne_of_hexDigit (digits d inHex) (by decide),
          ne_of_hexDigit (digits d inHex) (by decide)⟩
      · exact inductionHypothesis d later

private theorem annotate_quote_basic (rest : List Char) :
    annotate .outside ('"' :: rest) = ('"', false) :: annotate .basic rest := by
  rw [annotate_cons (by simp)]
  rfl

private theorem annotate_quote_literal (rest : List Char) :
    annotate .outside ('\'' :: rest) =
      ('\'', false) :: annotate .literal rest := by
  rw [annotate_cons (by simp)]
  rfl

def BasicBody.atom
    {content body : List Char}
    (reads : BasicBody .toml content body) : Atom :=
  .ofQuoted '"' (Or.inl rfl) body
    (fun rest => by rw [annotate_quote_basic, reads.annotate])
    reads.oneLine

def LiteralBody.atom
    {body : List Char}
    (reads : LiteralBody body) : Atom :=
  .ofQuoted '\'' (Or.inr rfl) body
    (fun rest => by rw [annotate_quote_literal, reads.annotate])
    (fun c member => not_lineBreak_of_plain (reads c member).1)

/-! ## Numbers are words -/

private theorem isWordChar_of_hexDigit
    {c : Char}
    (digit : JsonParser.hexDigit c ≠ none) :
    isWordChar c = true := by
  have within {low high top : Char} (bounds : low ≤ c ∧ c ≤ high)
      (below : high ≤ top) : (low ≤ c && c ≤ top) = true := by
    simp [bounds.1, bounds.2.trans below]
  unfold JsonParser.hexDigit at digit
  simp only [isWordChar, isAsciiAlphanumeric]
  split at digit
  · rename_i bounds
    simp [within bounds (Char.le_refl '9')]
  · split at digit
    · rename_i bounds
      simp [within bounds (show 'f' ≤ 'z' by decide)]
    · split at digit
      · rename_i bounds
        simp [within bounds (show 'F' ≤ 'Z' by decide)]
      · exact (digit rfl).elim

private theorem hexDigit_of_isDigitOf
    {radix : Nat}
    {c : Char}
    (digit : isDigitOf radix c = true) :
    ∃ d, JsonParser.hexDigit c = some d ∧ d < radix := by
  obtain ⟨d, read⟩ := Option.isSome_iff_exists.mp digit
  obtain ⟨same, small⟩ := Option.filter_eq_some_iff.mp read
  exact ⟨d, same, by simpa using small⟩

private theorem isWordChar_of_isDigitOf
    {radix : Nat}
    {c : Char}
    (digit : isDigitOf radix c = true) :
    isWordChar c = true := by
  obtain ⟨d, read, _⟩ := hexDigit_of_isDigitOf digit
  exact isWordChar_of_hexDigit (by simp [read])

private theorem Digits.word
    {radix : Nat}
    {ds : List Char}
    (digits : Digits (isDigitOf radix) ds) :
    ∀ c ∈ ds, isWordChar c = true := by
  induction digits with
  | last digit =>
      simpa using isWordChar_of_isDigitOf digit
  | digit digit _ inductionHypothesis =>
      intro c member
      rcases List.mem_cons.mp member with rfl | later
      · exact isWordChar_of_isDigitOf digit
      · exact inductionHypothesis c later
  | underscore digit _ inductionHypothesis =>
      intro c member
      simp only [List.mem_cons] at member
      rcases member with rfl | rfl | later
      · exact isWordChar_of_isDigitOf digit
      · decide
      · exact inductionHypothesis c later

private theorem Digits.nonempty
    {isDigit : Char → Bool}
    {ds : List Char}
    (digits : Digits isDigit ds) :
    ds ≠ [] := by
  cases digits <;> simp

private theorem Sign.word
    {sign : List Char}
    (signed : Sign sign) :
    ∀ c ∈ sign, isWordChar c = true := by
  rcases signed with rfl | rfl | rfl <;> simp [isWordChar]

private theorem IntegerText.word
    {value : Int}
    {text : List Char}
    (reads : IntegerText value text) :
    text ≠ [] ∧ ∀ c ∈ text, isWordChar c = true := by
  cases reads with
  | @positive sign ds plus decimal =>
      refine ⟨by simp [decimal.digits.nonempty], ?_⟩
      intro c member
      rcases List.mem_append.mp member with inSign | inDigits
      · exact Sign.word (plus.imp id Or.inl) c inSign
      · exact decimal.digits.word c inDigits
  | negative decimal =>
      refine ⟨by simp, ?_⟩
      intro c member
      rcases List.mem_cons.mp member with rfl | inDigits
      · decide
      · exact decimal.digits.word c inDigits
  | prefixed known digits =>
      refine ⟨by simp, ?_⟩
      simp only [radixLetters, List.mem_cons, Prod.mk.injEq, List.not_mem_nil,
        or_false] at known
      intro c member
      simp only [List.mem_cons] at member
      rcases member with rfl | rfl | inDigits
      · decide
      · rcases known with ⟨rfl, _⟩ | ⟨rfl, _⟩ | ⟨rfl, _⟩ <;> decide
      · exact digits.word c inDigits

private theorem Exponent.word
    {text : List Char}
    (reads : Exponent text) :
    ∀ c ∈ text, isWordChar c = true := by
  obtain ⟨letter, signed, digits⟩ := reads
  intro c member
  simp only [List.mem_cons, List.mem_append] at member
  rcases member with rfl | inSign | inDigits
  · rcases letter with rfl | rfl <;> decide
  · exact signed.word c inSign
  · exact digits.word c inDigits

private theorem FloatText.word
    {text : List Char}
    (reads : FloatText text) :
    text ≠ [] ∧ ∀ c ∈ text, isWordChar c = true := by
  cases reads with
  | fraction signed decimal digits scaled =>
      refine ⟨by simp, ?_⟩
      intro c member
      simp only [List.mem_append, List.mem_cons] at member
      rcases member with inSign | inDigits | rfl | inFraction | inExponent
      · exact signed.word c inSign
      · exact decimal.digits.word c inDigits
      · decide
      · exact digits.word c inFraction
      · rcases scaled with rfl | scaled
        · cases inExponent
        · exact scaled.word c inExponent
  | exponent signed decimal scaled =>
      refine ⟨by simp [decimal.digits.nonempty], ?_⟩
      intro c member
      simp only [List.mem_append] at member
      rcases member with inSign | inDigits | inExponent
      · exact signed.word c inSign
      · exact decimal.digits.word c inDigits
      · exact scaled.word c inExponent
  | special signed known =>
      refine ⟨by rcases known with rfl | rfl <;> simp, ?_⟩
      intro c member
      rcases List.mem_append.mp member with inSign | inWord
      · exact signed.word c inSign
      · have words : ∀ d ∈ "inf".toList ++ "nan".toList,
            isWordChar d = true := by
          simp [isWordChar, isAsciiAlphanumeric]
        refine words c (List.mem_append.mpr ?_)
        rcases known with rfl | rfl
        · exact Or.inl inWord
        · exact Or.inr inWord

/-- The reader's escapes are escapes of TOML. -/
theorem Escapes.Reads.toml
    {text : List Char}
    {c : Char}
    (reads : Escapes.shared.Reads text c) :
    Escapes.toml.Reads text c := by
  cases reads with
  | simple known => exact .simple (List.mem_append_left _ known)
  | unicode known digits value =>
      exact .unicode (List.mem_append_left _ known) digits value

private theorem BasicBody.toml
    {content body : List Char}
    (reads : BasicBody .shared content body) :
    BasicBody .toml content body := by
  induction reads with
  | nil => exact .nil
  | raw plain notQuote notBackslash _ inductionHypothesis =>
      exact .raw plain notQuote notBackslash inductionHypothesis
  | escaped reads _ inductionHypothesis =>
      exact .escaped reads.toml inductionHypothesis

private theorem ScalarText.toml
    {v : Json}
    {text : List Char}
    (reads : ScalarText .shared v text) :
    ScalarText .toml v text := by
  cases reads with
  | basic reads => exact .basic reads.toml
  | literal reads => exact .literal reads
  | integer reads => exact .integer reads
  | yes => exact .yes
  | no => exact .no

/-- Every scalar is an atom. -/
theorem ScalarText.atom
    {v : Json}
    {text : List Char}
    (reads : ScalarText .toml v text) :
    ∃ a : Atom, a.text = text := by
  cases reads with
  | basic reads => exact ⟨reads.atom, rfl⟩
  | literal reads => exact ⟨reads.atom, rfl⟩
  | integer reads =>
      exact ⟨.ofWord text reads.word.1 reads.word.2, rfl⟩
  | yes => exact ⟨.ofWord "true".toList (by decide)
      (by simp [isWordChar, isAsciiAlphanumeric]), rfl⟩
  | no => exact ⟨.ofWord "false".toList (by decide)
      (by simp [isWordChar, isAsciiAlphanumeric]), rfl⟩

theorem ScalarText.leaf
    {escapes : Escapes}
    {v : Json}
    {text : List Char}
    (reads : ScalarText escapes v text) :
    nesting v = 0 := by
  cases reads <;> simp [nesting]

/-! ## Reading strings -/

private theorem takeBytes_ascii
    {hex : List Char}
    (ascii : ∀ c ∈ hex, IsAscii c)
    (rest : List Char) :
    JsonParser.takeBytes hex.length (hex ++ rest) = some (hex, rest) := by
  have size : utf8Len hex = hex.length := by
    induction hex with
    | nil =>
        rfl
    | cons c hex inductionHypothesis =>
        rw [utf8Len_cons, utf8Size_ascii (ascii c List.mem_cons_self),
          inductionHypothesis
            (fun other member => ascii other (List.mem_cons_of_mem c member)),
          List.length_cons, Nat.add_comm]
  rw [← size]
  exact takeBytes_append hex rest

private theorem ascii_of_hexDigit
    {c : Char}
    (digit : JsonParser.hexDigit c ≠ none) :
    IsAscii c := by
  have range := isWordChar_range (isWordChar_of_hexDigit digit)
  unfold IsAscii
  omega

private theorem fromHex_eq
    {hex : List Char}
    (nonempty : hex ≠ [])
    (digits : ∀ c ∈ hex, JsonParser.hexDigit c ≠ none) :
    JsonParser.fromHex hex = JsonParser.hexDigits hex 0 := by
  cases hex with
  | nil =>
      exact (nonempty rfl).elim
  | cons c hex =>
      have notPlus : c ≠ '+' :=
        ne_of_hexDigit (digits c List.mem_cons_self) (by decide)
      unfold JsonParser.fromHex
      split
      · simp_all
      · simp_all
      · simp_all
      · rfl

private theorem charOrReplacement_toNat (c : Char) :
    JsonParser.charOrReplacement c.toNat = c := by
  have valid : c.toNat.isValidChar := c.valid
  rw [JsonParser.charOrReplacement, if_pos valid, Char.ofNat_toNat]

/-- The reader's decoder takes the escapes that TOML has too. -/
theorem escapeChars_shared
    {text : List Char}
    {c : Char}
    (reads : Escapes.shared.Reads text c)
    (rest : List Char) :
    escapeChars (text ++ rest) = .ok (c, rest) := by
  cases reads with
  | simple known =>
      simp only [Escapes.shared, List.mem_cons, Prod.mk.injEq,
        List.not_mem_nil, or_false] at known
      rcases known with ⟨rfl, rfl⟩ | ⟨rfl, rfl⟩ | ⟨rfl, rfl⟩ | ⟨rfl, rfl⟩ |
        ⟨rfl, rfl⟩ <;> rfl
  | @unicode letter _ count hex known digits value =>
      simp only [Escapes.shared, List.mem_cons, Prod.mk.injEq,
        List.not_mem_nil, or_false] at known
      obtain ⟨rfl, rfl⟩ := known
      have plain := hexDigits_plain value
      have ascii : ∀ d ∈ hex, IsAscii d := fun d member =>
        ascii_of_hexDigit (plain d member)
      have taken := takeBytes_ascii ascii rest
      rw [digits] at taken
      have long : ¬ utf8Len (hex ++ rest) < 4 := by
        have := length_le_utf8Len (hex ++ rest)
        rw [List.length_append, digits] at this
        omega
      have nonempty : hex ≠ [] := by
        rintro rfl
        cases digits
      have noSimple : simpleEscape (firstByte 'u') = none := by
        decide
      rw [List.cons_append, escapeChars, noSimple]
      simp only [↓reduceIte, long, taken, fromHex_eq nonempty plain, value,
        charOrReplacement_toNat]

private theorem BasicBody.decode
    {content body : List Char}
    (reads : BasicBody .shared content body)
    {fuel : Nat}
    (enough : body.length + 1 < fuel) :
    basicChars fuel (body ++ ['"']) = .ok content := by
  induction reads generalizing fuel with
  | nil =>
      obtain ⟨fuel, rfl⟩ : ∃ n, fuel = n + 1 := ⟨fuel - 1, by omega⟩
      rfl
  | raw plain notQuote notBackslash _ inductionHypothesis =>
      obtain ⟨fuel, rfl⟩ : ∃ n, fuel = n + 1 := ⟨fuel - 1, by omega⟩
      rw [List.length_cons] at enough
      rw [List.cons_append, basicChars, if_neg notQuote, if_neg notBackslash,
        inductionHypothesis (by omega)]
      rfl
  | @escaped c text content body reads _ inductionHypothesis =>
      obtain ⟨fuel, rfl⟩ : ∃ n, fuel = n + 1 := ⟨fuel - 1, by omega⟩
      simp only [List.length_cons, List.length_append] at enough
      have further : basicChars fuel (body ++ ['"']) = .ok content :=
        inductionHypothesis (by omega)
      rw [List.cons_append, List.append_assoc, basicChars,
        if_neg (by decide), if_pos rfl, escapeChars_shared reads]
      simp only [bind, Except.bind, further]
      rfl

/-- The inside of a basic string does not start with a quote. -/
theorem BasicBody.head_ne
    {escapes : Escapes}
    {content body : List Char}
    (reads : BasicBody escapes content body) :
    body.head? ≠ some '"' := by
  cases reads with
  | nil => simp
  | raw plain notQuote notBackslash rest => simpa using notQuote
  | escaped reads rest => simp

/-- Text that starts with one quote. -/
theorem not_triple
    {quote : Char}
    {body : List Char}
    (single : body.head? ≠ some quote) :
    ¬ [quote, quote, quote] <+: quote :: (body ++ [quote]) := by
  rintro ⟨rest, shape⟩
  cases body with
  | nil =>
      simp at shape
  | cons c body =>
      have first := (List.cons.inj (List.cons.inj shape).2).1
      exact single (by simp [first])

section Reading

variable [F64Ops]

private theorem readValue_basic
    {body : List Char}
    (single : body.head? ≠ some '"') :
    readValue ('"' :: (body ++ ['"'])) =
      (basicChars ((body ++ ['"']).length + 1) (body ++ ['"'])).map
        fun content => Json.str (String.ofList content) := by
  have triple : ¬ ("\"\"\"".toList <+: '"' :: (body ++ ['"']) ∨
      "'''".toList <+: '"' :: (body ++ ['"'])) := by
    rintro (basic | ⟨rest, shape⟩)
    · exact not_triple single basic
    · cases shape
  rw [readValue, parseValue]
  simp only [List.isEmpty_cons, Bool.false_eq_true, ↓reduceIte, triple,
    List.head?_cons, Option.some.injEq, Char.reduceEq, parseBasicString_eq]
  cases basicChars ((body ++ ['"']).length + 1) (body ++ ['"']) with
  | error fault => rfl
  | ok content => rfl

private theorem readValue_literal
    {body : List Char}
    (single : body.head? ≠ some '\'') :
    readValue ('\'' :: (body ++ ['\''])) =
      .ok (.str (String.ofList body)) := by
  have triple : ¬ ("\"\"\"".toList <+: '\'' :: (body ++ ['\'']) ∨
      "'''".toList <+: '\'' :: (body ++ ['\''])) := by
    rintro (⟨rest, shape⟩ | literal)
    · cases shape
    · exact not_triple single literal
  have ends : ('\'' :: (body ++ ['\''])).getLast? = some '\'' := by
    rw [← List.cons_append, List.getLast?_append]
    rfl
  have long : ¬ utf8Len ('\'' :: (body ++ ['\''])) < 2 := by
    simp only [utf8Len_cons, utf8Len_append, utf8Len_nil,
      utf8Size_ascii (show IsAscii '\'' by decide)]
    omega
  rw [readValue, parseValue]
  simp only [List.isEmpty_cons, Bool.false_eq_true, ↓reduceIte, triple,
    List.head?_cons, Option.some.injEq, Char.reduceEq, ends, ne_eq,
    not_true_eq_false, long, or_self]
  rw [slice_between (by decide) (by decide)]
  rfl

/-- A word that is not a boolean is a number. -/
theorem readValue_word
    {text : List Char}
    (nonempty : text ≠ [])
    (word : ∀ c ∈ text, isWordChar c = true)
    (notTrue : text ≠ "true".toList)
    (notFalse : text ≠ "false".toList) :
    readValue text = parseNumber text := by
  have heads (c : Char) (other : isWordChar c = false) :
      text.head? ≠ some c := by
    cases text with
    | nil => exact (nonempty rfl).elim
    | cons d rest =>
        have different := ne_of_word (word d List.mem_cons_self) other
        simpa using different
  have triple : ¬ ("\"\"\"".toList <+: text ∨ "'''".toList <+: text) := by
    rintro (⟨rest, rfl⟩ | ⟨rest, rfl⟩)
    · exact heads '"' (by decide) rfl
    · exact heads '\'' (by decide) rfl
  have visible : ¬ text.isEmpty = true := by
    simpa using nonempty
  rw [readValue, parseValue, if_neg visible, if_neg triple,
    if_neg (heads _ (by decide)), if_neg (heads _ (by decide)),
    if_neg (heads _ (by decide)), if_neg (heads _ (by decide)),
    if_neg notTrue, if_neg notFalse]

end Reading

/-! ## Reading integers -/

/-- A decimal digit. -/
theorem decimal_digit
    {c : Char}
    (digit : isDigitOf 10 c = true) :
    c.isDigit = true ∧ JsonParser.hexDigit c = some (c.toNat - 48) := by
  obtain ⟨d, read, small⟩ := hexDigit_of_isDigitOf digit
  have codes : '0'.val.toNat = 48 ∧ '9'.val.toNat = 57 ∧
      'a'.val.toNat = 97 ∧ 'A'.val.toNat = 65 := by
    decide
  have same : c.toNat = c.val.toNat := rfl
  unfold JsonParser.hexDigit at read ⊢
  simp only [Char.le_def, UInt32.le_iff_toNat_le] at read ⊢
  split at read
  · rename_i bounds
    rw [if_pos bounds]
    refine ⟨?_, rfl⟩
    simp only [Char.isDigit, Bool.and_eq_true, decide_eq_true_eq]
    simp only [ge_iff_le, UInt32.le_iff_toNat_le]
    exact bounds
  · split at read
    · rename_i bounds
      have value := Option.some.inj read
      omega
    · split at read
      · rename_i bounds
        have value := Option.some.inj read
        omega
      · cases read

private theorem Digits.unscored_digits
    {radix : Nat}
    {ds : List Char}
    (digits : Digits (isDigitOf radix) ds) :
    (∀ c ∈ unscored ds, isDigitOf radix c = true) ∧
      (unscored ds).head? = ds.head? := by
  have keeps {c : Char} (digit : isDigitOf radix c = true)
      (rest : List Char) : unscored (c :: rest) = c :: unscored rest := by
    obtain ⟨d, read, _⟩ := hexDigit_of_isDigitOf digit
    have notUnderscore : c ≠ '_' :=
      ne_of_hexDigit (by simp [read]) (by decide)
    exact List.filter_cons_of_pos (by simpa using notUnderscore)
  induction digits with
  | last digit =>
      rw [keeps digit]
      exact ⟨by simpa [unscored] using digit, rfl⟩
  | digit digit _ inductionHypothesis =>
      rw [keeps digit]
      refine ⟨?_, rfl⟩
      intro c member
      rcases List.mem_cons.mp member with rfl | later
      · exact digit
      · exact inductionHypothesis.1 c later
  | @underscore first rest digit _ inductionHypothesis =>
      have dropped : unscored ('_' :: rest) = unscored rest :=
        List.filter_cons_of_neg (by simp)
      rw [keeps digit, dropped]
      refine ⟨?_, rfl⟩
      intro c member
      rcases List.mem_cons.mp member with rfl | later
      · exact digit
      · exact inductionHypothesis.1 c later

/-- The digits without underscores are still there. -/
theorem Digits.unscored_cons
    {radix : Nat}
    {ds : List Char}
    (digits : Digits (isDigitOf radix) ds) :
    ∃ c rest, unscored ds = c :: rest := by
  cases shape : unscored ds with
  | nil =>
      have heads := digits.unscored_digits.2
      rw [shape] at heads
      exact (digits.nonempty (List.head?_eq_none_iff.mp heads.symm)).elim
  | cons c rest =>
      exact ⟨c, rest, rfl⟩

private theorem digitsValue_ten
    {cs : List Char}
    (digits : ∀ c ∈ cs, isDigitOf 10 c = true) :
    Nat.ofDigitChars 10 cs 0 = digitsValue 10 cs := by
  have folded (value : Nat) : Nat.ofDigitChars 10 cs value =
      cs.foldl (fun value c => 10 * value + (JsonParser.hexDigit c).getD 0)
        value := by
    induction cs generalizing value with
    | nil =>
        rfl
    | cons c cs inductionHypothesis =>
        rw [Nat.ofDigitChars_cons, inductionHypothesis
          (fun other member => digits other (List.mem_cons_of_mem c member)),
          List.foldl_cons, (decimal_digit (digits c List.mem_cons_self)).2]
        rfl
  exact folded 0

private theorem parseDigits_decimal
    {ds : List Char}
    (digits : Digits (isDigitOf 10) ds) :
    parseDigits (unscored ds) = some (digitsValue 10 (unscored ds)) := by
  have plain := digits.unscored_digits.1
  obtain ⟨c, rest, shape⟩ := digits.unscored_cons
  have visible : ¬ (unscored ds).isEmpty = true := by
    simp [shape]
  have all : (unscored ds).all Char.isDigit = true := by
    rw [List.all_eq_true]
    exact fun c member => (decimal_digit (plain c member)).1
  rw [parseDigits, if_neg visible, if_pos all, digitsValue_ten plain]

/-- A decimal number is not taken for one of another radix. -/
theorem Decimal.radixOf
    {ds : List Char}
    (decimal : Decimal ds) :
    radixOf (unscored ds) = none := by
  rcases decimal.noLeadingZero with rfl | other
  · decide
  · rw [← decimal.digits.unscored_digits.2] at other
    unfold Toml.radixOf
    split <;> simp_all

/-- Neither is its first digit taken for a sign. -/
theorem Decimal.head
    {ds : List Char}
    (decimal : Decimal ds) :
    (unscored ds).head? ≠ some '-' ∧ (unscored ds).head? ≠ some '+' := by
  obtain ⟨c, rest, shape⟩ := decimal.digits.unscored_cons
  have digit := decimal.digits.unscored_digits.1 c (by simp [shape])
  obtain ⟨d, read, _⟩ := hexDigit_of_isDigitOf digit
  have plain : JsonParser.hexDigit c ≠ none := by
    simp [read]
  rw [shape]
  simp only [List.head?_cons, ne_eq, Option.some.injEq]
  exact ⟨ne_of_hexDigit plain (by decide), ne_of_hexDigit plain (by decide)⟩

private theorem splitSign_plain
    {cs : List Char}
    (noSign : cs.head? ≠ some '-' ∧ cs.head? ≠ some '+') :
    splitSign cs = (1, cs) := by
  unfold splitSign
  split
  · simp at noSign
  · simp at noSign
  · rfl

private theorem parseI64Chars_plain
    {cs : List Char}
    (noSign : cs.head? ≠ some '-' ∧ cs.head? ≠ some '+') :
    parseI64Chars cs = ((parseDigits cs).filter (· ≤ 2 ^ 63 - 1)).map
      fun (n : Nat) => Int64.ofInt (n : Int) := by
  unfold parseI64Chars parseUnsigned
  split
  · simp at noSign
  · split
    · simp at noSign
    · rfl

private theorem positive_inRange
    {i : Int64}
    {n : Nat}
    (value : i.toInt = n) :
    ((some n).filter (· ≤ 2 ^ 63 - 1)).map
      (fun (n : Nat) => Int64.ofInt (n : Int)) = some i := by
  have bound := i.toInt_lt
  have inRange : n ≤ 2 ^ 63 - 1 := by
    omega
  rw [Option.filter_some, if_pos (by simpa using inRange), Option.map_some,
    ← value, Int64.ofInt_toInt]

/-- The digits of a number that fits are read to the end. -/
theorem radixLoop_digits
    {radix : Nat}
    (positive : 0 < radix)
    {cs : List Char}
    (digits : ∀ c ∈ cs, isDigitOf radix c = true)
    {value : Nat}
    (fits : cs.foldl
      (fun value c => radix * value + (JsonParser.hexDigit c).getD 0) value <
        2 ^ 63) :
    radixLoop radix false cs value = .ok (cs.foldl
      (fun value c => radix * value + (JsonParser.hexDigit c).getD 0)
        value : Nat) := by
  have grows (cs : List Char) (value : Nat) : value ≤ cs.foldl
      (fun value c => radix * value + (JsonParser.hexDigit c).getD 0)
        value := by
    induction cs generalizing value with
    | nil =>
        exact Nat.le_refl _
    | cons c cs inductionHypothesis =>
        refine Nat.le_trans ?_ (inductionHypothesis _)
        exact (Nat.le_mul_of_pos_left value positive).trans
          (Nat.le_add_right _ _)
  induction cs generalizing value with
  | nil =>
      rfl
  | cons c cs inductionHypothesis =>
      obtain ⟨d, read, small⟩ :=
        hexDigit_of_isDigitOf (digits c List.mem_cons_self)
      have digit : toDigit radix c = some d := by
        rw [toDigit, read, Option.filter_some, if_pos (by simpa using small)]
      have next : (value : Int) * radix + d = (radix * value + d : Nat) := by
        push_cast
        ring
      rw [List.foldl_cons, read, Option.getD_some] at fits ⊢
      have below := grows cs (radix * value + d)
      have inRange : ¬ (2 : Int) ^ 63 ≤ (radix * value + d : Nat) := by
        omega
      rw [radixLoop, digit]
      simp only [Bool.false_eq_true, ↓reduceIte, next, inRange]
      exact inductionHypothesis
        (fun other member => digits other (List.mem_cons_of_mem c member))
        fits

private theorem fromStrRadix_digits
    {radix : Nat}
    (positive : 0 < radix)
    {ds : List Char}
    (digits : Digits (isDigitOf radix) ds)
    {i : Int64}
    (value : i.toInt = digitsValue radix (unscored ds)) :
    fromStrRadix radix (unscored ds) = .ok i := by
  have plain := digits.unscored_digits.1
  obtain ⟨c, rest, shape⟩ := digits.unscored_cons
  have first : JsonParser.hexDigit c ≠ none := by
    obtain ⟨d, read, _⟩ := hexDigit_of_isDigitOf (plain c (by simp [shape]))
    simp [read]
  have notPlus : c ≠ '+' := ne_of_hexDigit first (by decide)
  have notMinus : c ≠ '-' := ne_of_hexDigit first (by decide)
  have bound := i.toInt_lt
  have loop := radixLoop_digits positive plain
    (show digitsValue radix (unscored ds) < 2 ^ 63 by omega)
  unfold digitsValue at value
  rw [shape] at loop value ⊢
  unfold fromStrRadix
  split
  · simp_all
  · simp_all
  · simp_all
  · simp_all
  · simp_all
  · rw [show ((0 : Nat) : Int) = 0 from rfl] at loop
    rw [loop, Except.map, ← value, Int64.ofInt_toInt]

/-- An integer is not a boolean. -/
theorem IntegerText.head
    {value : Int}
    {text : List Char}
    (reads : IntegerText value text) :
    text.head? ≠ some 't' ∧ text.head? ≠ some 'f' := by
  have digit {ds : List Char} (digits : Digits (isDigitOf 10) ds) :
      ds.head? ≠ some 't' ∧ ds.head? ≠ some 'f' := by
    have notDigit : isDigitOf 10 't' = false ∧ isDigitOf 10 'f' = false := by
      decide
    cases digits with
    | last digit =>
        constructor <;> intro same <;> simp_all
    | digit digit _ =>
        constructor <;> intro same <;> simp_all
    | underscore digit _ =>
        constructor <;> intro same <;> simp_all
  cases reads with
  | positive plus decimal =>
      rcases plus with rfl | rfl
      · exact digit decimal.digits
      · simp
  | negative decimal => simp
  | prefixed known digits => simp

section Integers

variable [F64Ops]

/-- A number without a radix is tried as an `i64` first. -/
theorem parseNumber_i64
    {s body : List Char}
    {sign : Int64}
    {i : Int64}
    (split : splitSign (unscored s) = (sign, body))
    (plain : radixOf body = none)
    (read : parseI64Chars (unscored s) = some i) :
    parseNumber s = .ok (.int i) := by
  unfold parseNumber
  unfold unscored at split read
  simp only [split, plain, read]

private theorem parseNumber_positive
    {sign ds : List Char}
    {i : Int64}
    (plus : sign = [] ∨ sign = ['+'])
    (decimal : Decimal ds)
    (value : i.toInt = digitsValue 10 (unscored ds)) :
    parseNumber (sign ++ ds) = .ok (.int i) := by
  have digits := parseDigits_decimal decimal.digits
  have noSign := decimal.head
  rcases plus with rfl | rfl
  · refine parseNumber_i64 (splitSign_plain noSign) decimal.radixOf ?_
    rw [List.nil_append, parseI64Chars_plain noSign, digits]
    exact positive_inRange value
  · have cleaned : unscored (['+'] ++ ds) = '+' :: unscored ds := rfl
    have split : splitSign (unscored (['+'] ++ ds)) = (1, unscored ds) := by
      rw [cleaned]
      rfl
    refine parseNumber_i64 split decimal.radixOf ?_
    rw [cleaned]
    unfold parseI64Chars parseUnsigned
    simp only [digits]
    exact positive_inRange value

private theorem parseNumber_negative
    {ds : List Char}
    {i : Int64}
    (decimal : Decimal ds)
    (value : i.toInt = -(digitsValue 10 (unscored ds) : Int)) :
    parseNumber ('-' :: ds) = .ok (.int i) := by
  have digits := parseDigits_decimal decimal.digits
  have cleaned : unscored ('-' :: ds) = '-' :: unscored ds := rfl
  have split : splitSign (unscored ('-' :: ds)) = (-1, unscored ds) := by
    rw [cleaned]
    rfl
  refine parseNumber_i64 split decimal.radixOf ?_
  have bound := i.le_toInt
  have inRange : digitsValue 10 (unscored ds) ≤ 2 ^ 63 := by
    omega
  rw [cleaned, parseI64Chars, digits, Option.filter_some,
    if_pos (by simpa using inRange), Option.map_some, ← value,
    Int64.ofInt_toInt]

private theorem parseNumber_prefixed
    {letter : Char}
    {radix : Nat}
    {ds : List Char}
    {i : Int64}
    (known : (letter, radix) ∈ radixLetters)
    (digits : Digits (isDigitOf radix) ds)
    (value : i.toInt = digitsValue radix (unscored ds)) :
    parseNumber ('0' :: letter :: ds) = .ok (.int i) := by
  simp only [radixLetters, List.mem_cons, Prod.mk.injEq, List.not_mem_nil,
    or_false] at known
  have read : fromStrRadix radix (unscored ds) = .ok i := by
    refine fromStrRadix_digits ?_ digits value
    rcases known with ⟨_, rfl⟩ | ⟨_, rfl⟩ | ⟨_, rfl⟩ <;> decide
  have product : mulI64 1 i = .ok i := by
    have low := i.le_toInt
    have high := i.toInt_lt
    have one : (1 : Int64).toInt = 1 := by
      decide
    rw [mulI64, one, Int.one_mul, if_pos ⟨low, high⟩, Int64.one_mul]
  have cleaned : ('0' :: letter :: ds).filter (· ≠ '_') =
      '0' :: letter :: unscored ds := by
    rcases known with ⟨rfl, _⟩ | ⟨rfl, _⟩ | ⟨rfl, _⟩ <;> rfl
  have prefixed : radixOf ('0' :: letter :: unscored ds) =
      some (radix, unscored ds) := by
    rcases known with ⟨rfl, rfl⟩ | ⟨rfl, rfl⟩ | ⟨rfl, rfl⟩ <;> rfl
  have split : splitSign ('0' :: letter :: unscored ds) =
      (1, '0' :: letter :: unscored ds) := rfl
  unfold parseNumber
  simp only [cleaned, split, prefixed, read, product]
  rfl

/-- Every text of an integer that fits is read as the integer. -/
theorem parseNumber_integer
    {i : Int64}
    {text : List Char}
    (reads : IntegerText i.toInt text) :
    parseNumber text = .ok (.int i) := by
  generalize value : i.toInt = n at reads
  cases reads with
  | positive plus decimal => exact parseNumber_positive plus decimal value
  | negative decimal => exact parseNumber_negative decimal value
  | prefixed known digits => exact parseNumber_prefixed known digits value

/-- What TOML says a scalar stands for is what the reader reads. -/
theorem ScalarText.read
    {v : Json}
    {text : List Char}
    (reads : ScalarText .shared v text) :
    readValue text = .ok v := by
  cases reads with
  | @basic content body reads =>
      have decoded := reads.decode
        (show body.length + 1 < (body ++ ['"']).length + 1 by simp)
      rw [readValue_basic reads.head_ne, decoded]
      rfl
  | @literal body reads =>
      refine readValue_literal ?_
      cases body with
      | nil => simp
      | cons c body => simpa using (reads c List.mem_cons_self).2
  | integer reads =>
      have heads := reads.head
      rw [readValue_word reads.word.1 reads.word.2
        (fun same => heads.1 (by rw [same]; rfl))
        (fun same => heads.2 (by rw [same]; rfl)), parseNumber_integer reads]
  | yes => rfl
  | no => rfl

end Integers

end Toml

end Myrun
