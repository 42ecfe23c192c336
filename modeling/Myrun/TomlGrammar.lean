import Myrun.TomlValue

namespace Myrun

/-!
# The texts of TOML 1.0

What TOML itself says about keys and scalars, written down without the reader
in mind: which texts there are and what they stand for.  The reader knows fewer
escapes than TOML, so the escapes are a parameter.
-/

namespace Toml

/-! ## Characters -/

/-- The white space of TOML. -/
def isBlank (c : Char) : Bool :=
  c = ' ' || c = '\t'

/-- A character that is not a control character, or a tab. -/
def isPlain (c : Char) : Bool :=
  c = '\t' || (0x20 ≤ c.toNat && c.toNat ≠ 0x7F)

/-- A character of a bare key. -/
def isBareKeyChar (c : Char) : Bool :=
  isAsciiAlphanumeric c || c = '_' || c = '-'

/-! ## Strings -/

/-- The escapes of basic strings: letters that stand for a character, and
letters that a number of hexadecimal digits follows. -/
structure Escapes where
  simple : List (Char × Char)
  unicode : List (Char × Nat)

/-- The escapes that the reader knows and TOML too. -/
def Escapes.shared : Escapes where
  simple := [('n', '\n'), ('t', '\t'), ('r', '\r'), ('"', '"'), ('\\', '\\')]
  unicode := [('u', 4)]

/-- The escapes of TOML 1.0. -/
def Escapes.toml : Escapes where
  simple := Escapes.shared.simple ++ [('b', '\x08'), ('f', '\x0c')]
  unicode := Escapes.shared.unicode ++ [('U', 8)]

/-- What follows a backslash, and the character that it stands for. -/
inductive Escapes.Reads (escapes : Escapes) : List Char → Char → Prop where
  | simple {letter c : Char}
      (known : (letter, c) ∈ escapes.simple) :
      escapes.Reads [letter] c
  | unicode {letter c : Char} {count : Nat} {hex : List Char}
      (known : (letter, count) ∈ escapes.unicode)
      (digits : hex.length = count)
      (value : JsonParser.hexDigits hex 0 = some c.toNat) :
      escapes.Reads (letter :: hex) c

/-- The content of a basic string and the text between its quotes. -/
inductive BasicBody (escapes : Escapes) : List Char → List Char → Prop where
  | nil : BasicBody escapes [] []
  | raw {c : Char} {content body : List Char}
      (plain : isPlain c = true)
      (notQuote : c ≠ '"')
      (notBackslash : c ≠ '\\')
      (rest : BasicBody escapes content body) :
      BasicBody escapes (c :: content) (c :: body)
  | escaped {c : Char} {text content body : List Char}
      (reads : escapes.Reads text c)
      (rest : BasicBody escapes content body) :
      BasicBody escapes (c :: content) ('\\' :: (text ++ body))

/-- A text that a literal string can hold. -/
def LiteralBody (body : List Char) : Prop :=
  ∀ c ∈ body, isPlain c = true ∧ c ≠ '\''

/-! ## Keys -/

/-- A key that needs no quotes. -/
def BareKey (k : List Char) : Prop :=
  k ≠ [] ∧ ∀ c ∈ k, isBareKeyChar c = true

/-! ## Numbers -/

/-- Digits, with an underscore between two of them here and there. -/
inductive Digits (isDigit : Char → Bool) : List Char → Prop where
  | last {c : Char}
      (digit : isDigit c = true) :
      Digits isDigit [c]
  | digit {c : Char} {rest : List Char}
      (digit : isDigit c = true)
      (digits : Digits isDigit rest) :
      Digits isDigit (c :: rest)
  | underscore {c : Char} {rest : List Char}
      (digit : isDigit c = true)
      (digits : Digits isDigit rest) :
      Digits isDigit (c :: '_' :: rest)

/-- A text without its underscores. -/
def unscored (cs : List Char) : List Char :=
  cs.filter (· ≠ '_')

/-- A digit of a radix up to sixteen. -/
def isDigitOf (radix : Nat) (c : Char) : Bool :=
  (toDigit radix c).isSome

/-- The number that digits stand for. -/
def digitsValue (radix : Nat) (cs : List Char) : Nat :=
  cs.foldl (fun value c => radix * value + (JsonParser.hexDigit c).getD 0) 0

/-- A decimal number does not start with a zero, unless it is one. -/
def NoLeadingZero (ds : List Char) : Prop :=
  ds = ['0'] ∨ ds.head? ≠ some '0'

/-- The letters of the other radices. -/
def radixLetters : List (Char × Nat) :=
  [('x', 16), ('o', 8), ('b', 2)]

/-- A decimal number without a sign. -/
structure Decimal (ds : List Char) : Prop where
  digits : Digits (isDigitOf 10) ds
  noLeadingZero : NoLeadingZero ds

/-- An integer and a text for it. -/
inductive IntegerText : Int → List Char → Prop where
  | positive {sign ds : List Char}
      (plus : sign = [] ∨ sign = ['+'])
      (decimal : Decimal ds) :
      IntegerText (digitsValue 10 (unscored ds)) (sign ++ ds)
  | negative {ds : List Char}
      (decimal : Decimal ds) :
      IntegerText (-(digitsValue 10 (unscored ds) : Int)) ('-' :: ds)
  | prefixed {letter : Char} {radix : Nat} {ds : List Char}
      (known : (letter, radix) ∈ radixLetters)
      (digits : Digits (isDigitOf radix) ds) :
      IntegerText (digitsValue radix (unscored ds)) ('0' :: letter :: ds)

/-- The sign of a number, if it has one. -/
def Sign (sign : List Char) : Prop :=
  sign = [] ∨ sign = ['+'] ∨ sign = ['-']

/-- The exponent of a float. -/
inductive Exponent : List Char → Prop where
  | mk {e : Char} {sign ds : List Char}
      (letter : e = 'e' ∨ e = 'E')
      (signed : Sign sign)
      (digits : Digits (isDigitOf 10) ds) :
      Exponent (e :: (sign ++ ds))

/-- The text of a float. -/
inductive FloatText : List Char → Prop where
  | fraction {sign ds fs exponent : List Char}
      (signed : Sign sign)
      (decimal : Decimal ds)
      (digits : Digits (isDigitOf 10) fs)
      (scaled : exponent = [] ∨ Exponent exponent) :
      FloatText (sign ++ (ds ++ '.' :: (fs ++ exponent)))
  | exponent {sign ds exponent : List Char}
      (signed : Sign sign)
      (decimal : Decimal ds)
      (scaled : Exponent exponent) :
      FloatText (sign ++ (ds ++ exponent))
  | special {sign word : List Char}
      (signed : Sign sign)
      (known : word = "inf".toList ∨ word = "nan".toList) :
      FloatText (sign ++ word)

/-! ## Scalars -/

/-- Strings, integers and booleans, and texts for them. -/
inductive ScalarText (escapes : Escapes) : Json → List Char → Prop where
  | basic {content body : List Char}
      (reads : BasicBody escapes content body) :
      ScalarText escapes (.str (String.ofList content))
        ('"' :: (body ++ ['"']))
  | literal {body : List Char}
      (reads : LiteralBody body) :
      ScalarText escapes (.str (String.ofList body))
        ('\'' :: (body ++ ['\'']))
  | integer {i : Int64} {text : List Char}
      (reads : IntegerText i.toInt text) :
      ScalarText escapes (.int i) text
  | yes : ScalarText escapes (.bool true) "true".toList
  | no : ScalarText escapes (.bool false) "false".toList

end Toml

end Myrun
