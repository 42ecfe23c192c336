import Mathlib

namespace Myrun

/-!
# Text primitives of the source language

The runtime is written against the string and integer functions of its
language's standard library.  This module fixes their meaning once, on lists of
characters: white space and trimming, splitting at a character, prefix and
suffix removal, ASCII case folding, and the textual form of fixed-width
integers.  Nothing here is specific to containers.
-/

/-- `char::is_whitespace`: the Unicode `White_Space` property. -/
def isWhitespace (c : Char) : Bool :=
  let n := c.toNat
  (9 ≤ n && n ≤ 13) || n = 0x20 || n = 0x85 || n = 0xA0 || n = 0x1680 ||
    (0x2000 ≤ n && n ≤ 0x200A) || n = 0x2028 || n = 0x2029 ||
    n = 0x202F || n = 0x205F || n = 0x3000

/-- `str::trim` on characters: drop white space at both ends. -/
def trimChars (cs : List Char) : List Char :=
  ((cs.dropWhile isWhitespace).reverse.dropWhile isWhitespace).reverse

/-- `str::trim`. -/
def trim (s : String) : String :=
  String.ofList (trimChars s.toList)

/-- `char::to_ascii_lowercase`. -/
def asciiLower (c : Char) : Char :=
  if 'A' ≤ c ∧ c ≤ 'Z' then Char.ofNat (c.toNat + 32) else c

/-- `char::to_ascii_uppercase`. -/
def asciiUpper (c : Char) : Char :=
  if 'a' ≤ c ∧ c ≤ 'z' then Char.ofNat (c.toNat - 32) else c

/-- `str::to_ascii_lowercase`. -/
def toAsciiLowercase (s : String) : String :=
  String.ofList (s.toList.map asciiLower)

/-- `str::to_ascii_uppercase`. -/
def toAsciiUppercase (s : String) : String :=
  String.ofList (s.toList.map asciiUpper)

/-- `str::eq_ignore_ascii_case`. -/
def eqIgnoreAsciiCase (s t : String) : Bool :=
  s.toList.map asciiLower = t.toList.map asciiLower

/-- `char::is_ascii_alphanumeric`. -/
def isAsciiAlphanumeric (c : Char) : Bool :=
  ('0' ≤ c && c ≤ '9') || ('a' ≤ c && c ≤ 'z') || ('A' ≤ c && c ≤ 'Z')

/-- `str::starts_with` for one character. -/
def startsWithChar (c : Char) (s : String) : Bool :=
  s.toList.head? = some c

/-- `str::starts_with` for a string. -/
def startsWith (leading s : String) : Bool :=
  leading.toList.isPrefixOf s.toList

/-- `str::strip_prefix` on characters. -/
def stripPrefixChars : List Char → List Char → Option (List Char)
  | [], cs => some cs
  | _ :: _, [] => none
  | p :: ps, c :: cs => if p = c then stripPrefixChars ps cs else none

/-- `str::strip_prefix`. -/
def stripLeading (leading s : String) : Option String :=
  (stripPrefixChars leading.toList s.toList).map String.ofList

/-- `str::strip_suffix`. -/
def stripTrailing (trailing s : String) : Option String :=
  (stripPrefixChars trailing.toList.reverse s.toList.reverse).map
    fun rest => String.ofList rest.reverse

/-- `str::split_once` on characters: cut at the first occurrence of `sep`. -/
def splitOnceChars (sep : Char) : List Char → Option (List Char × List Char)
  | [] => none
  | c :: cs =>
      if c = sep then some ([], cs)
      else (splitOnceChars sep cs).map fun parts => (c :: parts.1, parts.2)

/-- `str::split_once` for one character. -/
def splitOnce (sep : Char) (s : String) : Option (String × String) :=
  (splitOnceChars sep s.toList).map
    fun parts => (String.ofList parts.1, String.ofList parts.2)

/-- `str::split` on characters: the pieces between occurrences of `sep`. -/
def splitChars (sep : Char) : List Char → List (List Char)
  | [] => [[]]
  | c :: cs =>
      if c = sep then [] :: splitChars sep cs
      else
        match splitChars sep cs with
        | [] => [[c]]
        | piece :: pieces => (c :: piece) :: pieces

/-- `str::split` for one character. -/
def split (sep : Char) (s : String) : List String :=
  (splitChars sep s.toList).map String.ofList

private theorem splitChars_ne_nil
    (sep : Char)
    (cs : List Char) :
    splitChars sep cs ≠ [] := by
  cases cs with
  | nil =>
      simp [splitChars]
  | cons c cs =>
      simp only [splitChars]
      split
      · simp
      · split <;> simp

/-- A separator cuts anywhere. -/
theorem splitChars_cut
    (sep : Char)
    (cs rest : List Char) :
    splitChars sep (cs ++ sep :: rest) =
      splitChars sep cs ++ splitChars sep rest := by
  induction cs with
  | nil =>
      simp [splitChars]
  | cons c cs inductionHypothesis =>
      by_cases same : c = sep
      · simp [splitChars, same, inductionHypothesis]
      · obtain ⟨piece, pieces, shape⟩ :=
          List.exists_cons_of_ne_nil (splitChars_ne_nil sep cs)
        simp [splitChars, same, inductionHypothesis, shape]

/-- A text without the separator is its only piece. -/
theorem splitChars_of_not_mem
    {sep : Char}
    {piece : List Char}
    (free : sep ∉ piece) :
    splitChars sep piece = [piece] := by
  induction piece with
  | nil =>
      rfl
  | cons c cs inductionHypothesis =>
      have different : c ≠ sep := by
        rintro rfl
        exact free List.mem_cons_self
      have restFree : sep ∉ cs :=
        fun member => free (List.mem_cons_of_mem c member)
      simp [splitChars, different, inductionHypothesis restFree]

/-- Cutting at a separator that a piece does not contain. -/
theorem splitChars_append
    {sep : Char}
    {piece : List Char}
    (free : sep ∉ piece)
    (rest : List Char) :
    splitChars sep (piece ++ sep :: rest) = piece :: splitChars sep rest := by
  rw [splitChars_cut, splitChars_of_not_mem free]
  rfl

/-- `str::lines`, with the line read so far in reverse. -/
def linesFrom : List Char → List Char → List (List Char)
  | [], [] => []
  | line, [] => [line.reverse]
  | line, c :: cs =>
      if c = '\n' then
        (if line.head? = some '\r' then line.tail.reverse else line.reverse) ::
          linesFrom [] cs
      else linesFrom (c :: line) cs

/-- `str::lines`. -/
def lines (text : String) : List String :=
  (linesFrom [] text.toList).map String.ofList

/-- Number of bytes of the UTF-8 encoding. -/
def utf8Len (cs : List Char) : Nat :=
  (cs.map Char.utf8Size).sum

/-- `str::len`: a length in bytes. -/
def byteLen (s : String) : Nat :=
  utf8Len s.toList

/-- Control and format characters, separators other than the space, and
characters for private use: they are not printable. -/
def unprintable : List (Nat × Nat) :=
  [(0x0, 0x1f), (0x7f, 0xa0), (0xad, 0xad), (0x600, 0x605), (0x61c, 0x61c),
    (0x6dd, 0x6dd), (0x70f, 0x70f), (0x890, 0x891), (0x8e2, 0x8e2),
    (0x1680, 0x1680), (0x180e, 0x180e), (0x2000, 0x200f), (0x2028, 0x202f),
    (0x205f, 0x2064), (0x2066, 0x206f), (0x3000, 0x3000), (0xe000, 0xf8ff),
    (0xfeff, 0xfeff), (0xfff9, 0xfffb), (0x110bd, 0x110bd), (0x110cd, 0x110cd),
    (0x13430, 0x13438), (0x1bca0, 0x1bca3), (0x1d173, 0x1d17a),
    (0xe0001, 0xe0001), (0xe0020, 0xe007f), (0xf0000, 0x10ffff)]

/-- The blocks of characters that extend the grapheme before them.  The marks
inside the blocks of single scripts are not listed. -/
def graphemeExtending : List (Nat × Nat) :=
  [(0x300, 0x36f), (0x1ab0, 0x1ace), (0x1dc0, 0x1dff), (0x20d0, 0x20f0),
    (0xfe00, 0xfe0f), (0xfe20, 0xfe2f), (0xe0100, 0xe01ef)]

/-- A character that a `{:?}` rendering shows by its number. -/
def shownByNumber (c : Char) : Bool :=
  (graphemeExtending ++ unprintable).any fun (first, last) =>
    first ≤ c.toNat && c.toNat ≤ last

/-- One character of a `{:?}` rendering. -/
def debugChar (c : Char) : List Char :=
  if c = '"' then ['\\', '"']
  else if c = '\\' then ['\\', '\\']
  else if c = '\n' then ['\\', 'n']
  else if c = '\r' then ['\\', 'r']
  else if c = '\t' then ['\\', 't']
  else if c.toNat = 0 then ['\\', '0']
  else if shownByNumber c then
    "\\u\x7b".toList ++ Nat.toDigits 16 c.toNat ++ "\x7d".toList
  else [c]

/-- `{:?}` of a string, as it appears inside error messages. -/
def debugStr (s : String) : String :=
  String.ofList ('"' :: s.toList.flatMap debugChar ++ ['"'])

/-! ## Decimal integers -/

/-- The digits of `u64::from_str` and its siblings: at least one, decimal only. -/
def parseDigits (cs : List Char) : Option Nat :=
  if cs.isEmpty then none
  else if cs.all Char.isDigit then some (Nat.ofDigitChars 10 cs 0)
  else none

/-- `from_str` of an unsigned type whose largest value is `max`. -/
def parseUnsigned (max : Nat) (cs : List Char) : Option Nat :=
  let digits :=
    match cs with
    | '+' :: rest => rest
    | _ => cs
  (parseDigits digits).filter (· ≤ max)

/-- `i64::from_str`. -/
def parseI64Chars (cs : List Char) : Option Int64 :=
  match cs with
  | '-' :: rest =>
      ((parseDigits rest).filter (· ≤ 2 ^ 63)).map
        fun (n : Nat) => Int64.ofInt (-(n : Int))
  | _ => (parseUnsigned (2 ^ 63 - 1) cs).map fun (n : Nat) => Int64.ofInt (n : Int)

/-- `u8::from_str`. -/
def parseU8 (s : String) : Option UInt8 :=
  (parseUnsigned (2 ^ 8 - 1) s.toList).map UInt8.ofNat

/-- `u16::from_str`. -/
def parseU16 (s : String) : Option UInt16 :=
  (parseUnsigned (2 ^ 16 - 1) s.toList).map UInt16.ofNat

/-- `u32::from_str`. -/
def parseU32 (s : String) : Option UInt32 :=
  (parseUnsigned (2 ^ 32 - 1) s.toList).map UInt32.ofNat

/-- `u64::from_str`. -/
def parseU64 (s : String) : Option UInt64 :=
  (parseUnsigned (2 ^ 64 - 1) s.toList).map UInt64.ofNat

/-- The `{}` rendering of a natural number is never empty. -/
theorem toDigits_isEmpty (n : Nat) :
    (Nat.toDigits 10 n).isEmpty = false := by
  cases shape : Nat.toDigits 10 n with
  | nil =>
      exact (Nat.toDigits_ne_nil shape).elim
  | cons digit rest =>
      rfl

/-- Every character of a decimal rendering is a digit. -/
theorem toDigits_all_isDigit (n : Nat) :
    (Nat.toDigits 10 n).all Char.isDigit = true := by
  rw [List.all_eq_true]
  intro digit member
  exact Nat.isDigit_of_mem_toDigits (by decide) (by decide) member

/-- Parsing the decimal digits of a number returns the number. -/
@[simp] theorem parseDigits_toDigits (n : Nat) :
    parseDigits (Nat.toDigits 10 n) = some n := by
  simp [parseDigits, toDigits_isEmpty, toDigits_all_isDigit,
    Nat.ofDigitChars_ten_toDigits]

/-- A decimal rendering does not start with a sign. -/
theorem head_toDigits_isDigit
    {n : Nat}
    {first : Char}
    {rest : List Char}
    (shape : Nat.toDigits 10 n = first :: rest) :
    first.isDigit = true := by
  have member : first ∈ Nat.toDigits 10 n := by
    rw [shape]
    exact List.mem_cons_self
  exact Nat.isDigit_of_mem_toDigits (by decide) (by decide) member

/-- An in-range unsigned number survives printing and parsing. -/
theorem parseUnsigned_toDigits
    {max n : Nat}
    (inRange : n ≤ max) :
    parseUnsigned max (Nat.toDigits 10 n) = some n := by
  unfold parseUnsigned
  split
  · rename_i rest shape
    have plusIsDigit := head_toDigits_isDigit shape
    simp at plusIsDigit
  · simp [inRange]

/-! ## Cutting at a character -/

theorem splitOnceChars_append
    {sep : Char}
    {key : List Char}
    (free : sep ∉ key)
    (rest : List Char) :
    splitOnceChars sep (key ++ sep :: rest) = some (key, rest) := by
  induction key with
  | nil =>
      simp [splitOnceChars]
  | cons c key inductionHypothesis =>
      rw [List.mem_cons, not_or] at free
      simp [splitOnceChars, Ne.symm free.1, inductionHypothesis free.2]

theorem splitOnceChars_key_free
    {sep : Char}
    {cs key rest : List Char}
    (cut : splitOnceChars sep cs = some (key, rest)) :
    sep ∉ key := by
  induction cs generalizing key with
  | nil =>
      simp [splitOnceChars] at cut
  | cons c cs inductionHypothesis =>
      by_cases same : c = sep
      · simp only [splitOnceChars, same, ↓reduceIte, Option.some.injEq,
          Prod.mk.injEq] at cut
        simp [← cut.1]
      · simp only [splitOnceChars, same, ↓reduceIte, Option.map_eq_some_iff,
          Prod.mk.injEq] at cut
        obtain ⟨⟨tail, _⟩, cutRest, rfl, rfl⟩ := cut
        simp [Ne.symm same, inductionHypothesis cutRest]

theorem splitOnceChars_none_free
    {sep : Char}
    {cs : List Char}
    (uncut : splitOnceChars sep cs = none) :
    sep ∉ cs := by
  intro member
  obtain ⟨key, rest, rfl, free⟩ := List.eq_append_cons_of_mem member
  rw [splitOnceChars_append free] at uncut
  cases uncut

theorem splitOnceChars_shape
    {wanted : Char}
    {line before after : List Char}
    (cut : splitOnceChars wanted line = some (before, after)) :
    line = before ++ wanted :: after := by
  induction line generalizing before with
  | nil =>
      cases cut
  | cons c line inductionHypothesis =>
      by_cases same : c = wanted
      · simp only [splitOnceChars, same, ↓reduceIte, Option.some.injEq,
          Prod.mk.injEq] at cut
        obtain ⟨rfl, rfl⟩ := cut
        simp [same]
      · simp only [splitOnceChars, same, ↓reduceIte,
          Option.map_eq_some_iff] at cut
        obtain ⟨⟨front, rest⟩, cutRest, shape⟩ := cut
        obtain ⟨rfl, rfl⟩ := Prod.mk.inj shape
        rw [inductionHypothesis cutRest]
        rfl

end Myrun
