import Myrun.ProcessStat

namespace Myrun

/-!
# `/proc/self/mountinfo`

`src/sys/mount.rs` reads the mount table from one line for each mount.  The
kernel writes a space, a tab, a newline and a backslash in a path as a
backslash and three octal digits, and all other characters as they are.

The reader turns the bytes of a field with a backslash into characters one by
one, cuts three bytes out of the text behind each backslash, and takes any
white space for the end of a field.
-/

namespace Mount

open Toml (Guarded crash slice asBytes byteOf IsAscii)
open Process (numberText isWord_numberText parseI32_numberText)

/-- `MountEntry`. -/
structure MountEntry where
  mountId : Int32
  parentId : Int32
  root : String
  mountPoint : String
  options : String
  fstype : String
  source : String
  superOptions : String
  deriving Repr, DecidableEq

/-- An octal digit. -/
def isOctDigit (c : Char) : Bool :=
  '0' ≤ c && c ≤ '7'

/-- `u8::from_str_radix(_, 8)`. -/
def parseOctU8 (cs : List Char) : Option UInt8 :=
  let digits :=
    match cs with
    | '+' :: rest => rest
    | _ => cs
  if digits.isEmpty || !digits.all isOctDigit then none
  else
    let n := Nat.ofDigitChars 8 digits 0
    if n ≤ 255 then some (.ofNat n) else none

/-- `as char`. -/
def charOf (b : UInt8) : Char :=
  .ofNat b.toNat

/-- The loop of `unescape_octal` over the bytes of `s` from offset `i` on. -/
def unescapeFrom (s : List Char) : Nat → List UInt8 → Guarded (List Char)
  | _, [] => .ok []
  | i, b :: b1 :: b2 :: b3 :: rest =>
      if b = byteOf '\\' then do
        let oct ← slice s (i + 1) (i + 4)
        match parseOctU8 oct with
        | some v => (charOf v :: ·) <$> unescapeFrom s (i + 4) rest
        | none => (charOf b :: ·) <$> unescapeFrom s (i + 1) (b1 :: b2 :: b3 :: rest)
      else (charOf b :: ·) <$> unescapeFrom s (i + 1) (b1 :: b2 :: b3 :: rest)
  -- no three bytes behind this one
  | i, b :: rest => (charOf b :: ·) <$> unescapeFrom s (i + 1) rest

/-- `unescape_octal`. -/
def unescapeOctal (s : List Char) : Guarded (List Char) :=
  if '\\' ∉ s then .ok s
  else unescapeFrom s 0 (asBytes s)

/-- The fields of a line and the place of the separator, if the line is not
passed over. -/
def fieldsOf (line : String) : Option (List String × Nat) :=
  let fields := splitWhitespace line
  if fields.length < 10 then none
  else
    match fields.findIdx? (· = "-") with
    | none => none
    | some sep => if fields.length < sep + 3 then none else some (fields, sep)

/-- `unescape_octal` of a field. -/
def unescapeField (fields : List String) (n : Nat) : Guarded String :=
  String.ofList <$> unescapeOctal (fields.getD n "").toList

/-- The entry of a line. -/
def entryOf (fields : List String) (sep : Nat) : Guarded MountEntry := do
  let root ← unescapeField fields 3
  let mountPoint ← unescapeField fields 4
  let source ← unescapeField fields (sep + 2)
  return {
    mountId := (parseI32 (fields.getD 0 "")).getD (-1)
    parentId := (parseI32 (fields.getD 1 "")).getD (-1)
    root
    mountPoint
    options := fields.getD 5 ""
    fstype := fields.getD (sep + 1) ""
    source
    superOptions := fields.getD (sep + 3) "" }

/-- `parse_mountinfo` from a line on. -/
def parseLines : List String → Guarded (List MountEntry)
  | [] => .ok []
  | line :: rest =>
      match fieldsOf line with
      | none => parseLines rest
      | some (fields, sep) => do
          let e ← entryOf fields sep
          let entries ← parseLines rest
          return e :: entries

/-- `parse_mountinfo`. -/
def parseMountinfo (text : String) : Guarded (List MountEntry) :=
  parseLines (lines text)

/-! ## Unescaping character by character -/

/-- What the loop makes of a character that is not escaped. -/
def latin1 (c : Char) : List Char :=
  (String.utf8EncodeChar c).map charOf

private theorem charOf_toNat (b : UInt8) : (charOf b).toNat = b.toNat := by
  have bound := b.toNat_lt
  rw [charOf, Char.toNat_ofNat, if_pos (.inl (by omega))]

private theorem charOf_byteOf
    {c : Char}
    (ascii : IsAscii c) :
    charOf (byteOf c) = c := by
  rw [charOf, Toml.byteOf_toNat ascii, Char.ofNat_toNat]

private theorem latin1_ascii
    {c : Char}
    (ascii : IsAscii c) :
    latin1 c = [c] := by
  rw [latin1, Toml.encode_ascii ascii, List.map_singleton,
    charOf_byteOf ascii]

@[simp] theorem length_latin1 (c : Char) : (latin1 c).length = c.utf8Size := by
  rw [latin1, List.length_map, String.length_utf8EncodeChar]

section Loop

variable {s : List Char}

private theorem unescapeFrom_plain
    {b : UInt8}
    (plain : b ≠ byteOf '\\')
    (i : Nat)
    (rest : List UInt8) :
    unescapeFrom s i (b :: rest) =
      (charOf b :: ·) <$> unescapeFrom s (i + 1) rest := by
  match rest with
  | [] => rfl
  | [_] => rfl
  | [_, _] => rfl
  | b1 :: b2 :: b3 :: rest => rw [unescapeFrom, if_neg plain]

private theorem unescapeFrom_plainBytes
    {bytes : List UInt8}
    (plain : ∀ b ∈ bytes, b ≠ byteOf '\\')
    (i : Nat)
    (rest : List UInt8) :
    unescapeFrom s i (bytes ++ rest) =
      (bytes.map charOf ++ ·) <$> unescapeFrom s (i + bytes.length) rest := by
  induction bytes generalizing i with
  | nil =>
      exact (id_map _).symm
  | cons b bytes inductionHypothesis =>
      have others := inductionHypothesis
        (fun other member => plain other (List.mem_cons_of_mem b member))
        (i + 1)
      rw [List.cons_append, unescapeFrom_plain (plain b List.mem_cons_self),
        others, Functor.map_map, List.length_cons, Nat.add_assoc,
        Nat.add_comm 1]
      rfl

private theorem encode_plain
    {c : Char}
    (notBackslash : c ≠ '\\') :
    ∀ b ∈ String.utf8EncodeChar c, b ≠ byteOf '\\' := by
  intro b member
  by_cases ascii : IsAscii c
  · rw [Toml.encode_ascii ascii] at member
    rw [List.mem_singleton.mp member, ne_eq,
      Toml.byteOf_inj ascii (by decide)]
    exact notBackslash
  · have high := Toml.encode_high ascii b member
    rintro rfl
    revert high
    decide

/-- A character that is no backslash. -/
theorem unescapeFrom_char
    {c : Char}
    (notBackslash : c ≠ '\\')
    (i : Nat)
    (cs : List Char) :
    unescapeFrom s i (asBytes (c :: cs)) =
      (latin1 c ++ ·) <$> unescapeFrom s (i + c.utf8Size) (asBytes cs) := by
  rw [Toml.asBytes_cons, unescapeFrom_plainBytes (encode_plain notBackslash),
    String.length_utf8EncodeChar]
  rfl

/-- Three bytes behind a backslash, if they are whole characters. -/
theorem slice_behind
    {front cs : List Char}
    (shape : s = front ++ '\\' :: cs) :
    slice s (utf8Len front + 1) (utf8Len front + 4) =
      match JsonParser.takeBytes 3 cs with
      | some (oct, _) => .ok oct
      | none => crash .slice := by
  have start : Toml.sliceFrom s (utf8Len front + 1) = .ok cs := by
    have cut := Toml.sliceFrom_append (front ++ ['\\']) cs
    rw [List.append_assoc] at cut
    rw [shape]
    simpa [Toml.utf8Size_ascii (by decide : IsAscii '\\')] using cut
  have ordered : ¬ utf8Len front + 4 < utf8Len front + 1 := by
    omega
  have three : utf8Len front + 4 - (utf8Len front + 1) = 3 := by
    omega
  rw [slice, if_neg ordered, start, three]
  rfl

/-- A backslash without three bytes behind it stays. -/
theorem unescapeFrom_short
    {cs : List Char}
    (short : utf8Len cs < 3)
    (i : Nat) :
    unescapeFrom s i (asBytes ('\\' :: cs)) =
      ('\\' :: ·) <$> unescapeFrom s (i + 1) (asBytes cs) := by
  have bytes : asBytes ('\\' :: cs) = byteOf '\\' :: asBytes cs := by
    rw [Toml.asBytes_cons, Toml.encode_ascii (by decide)]
    rfl
  have length := Toml.length_asBytes cs
  have backslash : charOf (byteOf '\\') = '\\' := charOf_byteOf (by decide)
  rw [bytes]
  match shape : asBytes cs with
  | [] => simp only [unescapeFrom, backslash]
  | [_] => simp only [unescapeFrom, backslash]
  | [_, _] => simp only [unescapeFrom, backslash]
  | b1 :: b2 :: b3 :: rest =>
      rw [shape, List.length_cons, List.length_cons, List.length_cons]
        at length
      omega

/-- A backslash with three bytes behind it. -/
theorem unescapeFrom_backslash
    {front cs : List Char}
    (shape : s = front ++ '\\' :: cs)
    (long : 3 ≤ utf8Len cs) :
    unescapeFrom s (utf8Len front) (asBytes ('\\' :: cs)) =
      match JsonParser.takeBytes 3 cs with
      | none => crash .slice
      | some (oct, rest) =>
          match parseOctU8 oct with
          | some v =>
              (charOf v :: ·) <$>
                unescapeFrom s (utf8Len front + 4) (asBytes rest)
          | none =>
              ('\\' :: ·) <$>
                unescapeFrom s (utf8Len front + 1) (asBytes cs) := by
  have bytes : asBytes ('\\' :: cs) = byteOf '\\' :: asBytes cs := by
    rw [Toml.asBytes_cons, Toml.encode_ascii (by decide)]
    rfl
  have length := Toml.length_asBytes cs
  have backslash : charOf (byteOf '\\') = '\\' := charOf_byteOf (by decide)
  rw [bytes]
  match behind : asBytes cs with
  | [] =>
      simp only [behind, List.length_nil] at length
      omega
  | [_] =>
      simp only [behind, List.length_singleton] at length
      omega
  | [_, _] =>
      simp only [behind, List.length_cons, List.length_nil] at length
      omega
  | b1 :: b2 :: b3 :: rest =>
      rw [unescapeFrom, if_pos rfl, slice_behind shape]
      cases taken : JsonParser.takeBytes 3 cs with
      | none => rfl
      | some cut =>
          obtain ⟨oct, after⟩ := cut
          obtain ⟨rfl, three⟩ := Toml.takeBytes_some taken
          have rest_eq : rest = asBytes after := by
            have size := Toml.length_asBytes oct
            rw [three] at size
            rw [Toml.asBytes_append] at behind
            have dropped := congrArg (List.drop 3) behind
            rw [← size, List.drop_left] at dropped
            rw [dropped, size]
            rfl
          rw [rest_eq, backslash]
          rfl

end Loop

/-! ## What the kernel writes -/

/-- The characters that are escaped. -/
def mustEscape (c : Char) : Bool :=
  c = ' ' || c = '\t' || c = '\n' || c = '\\'

/-- A character as it is written. -/
def escapeChar (c : Char) : List Char :=
  if mustEscape c then
    ['\\', Nat.digitChar (c.toNat / 64), Nat.digitChar (c.toNat / 8 % 8),
      Nat.digitChar (c.toNat % 8)]
  else [c]

/-- A text as it is written. -/
def escape (cs : List Char) : List Char :=
  cs.flatMap escapeChar

/-- What the loop makes of a text as it is written. -/
def reread (cs : List Char) : List Char :=
  cs.flatMap fun c => if mustEscape c then [c] else latin1 c

@[simp] theorem escape_cons (c : Char) (cs : List Char) :
    escape (c :: cs) = escapeChar c ++ escape cs := by
  simp [escape]

@[simp] theorem reread_cons (c : Char) (cs : List Char) :
    reread (c :: cs) =
      (if mustEscape c then [c] else latin1 c) ++ reread cs := by
  simp [reread]

private theorem mustEscape_iff {c : Char} :
    mustEscape c = true ↔ c = ' ' ∨ c = '\t' ∨ c = '\n' ∨ c = '\\' := by
  simp [mustEscape, or_assoc]

private theorem escapeChar_plain
    {c : Char}
    (plain : mustEscape c = false) :
    escapeChar c = [c] := by
  simp [escapeChar, plain]

/-- The three digits of an escaped character. -/
theorem escapeChar_special
    {c : Char}
    (special : mustEscape c = true) :
    ∃ oct, escapeChar c = '\\' :: oct ∧ utf8Len oct = 3 ∧
      ∃ v, parseOctU8 oct = some v ∧ charOf v = c := by
  rcases mustEscape_iff.mp special with rfl | rfl | rfl | rfl
  · exact ⟨['0', '4', '0'], by decide +kernel, by decide +kernel, 32,
      by decide +kernel, by decide +kernel⟩
  · exact ⟨['0', '1', '1'], by decide +kernel, by decide +kernel, 9,
      by decide +kernel, by decide +kernel⟩
  · exact ⟨['0', '1', '2'], by decide +kernel, by decide +kernel, 10,
      by decide +kernel, by decide +kernel⟩
  · exact ⟨['1', '3', '4'], by decide +kernel, by decide +kernel, 92,
      by decide +kernel, by decide +kernel⟩

private theorem unescapeFrom_escape
    {s : List Char}
    (cs : List Char)
    (front : List Char)
    (shape : s = front ++ escape cs) :
    unescapeFrom s (utf8Len front) (asBytes (escape cs)) =
      .ok (reread cs) := by
  induction cs generalizing front with
  | nil =>
      rfl
  | cons c cs inductionHypothesis =>
      cases special : mustEscape c with
      | true =>
          obtain ⟨oct, written, three, v, parsed, value⟩ :=
            escapeChar_special special
          have taken : JsonParser.takeBytes 3 (oct ++ escape cs) =
              some (oct, escape cs) := by
            rw [← three]
            exact Toml.takeBytes_append oct (escape cs)
          have long : 3 ≤ utf8Len (oct ++ escape cs) := by
            rw [Toml.utf8Len_append, three]
            exact Nat.le_add_right 3 _
          rw [escape_cons, written, List.cons_append] at shape
          have rest := inductionHypothesis (front ++ '\\' :: oct)
            (by simpa using shape)
          have behind : utf8Len (front ++ '\\' :: oct) = utf8Len front + 4 := by
            simp [three, Toml.utf8Size_ascii (by decide : IsAscii '\\')]
          rw [behind] at rest
          rw [escape_cons, written, List.cons_append,
            unescapeFrom_backslash shape long, taken]
          simp only [parsed, rest, value]
          simp [special]
      | false =>
          have notBackslash : c ≠ '\\' := by
            rintro rfl
            cases special
          rw [escape_cons, escapeChar_plain special] at shape ⊢
          have rest := inductionHypothesis (front ++ [c])
            (by simpa using shape)
          have behind : utf8Len (front ++ [c]) = utf8Len front + c.utf8Size := by
            simp
          rw [behind] at rest
          rw [List.singleton_append, unescapeFrom_char notBackslash, rest]
          simp [special]

/-- What `unescape_octal` makes of a text as it is written. -/
def decoded (cs : List Char) : List Char :=
  if cs.all fun c => !mustEscape c then cs else reread cs

private theorem escape_plain
    {cs : List Char}
    (plain : ∀ c ∈ cs, mustEscape c = false) :
    escape cs = cs := by
  induction cs with
  | nil =>
      rfl
  | cons c cs inductionHypothesis =>
      rw [escape_cons, escapeChar_plain (plain c List.mem_cons_self),
        inductionHypothesis fun d member =>
          plain d (List.mem_cons_of_mem c member)]
      rfl

private theorem unescapeOctal_escape (cs : List Char) :
    unescapeOctal (escape cs) = .ok (decoded cs) := by
  unfold unescapeOctal decoded
  by_cases plain : ∀ c ∈ cs, mustEscape c = false
  · have free : '\\' ∉ cs := by
      intro member
      cases plain '\\' member
    rw [escape_plain plain, if_pos free, if_pos]
    simpa using plain
  · have found : '\\' ∈ escape cs := by
      obtain ⟨c, member, special⟩ : ∃ c ∈ cs, mustEscape c = true := by
        simpa using plain
      obtain ⟨oct, written, _⟩ := escapeChar_special special
      exact List.mem_flatMap.mpr ⟨c, member, by simp [written]⟩
    rw [if_neg (not_not.mpr found), if_neg (by simpa using plain)]
    exact unescapeFrom_escape cs [] rfl

/-! ## Which texts are read back -/

private theorem latin1_ne_nil (c : Char) : latin1 c ≠ [] := by
  have positive := Char.utf8Size_pos c
  intro empty
  have size := length_latin1 c
  rw [empty, List.length_nil] at size
  omega

private theorem isAscii_of_mustEscape
    {c : Char}
    (special : mustEscape c = true) :
    IsAscii c := by
  rcases mustEscape_iff.mp special with rfl | rfl | rfl | rfl <;> decide

private theorem reread_of_ascii
    {cs : List Char}
    (ascii : ∀ c ∈ cs, IsAscii c) :
    reread cs = cs := by
  induction cs with
  | nil =>
      rfl
  | cons c cs inductionHypothesis =>
      rw [reread_cons, latin1_ascii (ascii c List.mem_cons_self), ite_self,
        inductionHypothesis fun d member =>
          ascii d (List.mem_cons_of_mem c member)]
      rfl

private theorem length_le_reread (cs : List Char) :
    cs.length ≤ (reread cs).length := by
  induction cs with
  | nil =>
      exact Nat.le_refl _
  | cons c cs inductionHypothesis =>
      have positive := Char.utf8Size_pos c
      rw [reread_cons, List.length_append, List.length_cons]
      split
      · rw [List.length_singleton]
        omega
      · rw [length_latin1]
        omega

/-- Every longer character becomes several. -/
theorem ascii_of_reread
    {cs : List Char}
    (same : (reread cs).length = cs.length) :
    ∀ c ∈ cs, IsAscii c := by
  induction cs with
  | nil =>
      simp
  | cons c cs inductionHypothesis =>
      have least := length_le_reread cs
      have positive := Char.utf8Size_pos c
      rw [reread_cons, List.length_append, List.length_cons] at same
      have here : IsAscii c := by
        cases special : mustEscape c with
        | true => exact isAscii_of_mustEscape special
        | false =>
            by_contra wide
            have size : c.utf8Size ≠ 1 := by
              intro one
              exact wide (Nat.lt_succ_of_le (Char.utf8Size_eq_one_iff.mp one))
            simp only [special, Bool.false_eq_true, if_false, length_latin1]
              at same
            omega
      have rest : (reread cs).length = cs.length := by
        rw [latin1_ascii here, ite_self, List.length_singleton] at same
        omega
      intro d member
      rcases List.mem_cons.mp member with rfl | behind
      · exact here
      · exact inductionHypothesis rest d behind

/-- Without an escape, or with ASCII characters only. -/
theorem decoded_eq_iff {cs : List Char} :
    decoded cs = cs ↔
      (∀ c ∈ cs, mustEscape c = false) ∨ ∀ c ∈ cs, IsAscii c := by
  by_cases plain : ∀ c ∈ cs, mustEscape c = false
  · have same : decoded cs = cs := by
      rw [decoded, if_pos (by simpa using plain)]
    exact iff_of_true same (.inl plain)
  · rw [decoded, if_neg (by simpa using plain), or_iff_right plain]
    constructor
    · intro same
      exact ascii_of_reread (congrArg List.length same)
    · exact reread_of_ascii

/-! ## A text that is cut short -/

/-- White space that is written as it is. -/
def rawSpace (c : Char) : Bool :=
  isWhitespace c && !mustEscape c

/-- The part of `reread` that belongs to one character. -/
def rereadChar (c : Char) : List Char :=
  if mustEscape c then [c] else latin1 c

private theorem reread_cons' (c : Char) (cs : List Char) :
    reread (c :: cs) = rereadChar c ++ reread cs :=
  reread_cons c cs

private theorem rereadChar_ascii
    {c : Char}
    (ascii : IsAscii c) :
    rereadChar c = [c] := by
  rw [rereadChar, latin1_ascii ascii, ite_self]

/-- The characters that a text could share with what is made of it. -/
def Stable (c : Char) : Prop :=
  (IsAscii c ∧ rawSpace c = false) ∨
    c ∈ ['\u00C2', '\u00C3', '\u0082', '\u0083']

private theorem Stable.notSpace
    {c : Char}
    (stable : Stable c) :
    rawSpace c = false := by
  rcases stable with ⟨_, notSpace⟩ | listed
  · exact notSpace
  · simp only [List.mem_cons, List.not_mem_nil, or_false] at listed
    rcases listed with rfl | rfl | rfl | rfl <;> decide +kernel

private theorem Stable.rereadChar
    {c : Char}
    (stable : Stable c) :
    ∀ d ∈ rereadChar c, Stable d := by
  rcases stable with ⟨ascii, notSpace⟩ | listed
  · rw [rereadChar_ascii ascii]
    intro d member
    rw [List.mem_singleton.mp member]
    exact .inl ⟨ascii, notSpace⟩
  · have first : Mount.rereadChar '\u00C2' = ['\u00C3', '\u0082'] := by
      decide +kernel
    have second : Mount.rereadChar '\u00C3' = ['\u00C3', '\u0083'] := by
      decide +kernel
    have third : Mount.rereadChar '\u0082' = ['\u00C2', '\u0082'] := by
      decide +kernel
    have fourth : Mount.rereadChar '\u0083' = ['\u00C2', '\u0083'] := by
      decide +kernel
    simp only [List.mem_cons, List.not_mem_nil, or_false] at listed
    intro d member
    refine .inr ?_
    rcases listed with rfl | rfl | rfl | rfl
    · rw [first] at member
      exact List.Sublist.subset (by decide) member
    · rw [second] at member
      exact List.Sublist.subset (by decide) member
    · rw [third] at member
      exact List.Sublist.subset (by decide) member
    · rw [fourth] at member
      exact List.Sublist.subset (by decide) member

/-- A longer character that is its own first byte. -/
theorem stable_of_head
    {c : Char}
    {rest : List Char}
    (notSpace : rawSpace c = false)
    (fixed : rereadChar c = c :: rest) :
    Stable c := by
  by_cases ascii : IsAscii c
  · exact .inl ⟨ascii, notSpace⟩
  · have wide : mustEscape c = false := by
      cases special : mustEscape c with
      | true => exact absurd (isAscii_of_mustEscape special) ascii
      | false => rfl
    rw [rereadChar, wide, if_neg Bool.false_ne_true] at fixed
    have small : c.toNat < 256 := by
      have member : c ∈ latin1 c := by
        rw [fixed]
        exact List.mem_cons_self
      obtain ⟨b, _, rfl⟩ := List.mem_map.mp member
      have bound := b.toNat_lt
      rw [charOf_toNat]
      omega
    have all : ∀ n : Fin 256, 128 ≤ n.val →
        (latin1 (Char.ofNat n.val)).head? = some (Char.ofNat n.val) →
          Char.ofNat n.val = '\u00C3' := by
      decide +kernel
    have found := all ⟨c.toNat, small⟩ (Nat.not_lt.mp ascii)
    simp only [Char.ofNat_toNat] at found
    rw [found (by rw [fixed]; rfl)]
    exact .inr (by decide)

/-- No white space follows a text in what is made of it. -/
theorem stable_of_isPrefix
    {last : Char}
    (cs queue : List Char)
    (solid : ∀ c ∈ cs, rawSpace c = false)
    (stable : ∀ c ∈ queue, Stable c)
    (continues : (cs ++ [last]).IsPrefix (queue ++ reread cs)) :
    Stable last := by
  induction cs generalizing queue with
  | nil =>
      obtain ⟨rest, same⟩ := continues
      cases queue with
      | nil =>
          cases same
      | cons d queue =>
          obtain ⟨rfl, _⟩ := List.cons.inj same
          exact stable _ List.mem_cons_self
  | cons c cs inductionHypothesis =>
      have solidRest : ∀ d ∈ cs, rawSpace d = false :=
        fun d member => solid d (List.mem_cons_of_mem c member)
      obtain ⟨rest, same⟩ := continues
      rw [reread_cons', List.cons_append, List.cons_append] at same
      cases queue with
      | nil =>
          cases shape : rereadChar c with
          | nil =>
              rw [rereadChar] at shape
              split at shape
              · cases shape
              · exact absurd shape (latin1_ne_nil c)
          | cons d ds =>
              rw [shape, List.nil_append, List.cons_append] at same
              obtain ⟨rfl, tail⟩ := List.cons.inj same
              have here := stable_of_head (solid c List.mem_cons_self) shape
              refine inductionHypothesis ds solidRest ?_ ⟨rest, tail⟩
              intro d member
              refine here.rereadChar d ?_
              rw [shape]
              exact List.mem_cons_of_mem c member
      | cons d queue =>
          obtain ⟨rfl, tail⟩ := List.cons.inj same
          refine inductionHypothesis (queue ++ rereadChar c) solidRest ?_
            ⟨rest, by simpa using tail⟩
          intro d member
          rcases List.mem_append.mp member with queued | made
          · exact stable d (List.mem_cons_of_mem c queued)
          · exact (stable c List.mem_cons_self).rereadChar d made

private theorem decoded_ne_of_tail
    {cs rest : List Char}
    {last : Char}
    (solid : ∀ c ∈ cs, rawSpace c = false)
    (space : rawSpace last = true) :
    decoded cs ≠ cs ++ last :: rest := by
  intro same
  unfold decoded at same
  split at same
  · have lengths := congrArg List.length same
    rw [List.length_append, List.length_cons] at lengths
    omega
  · have continues : (cs ++ [last]).IsPrefix ([] ++ reread cs) :=
      ⟨rest, by simp [same]⟩
    have stable := stable_of_isPrefix cs [] solid (by simp) continues
    rw [stable.notSpace] at space
    cases space

/-- The first byte of a longer character is none of a white space. -/
theorem latin1_head
    {c : Char}
    (wide : ¬ IsAscii c) :
    ∀ d ∈ (latin1 c).head?, isWhitespace d = false := by
  have large : ¬ c.val.toNat ≤ 127 := by
    intro small
    exact wide (Nat.lt_succ_of_le small)
  have lead : ∀ b ∈ (String.utf8EncodeChar c).head?, 192 ≤ b.toNat := by
    intro b member
    have bound : c.val.toNat < 1114112 := by
      rcases c.valid with low | ⟨_, high⟩
      · omega
      · exact high
    simp only [String.utf8EncodeChar, large, ↓reduceIte] at member
    split at member
    · obtain rfl := Option.some.inj member
      simp only [UInt8.toNat_ofNat']
      omega
    · split at member
      · obtain rfl := Option.some.inj member
        simp only [UInt8.toNat_ofNat']
        omega
      · obtain rfl := Option.some.inj member
        simp only [UInt8.toNat_ofNat']
        omega
  intro d member
  rw [latin1, List.head?_map] at member
  obtain ⟨b, first, rfl⟩ := Option.map_eq_some_iff.mp member
  have high := lead b first
  have small := b.toNat_lt
  simp only [isWhitespace, charOf_toNat, Bool.or_eq_false_iff, Bool.and_eq_false_iff,
    decide_eq_false_iff_not]
  omega

private theorem decoded_ne_of_blank
    {cs rest : List Char}
    {first : Char}
    (nonempty : cs ≠ [])
    (solid : ∀ c ∈ cs, rawSpace c = false)
    (space : rawSpace first = true) :
    decoded cs ≠ first :: rest := by
  intro same
  obtain ⟨c, cs, rfl⟩ := List.exists_cons_of_ne_nil nonempty
  have notSpace := solid c List.mem_cons_self
  unfold decoded at same
  split at same
  · rw [(List.cons.inj same).1, space] at notSpace
    cases notSpace
  · rw [reread_cons'] at same
    by_cases ascii : IsAscii c
    · rw [rereadChar_ascii ascii] at same
      rw [(List.cons.inj same).1, space] at notSpace
      cases notSpace
    · have plain : mustEscape c = false := by
        cases special : mustEscape c with
        | true => exact absurd (isAscii_of_mustEscape special) ascii
        | false => rfl
      rw [rereadChar, plain, if_neg Bool.false_ne_true] at same
      obtain ⟨d, ds, shape⟩ := List.exists_cons_of_ne_nil (latin1_ne_nil c)
      have solidHead := latin1_head ascii d (by rw [shape]; rfl)
      rw [shape] at same
      rw [(List.cons.inj same).1] at solidHead
      simp [rawSpace, solidHead] at space

/-! ## The words of a text as it is written -/

private theorem escapeChar_solid
    {c : Char}
    (notSpace : rawSpace c = false) :
    escapeChar c ≠ [] ∧ ∀ d ∈ escapeChar c, isWhitespace d = false := by
  cases special : mustEscape c with
  | true =>
      have written :
          (!(escapeChar c).isEmpty &&
            (escapeChar c).all fun d => !isWhitespace d) = true := by
        rcases mustEscape_iff.mp special with rfl | rfl | rfl | rfl <;>
          decide +kernel
      simpa using written
  | false =>
      rw [escapeChar_plain special]
      simpa [rawSpace, special] using notSpace

private theorem isWord_escape
    {cs : List Char}
    (nonempty : cs ≠ [])
    (solid : ∀ c ∈ cs, rawSpace c = false) :
    IsWord (escape cs) := by
  constructor
  · obtain ⟨c, cs, rfl⟩ := List.exists_cons_of_ne_nil nonempty
    rw [escape_cons]
    exact List.append_ne_nil_of_left_ne_nil
      (escapeChar_solid (solid c List.mem_cons_self)).1 _
  · intro d member
    obtain ⟨c, inText, inChar⟩ := List.mem_flatMap.mp member
    exact (escapeChar_solid (solid c inText)).2 d inChar

private theorem isWhitespace_of_rawSpace
    {c : Char}
    (space : rawSpace c = true) :
    isWhitespace c = true :=
  (Bool.and_eq_true_iff.mp space).1

private theorem escape_rawSpace
    {cs : List Char}
    (blank : ∀ c ∈ cs, rawSpace c = true) :
    escape cs = cs := by
  refine escape_plain ?_
  intro c member
  have space := blank c member
  simp only [rawSpace, Bool.and_eq_true, Bool.not_eq_true'] at space
  exact space.2

/-- A text is white space only, or it has a first word. -/
theorem exists_parts (cs : List Char) :
    (∀ c ∈ cs, rawSpace c = true) ∨
      ∃ blanks word tail, cs = blanks ++ (word ++ tail) ∧
        (∀ c ∈ blanks, rawSpace c = true) ∧ word ≠ [] ∧
        (∀ c ∈ word, rawSpace c = false) ∧
        ∀ c ∈ tail.head?, rawSpace c = true := by
  induction cs with
  | nil =>
      exact .inl (by simp)
  | cons c cs inductionHypothesis =>
      cases space : rawSpace c with
      | true =>
          rcases inductionHypothesis with
            blank | ⟨blanks, word, tail, rfl, blank, nonempty, solid, ends⟩
          · exact .inl (by simpa [space] using blank)
          · exact .inr ⟨c :: blanks, word, tail, rfl, by simpa [space] using blank,
              nonempty, solid, ends⟩
      | false =>
          refine .inr ⟨[], c :: cs.takeWhile fun d => !rawSpace d,
            cs.dropWhile fun d => !rawSpace d, ?_, by simp,
            List.cons_ne_nil _ _, ?_, ?_⟩
          · simp
          · intro d member
            rcases List.mem_cons.mp member with rfl | taken
            · exact space
            · simpa using List.mem_takeWhile_imp taken
          · intro d first
            have stopped := List.head?_dropWhile_not (fun d => !rawSpace d) cs
            rw [Option.mem_def.mp first] at stopped
            simpa using stopped

private theorem words_skip
    {blanks : List Char}
    (blank : ∀ c ∈ blanks, isWhitespace c = true)
    (rest : List Char) :
    words (blanks ++ rest) = words rest := by
  induction blanks with
  | nil =>
      rfl
  | cons c blanks inductionHypothesis =>
      rw [List.cons_append, words_space (blank c List.mem_cons_self)]
      exact inductionHypothesis fun d member =>
        blank d (List.mem_cons_of_mem c member)

/-- The first word of a text as it is written is read as the text only if no
white space was written as it is. -/
theorem words_escape (cs : List Char) :
    (words (escape cs) = [] ∧ ∀ c ∈ cs, rawSpace c = true) ∨
      ∃ word more, words (escape cs) = String.ofList (escape word) :: more ∧
        (decoded word = cs → ∀ c ∈ cs, rawSpace c = false) := by
  rcases exists_parts cs with
    blank | ⟨blanks, word, tail, rfl, blank, nonempty, solid, ends⟩
  · refine .inl ⟨?_, blank⟩
    rw [escape_rawSpace blank]
    exact words_blank fun c member => isWhitespace_of_rawSpace (blank c member)
  · have cut : escape (blanks ++ (word ++ tail)) =
        blanks ++ (escape word ++ escape tail) := by
      rw [escape, List.flatMap_append, List.flatMap_append]
      exact congrArg (· ++ _) (escape_rawSpace blank)
    have next : ∀ c ∈ (escape tail).head?, isWhitespace c = true := by
      cases tail with
      | nil => simp [escape]
      | cons d tail =>
          have space := ends d rfl
          have plain : mustEscape d = false := by
            simp only [rawSpace, Bool.and_eq_true, Bool.not_eq_true'] at space
            exact space.2
          rw [escape_cons, escapeChar_plain plain]
          simpa using isWhitespace_of_rawSpace space
    refine .inr ⟨word, words (escape tail), ?_, ?_⟩
    · rw [cut, words_skip fun c member => isWhitespace_of_rawSpace
        (blank c member), words_append (isWord_escape nonempty solid) next]
    · intro same
      cases blanks with
      | cons b blanks =>
          exact absurd same (decoded_ne_of_blank nonempty solid
            (blank b List.mem_cons_self))
      | nil =>
          cases tail with
          | nil => simpa using solid
          | cons d tail =>
              exact absurd same (decoded_ne_of_tail solid (ends d rfl))

/-- A field that is read as the text it was written from. -/
theorem solid_of_first
    {cs : List Char}
    {first : String}
    {more : List String}
    (shape : words (escape cs) = first :: more)
    (read : unescapeOctal first.toList = .ok cs) :
    ∀ c ∈ cs, rawSpace c = false := by
  rcases words_escape cs with ⟨empty, _⟩ | ⟨word, _, written, solid⟩
  · rw [empty] at shape
    cases shape
  · rw [written] at shape
    obtain ⟨rfl, _⟩ := List.cons.inj shape
    rw [String.toList_ofList, unescapeOctal_escape] at read
    exact solid (Except.ok.inj read)

private theorem words_escape_ne_nil
    {cs : List Char}
    (absolute : cs.head? = some '/') :
    words (escape cs) ≠ [] := by
  intro empty
  rcases words_escape cs with ⟨_, blank⟩ | ⟨_, _, written, _⟩
  · have space := blank '/' (List.mem_of_mem_head? absolute)
    revert space
    decide
  · rw [written] at empty
    cases empty

/-- A text without such white space is one word. -/
theorem words_escape_solid
    {cs : List Char}
    (nonempty : cs ≠ [])
    (solid : ∀ c ∈ cs, rawSpace c = false) :
    words (escape cs) = [String.ofList (escape cs)] :=
  words_of_word (isWord_escape nonempty solid)

/-! ## Lines -/

/-- What one line is written from. -/
structure MountLine where
  entry : MountEntry
  device : List Char
  optional : List (List Char)

namespace MountLine

/-- The fields behind the first one, as they are written. -/
def fields (l : MountLine) : List (List Char) :=
  [numberText l.entry.parentId.toInt, l.device, escape l.entry.root.toList,
    escape l.entry.mountPoint.toList, l.entry.options.toList] ++ l.optional ++
    [['-'], l.entry.fstype.toList, escape l.entry.source.toList,
      l.entry.superOptions.toList]

/-- The line as the kernel writes it. -/
def render (l : MountLine) : List Char :=
  numberText l.entry.mountId.toInt ++ spaced l.fields

/-- The two paths are absolute and there is a source.  The other fields are
words, and only the separator is a dash. -/
structure WellFormed (l : MountLine) : Prop where
  root : l.entry.root.toList.head? = some '/'
  mountPoint : l.entry.mountPoint.toList.head? = some '/'
  source : l.entry.source ≠ ""
  device : IsWord l.device ∧ l.device ≠ ['-']
  options : IsWord l.entry.options.toList ∧ l.entry.options ≠ "-"
  optional : ∀ field ∈ l.optional, IsWord field ∧ field ≠ ['-']
  fstype : IsWord l.entry.fstype.toList
  superOptions : IsWord l.entry.superOptions.toList

end MountLine

private theorem MountLine.WellFormed.source_ne_nil
    {l : MountLine}
    (wellFormed : l.WellFormed) :
    l.entry.source.toList ≠ [] := by
  intro empty
  exact wellFormed.source (String.toList_eq_nil_iff.mp empty)

/-- A text that comes back: its only white space is spaces, tabs and newlines,
and it has no character to be escaped or only ASCII characters. -/
structure ComesBack (cs : List Char) : Prop where
  solid : ∀ c ∈ cs, isWhitespace c = true → mustEscape c = true
  decoded : (∀ c ∈ cs, mustEscape c = false) ∨ ∀ c ∈ cs, IsAscii c

private theorem comesBack_iff {cs : List Char} :
    ComesBack cs ↔ (∀ c ∈ cs, rawSpace c = false) ∧ decoded cs = cs := by
  have spaces : (∀ c ∈ cs, isWhitespace c = true → mustEscape c = true) ↔
      ∀ c ∈ cs, rawSpace c = false := by
    refine forall₂_congr fun c _ => ?_
    cases space : isWhitespace c <;> simp [rawSpace, space]
  constructor
  · rintro ⟨solid, whole⟩
    exact ⟨spaces.mp solid, decoded_eq_iff.mpr whole⟩
  · rintro ⟨solid, same⟩
    exact ⟨spaces.mpr solid, decoded_eq_iff.mp same⟩

private theorem decoded_of_read
    {text : String}
    (read : unescapeOctal (String.ofList (escape text.toList)).toList =
      .ok text.toList) :
    decoded text.toList = text.toList := by
  rw [String.toList_ofList, unescapeOctal_escape] at read
  exact Except.ok.inj read

private theorem read_of_decoded
    {text : String}
    (same : decoded text.toList = text.toList) :
    unescapeOctal (String.ofList (escape text.toList)).toList =
      .ok text.toList := by
  rw [String.toList_ofList, unescapeOctal_escape, same]

private theorem words_spaced_flatMap (tokens : List (List Char)) :
    words (spaced tokens) = tokens.flatMap words := by
  induction tokens with
  | nil =>
      rfl
  | cons token tokens inductionHypothesis =>
      rw [spaced_cons, words_space (by decide), List.flatMap_cons,
        ← inductionHypothesis]
      cases tokens with
      | nil =>
          simp
      | cons other tokens =>
          rw [spaced_cons, words_break (by decide),
            @words_space ' ' (by decide)]

/-- The words of a list of words. -/
theorem flatMap_words
    {tokens : List (List Char)}
    (areWords : ∀ token ∈ tokens, IsWord token) :
    tokens.flatMap words = tokens.map String.ofList := by
  induction tokens with
  | nil =>
      rfl
  | cons token tokens inductionHypothesis =>
      rw [List.flatMap_cons, words_of_word (areWords token List.mem_cons_self),
        inductionHypothesis fun other member =>
          areWords other (List.mem_cons_of_mem token member)]
      rfl

/-- The words of a line. -/
theorem words_render
    {l : MountLine}
    (wellFormed : l.WellFormed) :
    words l.render =
      String.ofList (numberText l.entry.mountId.toInt) ::
        String.ofList (numberText l.entry.parentId.toInt) ::
        String.ofList l.device ::
        (words (escape l.entry.root.toList) ++
          (words (escape l.entry.mountPoint.toList) ++
            (l.entry.options :: (l.optional.map String.ofList ++
              ("-" :: l.entry.fstype ::
                (words (escape l.entry.source.toList) ++
                  [l.entry.superOptions])))))) := by
  have behind : ∀ c ∈ (spaced l.fields).head?, isWhitespace c = true := by
    intro c first
    obtain rfl : ' ' = c := by
      simpa [MountLine.fields] using first
    decide
  have dash : words ['-'] = ["-"] := by
    refine words_of_word ⟨by simp, ?_⟩
    intro c member
    rw [List.mem_singleton.mp member]
    decide
  rw [MountLine.render, words_append (isWord_numberText _) behind,
    words_spaced_flatMap, MountLine.fields]
  simp only [List.flatMap_append, List.flatMap_cons, List.flatMap_nil,
    flatMap_words fun field member => (wellFormed.optional field member).1,
    words_of_word (isWord_numberText _), words_of_word wellFormed.device.1,
    words_of_word wellFormed.options.1, words_of_word wellFormed.fstype,
    words_of_word wellFormed.superOptions, dash, String.ofList_toList,
    List.append_nil, List.cons_append, List.nil_append]

private theorem findIdx?_dash
    {front : List String}
    (free : ∀ field ∈ front, field ≠ "-")
    (rest : List String) :
    (front ++ "-" :: rest).findIdx? (· = "-") = some front.length := by
  induction front with
  | nil =>
      rfl
  | cons field front inductionHypothesis =>
      have others := inductionHypothesis fun other member =>
        free other (List.mem_cons_of_mem field member)
      rw [List.cons_append, List.findIdx?_cons, others]
      simp [free field List.mem_cons_self]

private theorem map_eq_ok
    {α β : Type}
    {f : α → β}
    {p : Guarded α}
    {value : β} :
    f <$> p = .ok value ↔ ∃ inner, p = .ok inner ∧ f inner = value := by
  cases p with
  | ok inner => simp [Functor.map, Except.map]
  | error e => simp [Functor.map, Except.map]

/-- What the reader takes from the fields of a line. -/
theorem entryOf_eq_ok
    {fields : List String}
    {sep : Nat}
    {e : MountEntry} :
    entryOf fields sep = .ok e ↔
      unescapeOctal (fields.getD 3 "").toList = .ok e.root.toList ∧
      unescapeOctal (fields.getD 4 "").toList = .ok e.mountPoint.toList ∧
      unescapeOctal (fields.getD (sep + 2) "").toList = .ok e.source.toList ∧
      (parseI32 (fields.getD 0 "")).getD (-1) = e.mountId ∧
      (parseI32 (fields.getD 1 "")).getD (-1) = e.parentId ∧
      fields.getD 5 "" = e.options ∧ fields.getD (sep + 1) "" = e.fstype ∧
      fields.getD (sep + 3) "" = e.superOptions := by
  have field : ∀ n text, unescapeField fields n = .ok text ↔
      unescapeOctal (fields.getD n "").toList = .ok text.toList := by
    intro n text
    rw [unescapeField, map_eq_ok]
    constructor
    · rintro ⟨inner, read, rfl⟩
      rw [String.toList_ofList, read]
    · intro read
      exact ⟨text.toList, read, String.ofList_toList⟩
  obtain ⟨mountId, parentId, root, mountPoint, options, fstype, source,
    superOptions⟩ := e
  rw [entryOf, Result.bind_eq_ok]
  constructor
  · rintro ⟨_, first, read⟩
    obtain ⟨_, second, read⟩ := Result.bind_eq_ok.mp read
    obtain ⟨_, third, read⟩ := Result.bind_eq_ok.mp read
    obtain ⟨rfl, rfl, rfl, rfl, rfl, rfl, rfl, rfl⟩ :=
      MountEntry.mk.inj (Except.ok.inj read)
    exact ⟨(field _ _).mp first, (field _ _).mp second, (field _ _).mp third,
      rfl, rfl, rfl, rfl, rfl⟩
  · rintro ⟨first, second, third, rfl, rfl, rfl, rfl, rfl⟩
    refine ⟨root, (field _ _).mpr first, Result.bind_eq_ok.mpr ?_⟩
    refine ⟨mountPoint, (field _ _).mpr second, Result.bind_eq_ok.mpr ?_⟩
    exact ⟨source, (field _ _).mpr third, rfl⟩

/-- A line that is read as the entry it was written from. -/
def MountLine.ReadBack (l : MountLine) : Prop :=
  ∃ fields sep, fieldsOf (String.ofList l.render) = some (fields, sep) ∧
    entryOf fields sep = .ok l.entry

/-- The three texts that are escaped come back. -/
structure MountLine.Plain (l : MountLine) : Prop where
  root : ComesBack l.entry.root.toList
  mountPoint : ComesBack l.entry.mountPoint.toList
  source : ComesBack l.entry.source.toList

private theorem fieldsOf_eq_some
    {line : List Char}
    {fields : List String}
    {sep : Nat} :
    fieldsOf (String.ofList line) = some (fields, sep) ↔
      words line = fields ∧ 10 ≤ fields.length ∧
        fields.findIdx? (· = "-") = some sep ∧ sep + 3 ≤ fields.length := by
  have same : splitWhitespace (String.ofList line) = words line := by
    rw [splitWhitespace, String.toList_ofList]
    rfl
  unfold fieldsOf
  rw [same]
  by_cases short : (words line).length < 10
  · simp only [short, if_true]
    constructor
    · intro none
      cases none
    · rintro ⟨rfl, long, _⟩
      omega
  · simp only [short, if_false]
    cases found : (words line).findIdx? (· = "-") with
    | none =>
        constructor
        · intro none
          cases none
        · rintro ⟨rfl, _, some, _⟩
          rw [found] at some
          cases some
    | some place =>
        by_cases cut : (words line).length < place + 3
        · simp only [cut, if_true]
          constructor
          · intro none
            cases none
          · rintro ⟨rfl, _, some, long⟩
            obtain rfl := Option.some.inj (found.symm.trans some)
            omega
        · simp only [cut, if_false, Option.some.injEq, Prod.mk.injEq]
          constructor
          · rintro ⟨rfl, rfl⟩
            exact ⟨rfl, Nat.not_lt.mp short, found, Nat.not_lt.mp cut⟩
          · rintro ⟨rfl, _, some, _⟩
            exact ⟨rfl, Option.some.inj (found.symm.trans some)⟩

section Line

variable {l : MountLine}

private theorem numberText_ne_dash (n : Int32) :
    String.ofList (numberText n.toInt) ≠ "-" := by
  intro same
  have read := parseI32_numberText n
  rw [same] at read
  cases read

private theorem ofList_ne_dash
    {cs : List Char}
    (different : cs ≠ ['-']) :
    String.ofList cs ≠ "-" := by
  intro same
  have characters := congrArg String.toList same
  rw [String.toList_ofList] at characters
  exact different characters

private theorem escape_ne_dash
    {cs : List Char}
    (absolute : cs.head? = some '/') :
    escape cs ≠ ['-'] := by
  cases cs with
  | nil => cases absolute
  | cons c cs =>
      obtain rfl := Option.some.inj absolute
      intro same
      rw [escape_cons, escapeChar_plain (by decide)] at same
      exact absurd (List.cons.inj same).1 (by decide)

/-- The fields of a line whose texts are words. -/
def MountLine.written (l : MountLine) : List String :=
  (String.ofList (numberText l.entry.mountId.toInt) ::
    String.ofList (numberText l.entry.parentId.toInt) ::
    String.ofList l.device ::
    String.ofList (escape l.entry.root.toList) ::
    String.ofList (escape l.entry.mountPoint.toList) ::
    l.entry.options :: l.optional.map String.ofList) ++
      "-" :: l.entry.fstype ::
        (words (escape l.entry.source.toList) ++ [l.entry.superOptions])

private theorem separator_written
    (wellFormed : l.WellFormed) :
    l.written.findIdx? (· = "-") = some (l.optional.length + 6) := by
  have free : ∀ field ∈ String.ofList (numberText l.entry.mountId.toInt) ::
        String.ofList (numberText l.entry.parentId.toInt) ::
        String.ofList l.device ::
        String.ofList (escape l.entry.root.toList) ::
        String.ofList (escape l.entry.mountPoint.toList) ::
        l.entry.options :: l.optional.map String.ofList,
      field ≠ "-" := by
    intro field member
    simp only [List.mem_cons] at member
    rcases member with rfl | rfl | rfl | rfl | rfl | rfl | listed
    · exact numberText_ne_dash _
    · exact numberText_ne_dash _
    · exact ofList_ne_dash wellFormed.device.2
    · exact ofList_ne_dash (escape_ne_dash wellFormed.root)
    · exact ofList_ne_dash (escape_ne_dash wellFormed.mountPoint)
    · exact wellFormed.options.2
    · obtain ⟨token, inLine, rfl⟩ := List.mem_map.mp listed
      exact ofList_ne_dash (wellFormed.optional token inLine).2
  rw [MountLine.written, findIdx?_dash free]
  simp

private theorem ne_nil_of_absolute
    {cs : List Char}
    (absolute : cs.head? = some '/') :
    cs ≠ [] := by
  rintro rfl
  cases absolute

/-- When the two paths are words, the source starts two fields behind the
separator. -/
theorem words_render_solid
    (wellFormed : l.WellFormed)
    (root : ∀ c ∈ l.entry.root.toList, rawSpace c = false)
    (mountPoint : ∀ c ∈ l.entry.mountPoint.toList, rawSpace c = false) :
    words l.render = l.written := by
  rw [words_render wellFormed, MountLine.written,
    words_escape_solid (ne_nil_of_absolute wellFormed.root) root,
    words_escape_solid (ne_nil_of_absolute wellFormed.mountPoint) mountPoint]
  rfl

private theorem written_behind (n : Nat) :
    l.written.getD (l.optional.length + 6 + 1 + n) "" =
      (l.entry.fstype :: (words (escape l.entry.source.toList) ++
        [l.entry.superOptions])).getD n "" := by
  have place : l.optional.length + 6 + 1 + n =
      (String.ofList (numberText l.entry.mountId.toInt) ::
        String.ofList (numberText l.entry.parentId.toInt) ::
        String.ofList l.device ::
        String.ofList (escape l.entry.root.toList) ::
        String.ofList (escape l.entry.mountPoint.toList) ::
        l.entry.options :: l.optional.map String.ofList).length + (n + 1) := by
    simp only [List.length_cons, List.length_map]
    omega
  rw [MountLine.written, place, List.getD_append_right _ _ _ _ (by omega),
    Nat.add_sub_cancel_left]
  rfl

/-- A line that is read as its entry is plain. -/
theorem plain_of_readBack
    (wellFormed : l.WellFormed)
    (readBack : l.ReadBack) :
    l.Plain := by
  obtain ⟨fields, sep, used, read⟩ := readBack
  obtain ⟨isFields, _, separator, _⟩ := fieldsOf_eq_some.mp used
  obtain ⟨root, mountPoint, source, _, _, _, _, superOptions⟩ :=
    entryOf_eq_ok.mp read
  have fieldsShape := (words_render wellFormed).symm.trans isFields
  have rootSolid : ∀ c ∈ l.entry.root.toList, rawSpace c = false := by
    obtain ⟨first, more, shape⟩ :=
      List.exists_cons_of_ne_nil (words_escape_ne_nil wellFormed.root)
    refine solid_of_first shape ?_
    rw [← fieldsShape, shape] at root
    exact root
  have rootWord :=
    words_escape_solid (ne_nil_of_absolute wellFormed.root) rootSolid
  have mountSolid : ∀ c ∈ l.entry.mountPoint.toList, rawSpace c = false := by
    obtain ⟨first, more, shape⟩ :=
      List.exists_cons_of_ne_nil (words_escape_ne_nil wellFormed.mountPoint)
    refine solid_of_first shape ?_
    rw [← fieldsShape, rootWord, shape] at mountPoint
    exact mountPoint
  have mountWord :=
    words_escape_solid (ne_nil_of_absolute wellFormed.mountPoint) mountSolid
  have written := words_render_solid wellFormed rootSolid mountSolid
  rw [isFields] at written
  have place : sep = l.optional.length + 6 := by
    rw [written, separator_written wellFormed] at separator
    exact (Option.some.inj separator).symm
  have behind := @written_behind l
  rw [← written, ← place] at behind
  have sourceSolid : ∀ c ∈ l.entry.source.toList, rawSpace c = false := by
    cases shape : words (escape l.entry.source.toList) with
    | nil =>
        -- the options take the place of the source and nothing follows them
        have missing := behind 2
        rw [shape, superOptions] at missing
        exact absurd (congrArg String.toList missing)
          wellFormed.superOptions.nonempty
    | cons first more =>
        refine solid_of_first shape ?_
        have here := behind 1
        rw [shape] at here
        rw [here] at source
        exact source
  have sourceWord := words_escape_solid wellFormed.source_ne_nil sourceSolid
  refine ⟨comesBack_iff.mpr ⟨rootSolid, ?_⟩,
    comesBack_iff.mpr ⟨mountSolid, ?_⟩, comesBack_iff.mpr ⟨sourceSolid, ?_⟩⟩
  · rw [written] at root
    exact decoded_of_read root
  · rw [written] at mountPoint
    exact decoded_of_read mountPoint
  · have here := behind 1
    rw [sourceWord] at here
    rw [here] at source
    exact decoded_of_read source

/-- A plain line is read as its entry. -/
theorem readBack_of_plain
    (wellFormed : l.WellFormed)
    (plain : l.Plain) :
    l.ReadBack := by
  obtain ⟨rootSolid, root⟩ := comesBack_iff.mp plain.root
  obtain ⟨mountSolid, mountPoint⟩ := comesBack_iff.mp plain.mountPoint
  obtain ⟨sourceSolid, source⟩ := comesBack_iff.mp plain.source
  have written := words_render_solid wellFormed rootSolid mountSolid
  have sourceWord := words_escape_solid wellFormed.source_ne_nil sourceSolid
  have behind := @written_behind l
  have length : l.written.length = l.optional.length + 10 := by
    simp [MountLine.written, sourceWord, Nat.add_comm, Nat.add_left_comm]
  refine ⟨l.written, l.optional.length + 6, fieldsOf_eq_some.mpr ⟨written,
    by omega, separator_written wellFormed, by omega⟩, ?_⟩
  have mountId : (parseI32 (l.written.getD 0 "")).getD (-1) =
      l.entry.mountId :=
    congrArg (Option.getD · (-1)) (parseI32_numberText _)
  have parentId : (parseI32 (l.written.getD 1 "")).getD (-1) =
      l.entry.parentId :=
    congrArg (Option.getD · (-1)) (parseI32_numberText _)
  refine entryOf_eq_ok.mpr ⟨read_of_decoded root, read_of_decoded mountPoint,
    ?_, mountId, parentId, rfl, behind 0, ?_⟩
  · rw [behind 1, sourceWord]
    exact read_of_decoded source
  · rw [behind 2, sourceWord]
    rfl

end Line

/-! ## Whole files -/

/-- The text of the file. -/
def renderAll (ls : List MountLine) : String :=
  String.ofList ((ls.map MountLine.render).flatMap (· ++ ['\n']))

private theorem not_mem_escape (cs : List Char) : '\n' ∉ escape cs := by
  intro member
  obtain ⟨c, _, inChar⟩ := List.mem_flatMap.mp member
  cases special : mustEscape c with
  | true =>
      have written : (escapeChar c).all (· ≠ '\n') = true := by
        rcases mustEscape_iff.mp special with rfl | rfl | rfl | rfl <;>
          decide +kernel
      simpa using List.all_eq_true.mp written _ inChar
  | false =>
      rw [escapeChar_plain special] at inChar
      rw [← List.mem_singleton.mp inChar] at special
      cases special

private theorem not_mem_of_isWord
    {cs : List Char}
    (word : IsWord cs) :
    '\n' ∉ cs := by
  intro member
  have solid := word.solid '\n' member
  revert solid
  decide

private theorem render_proper
    {l : MountLine}
    (wellFormed : l.WellFormed) :
    '\n' ∉ l.render ∧ l.render.getLast? ≠ some '\r' := by
  constructor
  · intro member
    rcases List.mem_append.mp member with first | behind
    · exact not_mem_of_isWord (isWord_numberText _) first
    · obtain ⟨token, inLine, inToken⟩ := List.mem_flatMap.mp behind
      rcases List.mem_cons.mp inToken with isSpace | inside
      · cases isSpace
      · simp only [MountLine.fields, List.mem_append, List.mem_cons,
          List.not_mem_nil, or_false] at inLine
        rcases inLine with
          ((rfl | rfl | rfl | rfl | rfl) | listed) | (rfl | rfl | rfl | rfl)
        · exact not_mem_of_isWord (isWord_numberText _) inside
        · exact not_mem_of_isWord wellFormed.device.1 inside
        · exact not_mem_escape _ inside
        · exact not_mem_escape _ inside
        · exact not_mem_of_isWord wellFormed.options.1 inside
        · exact not_mem_of_isWord (wellFormed.optional token listed).1 inside
        · exact absurd (List.mem_singleton.mp inside) (by decide)
        · exact not_mem_of_isWord wellFormed.fstype inside
        · exact not_mem_escape _ inside
        · exact not_mem_of_isWord wellFormed.superOptions inside
  · obtain ⟨front, shape⟩ : ∃ front, l.render =
        front ++ l.entry.superOptions.toList := by
      refine ⟨numberText l.entry.mountId.toInt ++ (spaced
        ([numberText l.entry.parentId.toInt, l.device,
          escape l.entry.root.toList, escape l.entry.mountPoint.toList,
          l.entry.options.toList] ++ l.optional ++
          [['-'], l.entry.fstype.toList, escape l.entry.source.toList]) ++
        [' ']), ?_⟩
      simp [MountLine.render, MountLine.fields, spaced]
    intro ends
    rw [shape, List.getLast?_append_of_ne_nil _
      wellFormed.superOptions.nonempty] at ends
    have solid := wellFormed.superOptions.solid '\r'
      (List.mem_of_getLast? ends)
    revert solid
    decide

private theorem lines_renderAll
    {ls : List MountLine}
    (wellFormed : ∀ l ∈ ls, l.WellFormed) :
    lines (renderAll ls) = ls.map fun l => String.ofList l.render := by
  rw [lines, renderAll, String.toList_ofList, linesFrom_flatMap]
  · simp
  · intro row member
    obtain ⟨l, inFile, rfl⟩ := List.mem_map.mp member
    exact render_proper (wellFormed l inFile)

private theorem length_parseLines
    {texts : List String}
    {entries : List MountEntry}
    (parsed : parseLines texts = .ok entries) :
    entries.length ≤ texts.length := by
  induction texts generalizing entries with
  | nil =>
      obtain rfl := Except.ok.inj parsed
      exact Nat.le_refl _
  | cons line texts inductionHypothesis =>
      rw [parseLines] at parsed
      split at parsed
      · exact Nat.le_succ_of_le (inductionHypothesis parsed)
      · obtain ⟨e, _, parsed⟩ := Result.bind_eq_ok.mp parsed
        obtain ⟨others, rest, same⟩ := Result.bind_eq_ok.mp parsed
        obtain rfl := Except.ok.inj same
        exact Nat.succ_le_succ (inductionHypothesis rest)

/-- As there is at most one entry for a line, each line must give its own. -/
theorem parseLines_eq_iff (ls : List MountLine) :
    parseLines (ls.map fun l => String.ofList l.render) =
        .ok (ls.map MountLine.entry) ↔
      ∀ l ∈ ls, l.ReadBack := by
  induction ls with
  | nil =>
      simp [parseLines]
  | cons l ls inductionHypothesis =>
      rw [List.forall_mem_cons, ← inductionHypothesis, List.map_cons,
        List.map_cons, parseLines]
      cases used : fieldsOf (String.ofList l.render) with
      | none =>
          constructor
          · intro parsed
            have lengths := length_parseLines parsed
            simp at lengths
          · rintro ⟨⟨_, _, some, _⟩, _⟩
            rw [used] at some
            cases some
      | some cut =>
          obtain ⟨fields, sep⟩ := cut
          simp only [Result.bind_eq_ok]
          constructor
          · rintro ⟨e, read, others, rest, same⟩
            obtain ⟨rfl, rfl⟩ := List.cons.inj (Except.ok.inj same)
            exact ⟨⟨fields, sep, used, read⟩, rest⟩
          · rintro ⟨⟨_, _, some, read⟩, rest⟩
            obtain ⟨rfl, rfl⟩ := Prod.mk.inj
              (Option.some.inj (used.symm.trans some))
            exact ⟨_, read, _, rest, rfl⟩

/-! ## Texts that make the reader panic -/

/-- Behind each backslash that has three bytes behind it, whole characters fill
three bytes. -/
def Sliceable (cs : List Char) : Prop :=
  ∀ front rest, cs = front ++ '\\' :: rest → 3 ≤ utf8Len rest →
    ∃ three after, rest = three ++ after ∧ utf8Len three = 3

private theorem sliceable_append
    {plain : List Char}
    (free : '\\' ∉ plain)
    (cs : List Char) :
    Sliceable (plain ++ cs) ↔ Sliceable cs := by
  constructor
  · intro sliceable front rest shape
    exact sliceable (plain ++ front) rest (by rw [shape, List.append_assoc])
  · intro sliceable front rest shape
    rcases List.append_eq_append_iff.mp shape with
      ⟨between, rfl, behind⟩ | ⟨between, early, behind⟩
    · exact sliceable between rest behind
    · cases between with
      | nil =>
          exact sliceable [] rest (by simpa using behind.symm)
      | cons c between =>
          obtain ⟨rfl, _⟩ := List.cons.inj behind
          exact absurd (by simp [early]) free

private theorem sliceable_backslash (cs : List Char) :
    Sliceable ('\\' :: cs) ↔
      (3 ≤ utf8Len cs → ∃ three after, cs = three ++ after ∧
        utf8Len three = 3) ∧ Sliceable cs := by
  constructor
  · intro sliceable
    refine ⟨sliceable [] cs rfl, ?_⟩
    intro front rest shape
    exact sliceable ('\\' :: front) rest (by rw [shape]; rfl)
  · rintro ⟨here, sliceable⟩ front rest shape
    cases front with
    | nil =>
        obtain ⟨_, rfl⟩ := List.cons.inj shape
        exact here
    | cons c front =>
        exact sliceable front rest (List.cons.inj shape).2

private theorem isSome_takeBytes_iff {cs : List Char} :
    (∃ three after, cs = three ++ after ∧ utf8Len three = 3) ↔
      (JsonParser.takeBytes 3 cs).isSome = true := by
  constructor
  · rintro ⟨three, after, rfl, size⟩
    rw [← size, Toml.takeBytes_append]
    rfl
  · intro some
    obtain ⟨⟨three, after⟩, taken⟩ := Option.isSome_iff_exists.mp some
    obtain ⟨rfl, size⟩ := Toml.takeBytes_some taken
    exact ⟨three, after, rfl, size⟩

/-- Octal digits are no backslashes. -/
theorem not_mem_of_parseOctU8
    {cs : List Char}
    {v : UInt8}
    (parsed : parseOctU8 cs = some v) :
    '\\' ∉ cs := by
  have digits : ∀ ds : List Char,
      ¬ (ds.isEmpty || !ds.all isOctDigit) = true → '\\' ∉ ds := by
    intro ds valid member
    simp only [Bool.or_eq_true, not_or, Bool.not_eq_true', Bool.not_eq_false]
      at valid
    have digit := List.all_eq_true.mp valid.2 _ member
    revert digit
    decide
  unfold parseOctU8 at parsed
  split at parsed
  · rename_i rest
    dsimp only at parsed
    split at parsed
    · cases parsed
    · rename_i valid
      rw [List.mem_cons, not_or]
      exact ⟨by decide, digits rest valid⟩
  · dsimp only at parsed
    split at parsed
    · cases parsed
    · rename_i valid
      exact digits cs valid

private theorem exists_map_iff
    {α β : Type}
    (f : α → β)
    (p : Guarded α) :
    (∃ value, f <$> p = .ok value) ↔ ∃ inner, p = .ok inner := by
  cases p with
  | ok inner => simp [Functor.map, Except.map]
  | error e => simp [Functor.map, Except.map]

/-- The loop comes to its end exactly on texts that can be cut. -/
theorem exists_unescapeFrom_iff
    {s : List Char}
    (cs front : List Char)
    (shape : s = front ++ cs) :
    (∃ out, unescapeFrom s (utf8Len front) (asBytes cs) = .ok out) ↔
      Sliceable cs := by
  induction size : cs.length using Nat.strongRecOn generalizing cs front with
  | _ n inductionHypothesis =>
      subst size
      cases cs with
      | nil =>
          refine iff_of_true ⟨[], rfl⟩ ?_
          intro before rest shape
          simp at shape
      | cons c cs =>
          have next := inductionHypothesis cs.length (Nat.lt_succ_self _) cs
            (front ++ [c]) (by simp [shape]) rfl
          have behind : utf8Len (front ++ [c]) =
              utf8Len front + c.utf8Size := by
            simp
          rw [behind] at next
          by_cases backslash : c = '\\'
          · subst backslash
            rw [Toml.utf8Size_ascii (by decide)] at next
            rw [sliceable_backslash]
            by_cases long : 3 ≤ utf8Len cs
            · rw [unescapeFrom_backslash shape long, isSome_takeBytes_iff]
              cases taken : JsonParser.takeBytes 3 cs with
              | none =>
                  simp [crash, long]
              | some cut =>
                  obtain ⟨oct, after⟩ := cut
                  obtain ⟨rfl, three⟩ := Toml.takeBytes_some taken
                  cases parsed : parseOctU8 oct with
                  | none =>
                      simp only [parsed, exists_map_iff, next]
                      simp
                  | some v =>
                      have smaller : after.length <
                          ('\\' :: (oct ++ after)).length := by
                        simp only [List.length_cons, List.length_append]
                        omega
                      have rest := inductionHypothesis after.length smaller
                        after (front ++ '\\' :: oct) (by simp [shape]) rfl
                      have further : utf8Len (front ++ '\\' :: oct) =
                          utf8Len front + 4 := by
                        simp [three,
                          Toml.utf8Size_ascii (by decide : IsAscii '\\')]
                      rw [further] at rest
                      simp only [parsed, exists_map_iff, rest,
                        sliceable_append (not_mem_of_parseOctU8 parsed)]
                      simp
            · rw [unescapeFrom_short (Nat.not_le.mp long), exists_map_iff, next]
              simp [long]
          · have alone : '\\' ∉ [c] := by
              rw [List.mem_singleton]
              exact Ne.symm backslash
            rw [unescapeFrom_char backslash, exists_map_iff, next]
            exact (sliceable_append alone cs).symm

private theorem exists_unescapeOctal_iff (cs : List Char) :
    (∃ out, unescapeOctal cs = .ok out) ↔ Sliceable cs := by
  unfold unescapeOctal
  by_cases free : '\\' ∉ cs
  · rw [if_pos free]
    refine iff_of_true ⟨cs, rfl⟩ ?_
    intro front rest shape
    exact absurd (by simp [shape]) free
  · rw [if_neg free]
    exact exists_unescapeFrom_iff cs [] rfl

/-- The three fields of a line that are unescaped can be cut. -/
def LineSliceable (line : String) : Prop :=
  ∀ fields sep, fieldsOf line = some (fields, sep) →
    Sliceable (fields.getD 3 "").toList ∧
      Sliceable (fields.getD 4 "").toList ∧
      Sliceable (fields.getD (sep + 2) "").toList

private theorem exists_entryOf_iff
    (fields : List String)
    (sep : Nat) :
    (∃ e, entryOf fields sep = .ok e) ↔
      Sliceable (fields.getD 3 "").toList ∧
        Sliceable (fields.getD 4 "").toList ∧
        Sliceable (fields.getD (sep + 2) "").toList := by
  have field : ∀ n, (∃ text, unescapeField fields n = .ok text) ↔
      Sliceable (fields.getD n "").toList := by
    intro n
    rw [unescapeField, exists_map_iff, exists_unescapeOctal_iff]
  rw [← field, ← field, ← field]
  constructor
  · rintro ⟨e, read⟩
    obtain ⟨root, first, read⟩ := Result.bind_eq_ok.mp read
    obtain ⟨mountPoint, second, read⟩ := Result.bind_eq_ok.mp read
    obtain ⟨source, third, _⟩ := Result.bind_eq_ok.mp read
    exact ⟨⟨root, first⟩, ⟨mountPoint, second⟩, ⟨source, third⟩⟩
  · rintro ⟨⟨root, first⟩, ⟨mountPoint, second⟩, ⟨source, third⟩⟩
    exact ⟨_, Result.bind_eq_ok.mpr ⟨root, first, Result.bind_eq_ok.mpr ⟨mountPoint, second,
      Result.bind_eq_ok.mpr ⟨source, third, rfl⟩⟩⟩⟩

private theorem exists_parseLines_iff (texts : List String) :
    (∃ entries, parseLines texts = .ok entries) ↔
      ∀ line ∈ texts, LineSliceable line := by
  induction texts with
  | nil =>
      simp [parseLines]
  | cons line texts inductionHypothesis =>
      rw [List.forall_mem_cons, ← inductionHypothesis, parseLines]
      cases used : fieldsOf line with
      | none =>
          refine (and_iff_right ?_).symm
          intro fields sep some
          rw [used] at some
          cases some
      | some cut =>
          obtain ⟨fields, sep⟩ := cut
          have here : LineSliceable line ↔
              ∃ e, entryOf fields sep = .ok e := by
            rw [exists_entryOf_iff]
            constructor
            · intro sliceable
              exact sliceable fields sep used
            · rintro sliceable _ _ some
              obtain ⟨rfl, rfl⟩ := Prod.mk.inj
                (Option.some.inj (used.symm.trans some))
              exact sliceable
          rw [here]
          simp only [Result.bind_eq_ok]
          constructor
          · rintro ⟨_, e, read, entries, rest, _⟩
            exact ⟨⟨e, read⟩, ⟨entries, rest⟩⟩
          · rintro ⟨⟨e, read⟩, ⟨entries, rest⟩⟩
            exact ⟨_, e, read, entries, rest, rfl⟩

/-! ## Exactness -/

/--
The mount table is read back exactly when its paths and sources are plain, and
a text makes the reader panic exactly when three bytes behind some backslash
end inside a character.
-/
theorem parse_mountinfo_exact_iff
    (ls : List MountLine)
    (wellFormed : ∀ l ∈ ls, l.WellFormed)
    (text : String) :
    (parseMountinfo (renderAll ls) = .ok (ls.map MountLine.entry) ↔
        ∀ l ∈ ls, l.Plain) ∧
      ((∃ entries, parseMountinfo text = .ok entries) ↔
        ∀ line ∈ lines text, LineSliceable line) := by
  refine ⟨?_, exists_parseLines_iff (lines text)⟩
  rw [parseMountinfo, lines_renderAll wellFormed, parseLines_eq_iff]
  constructor
  · intro readBack l member
    exact plain_of_readBack (wellFormed l member) (readBack l member)
  · intro plain l member
    exact readBack_of_plain (wellFormed l member) (plain l member)

/-- An entry of the module's own test. -/
def sampleEntry : MountEntry where
  mountId := 77
  parentId := 28
  root := "/var/lib/myrun/x y"
  mountPoint := "/mnt"
  options := "rw,relatime"
  fstype := "ext4"
  source := "/dev/sda1"
  superOptions := "rw"

/-- Its line, with another mount point. -/
def lineAt (mountPoint : String) : MountLine where
  entry := { sampleEntry with mountPoint }
  device := ['8', ':', '1']
  optional := []

private theorem isWord_of_all
    {cs : List Char}
    (all : (!cs.isEmpty && cs.all fun c => !isWhitespace c) = true) :
    IsWord cs := by
  simp only [Bool.and_eq_true, Bool.not_eq_true', List.all_eq_true,
    List.isEmpty_eq_false_iff] at all
  exact ⟨all.1, all.2⟩

private theorem wellFormed_lineAt
    {mountPoint : String}
    (absolute : mountPoint.toList.head? = some '/') :
    (lineAt mountPoint).WellFormed := by
  have root : sampleEntry.root.toList.head? = some '/' := by
    decide +kernel
  have device : IsWord ['8', ':', '1'] :=
    isWord_of_all (by decide +kernel)
  have options : IsWord sampleEntry.options.toList :=
    isWord_of_all (by decide +kernel)
  have fstype : IsWord sampleEntry.fstype.toList :=
    isWord_of_all (by decide +kernel)
  have superOptions : IsWord sampleEntry.superOptions.toList :=
    isWord_of_all (by decide +kernel)
  exact ⟨root, absolute, (by decide : sampleEntry.source ≠ ""),
    ⟨device, (by decide : ['8', ':', '1'] ≠ ['-'])⟩,
    ⟨options, (by decide : sampleEntry.options ≠ "-")⟩, by simp [lineAt],
    fstype, superOptions⟩

theorem ascii_line_exact :
    (∀ l ∈ [lineAt "/mnt/a b"], l.WellFormed) ∧
      (parseMountinfo (renderAll [lineAt "/mnt/a b"]) =
          .ok [(lineAt "/mnt/a b").entry] ↔
        ∀ l ∈ [lineAt "/mnt/a b"], l.Plain) := by
  have wellFormed : ∀ l ∈ [lineAt "/mnt/a b"], l.WellFormed := by
    intro l member
    rw [List.mem_singleton.mp member]
    exact wellFormed_lineAt (by decide +kernel)
  exact ⟨wellFormed, (parse_mountinfo_exact_iff _ wellFormed "").1⟩

/-- An accented path with a space is garbled, and a backslash before an
accented character is a panic. -/
theorem mount_point_garbled :
    ¬ ((∀ ls : List MountLine, (∀ l ∈ ls, l.WellFormed) →
        parseMountinfo (renderAll ls) = .ok (ls.map MountLine.entry)) ∧
      ∀ text, ∃ entries, parseMountinfo text = .ok entries) ∧
    parseMountinfo "1 0 8:1 / /\\ab\u00E9 rw - ext4 none rw" =
      .error (.panicked .slice) := by
  refine ⟨?_, by decide +kernel⟩
  rintro ⟨exact, _⟩
  have wellFormed : ∀ l ∈ [lineAt "/mnt/\u00E9 x"], l.WellFormed := by
    intro l member
    rw [List.mem_singleton.mp member]
    exact wellFormed_lineAt (by decide +kernel)
  have garbled : parseMountinfo (renderAll [lineAt "/mnt/\u00E9 x"]) ≠
      .ok [(lineAt "/mnt/\u00E9 x").entry] := by
    decide +kernel
  exact garbled (exact _ wellFormed)

end Mount

end Myrun
