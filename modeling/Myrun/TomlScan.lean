import Myrun.Toml

namespace Myrun

/-!
# What the scanners see

The scanners of the TOML reader walk over bytes.  This module says what they
see in terms of characters: every offset they compute is a character boundary,
every slice they cut exists, and a character is active when it is neither a
quote nor inside one.
-/

namespace Toml

/-! ## UTF-8 -/

/-- A character of one byte. -/
def IsAscii (c : Char) : Prop :=
  c.toNat < 128

instance (c : Char) : Decidable (IsAscii c) :=
  inferInstanceAs (Decidable (_ < _))

theorem encode_ascii
    {c : Char}
    (ascii : IsAscii c) :
    String.utf8EncodeChar c = [byteOf c] := by
  have small : c.val.toNat ≤ 127 := Nat.le_of_lt_succ ascii
  simp only [String.utf8EncodeChar, small, ↓reduceIte]
  rfl

theorem utf8Size_ascii
    {c : Char}
    (ascii : IsAscii c) :
    c.utf8Size = 1 := by
  rw [← String.length_utf8EncodeChar, encode_ascii ascii]
  rfl

/-- The bytes of a longer character are not those of an ASCII character. -/
theorem encode_high
    {c : Char}
    (wide : ¬ IsAscii c) :
    ∀ b ∈ String.utf8EncodeChar c, 128 ≤ b.toNat := by
  have large : ¬ c.val.toNat ≤ 127 := by
    intro small
    exact wide (Nat.lt_succ_of_le small)
  intro b member
  have bound : c.val.toNat < 1114112 := by
    rcases c.valid with low | ⟨_, high⟩
    · omega
    · exact high
  simp only [String.utf8EncodeChar, large, ↓reduceIte] at member
  split at member
  · simp only [List.mem_cons, List.not_mem_nil, or_false] at member
    rcases member with rfl | rfl <;> simp only [UInt8.toNat_ofNat'] <;> omega
  · split at member
    · simp only [List.mem_cons, List.not_mem_nil, or_false] at member
      rcases member with rfl | rfl | rfl <;>
        simp only [UInt8.toNat_ofNat'] <;> omega
    · simp only [List.mem_cons, List.not_mem_nil, or_false] at member
      rcases member with rfl | rfl | rfl | rfl <;>
        simp only [UInt8.toNat_ofNat'] <;> omega

theorem byteOf_toNat
    {c : Char}
    (ascii : IsAscii c) :
    (byteOf c).toNat = c.toNat := by
  unfold IsAscii at ascii
  simp only [byteOf, UInt8.toNat_ofNat']
  omega

theorem byteOf_inj
    {c d : Char}
    (first : IsAscii c)
    (second : IsAscii d) :
    byteOf c = byteOf d ↔ c = d := by
  constructor
  · intro same
    have codes := congrArg UInt8.toNat same
    rw [byteOf_toNat first, byteOf_toNat second] at codes
    exact Char.toNat_inj.mp codes
  · rintro rfl
    rfl

/-- The first byte of a character is that of an ASCII character only if the
character is. -/
theorem encode_head_eq
    {c d : Char}
    (second : IsAscii d)
    {b : UInt8}
    {bytes : List UInt8}
    (shape : String.utf8EncodeChar c = b :: bytes) :
    b = byteOf d ↔ c = d := by
  by_cases ascii : IsAscii c
  · rw [encode_ascii ascii] at shape
    obtain ⟨rfl, _⟩ := List.cons.inj shape
    exact byteOf_inj ascii second
  · have high := encode_high ascii b (by simp [shape])
    constructor
    · rintro rfl
      rw [byteOf_toNat second] at high
      exact (Nat.not_lt.mpr high second).elim
    · rintro rfl
      exact (ascii second).elim

@[simp] theorem utf8Len_nil : utf8Len [] = 0 := rfl

@[simp] theorem utf8Len_cons (c : Char) (cs : List Char) :
    utf8Len (c :: cs) = c.utf8Size + utf8Len cs := by
  simp [utf8Len]

@[simp] theorem utf8Len_append (cs ds : List Char) :
    utf8Len (cs ++ ds) = utf8Len cs + utf8Len ds := by
  simp [utf8Len]

@[simp] theorem asBytes_nil : asBytes [] = [] := rfl

@[simp] theorem asBytes_cons (c : Char) (cs : List Char) :
    asBytes (c :: cs) = String.utf8EncodeChar c ++ asBytes cs := by
  simp [asBytes]

@[simp] theorem asBytes_append (cs ds : List Char) :
    asBytes (cs ++ ds) = asBytes cs ++ asBytes ds := by
  simp [asBytes]

theorem length_asBytes (cs : List Char) :
    (asBytes cs).length = utf8Len cs := by
  induction cs with
  | nil =>
      rfl
  | cons c cs inductionHypothesis =>
      simp [inductionHypothesis]

theorem length_le_utf8Len (cs : List Char) :
    cs.length ≤ utf8Len cs := by
  induction cs with
  | nil =>
      exact Nat.le_refl _
  | cons c cs inductionHypothesis =>
      have := Char.utf8Size_pos c
      simp only [List.length_cons, utf8Len_cons]
      omega

/-! ## Slices at character boundaries -/

theorem takeBytes_append
    (front rest : List Char) :
    JsonParser.takeBytes (utf8Len front) (front ++ rest) =
      some (front, rest) := by
  induction front with
  | nil =>
      simp [JsonParser.takeBytes]
  | cons c front inductionHypothesis =>
      have positive := Char.utf8Size_pos c
      obtain ⟨count, size⟩ : ∃ count, utf8Len (c :: front) = count + 1 :=
        ⟨utf8Len (c :: front) - 1, by simp only [utf8Len_cons]; omega⟩
      have left : count + 1 - c.utf8Size = utf8Len front := by
        rw [← size]
        simp
      have fits : c.utf8Size ≤ count + 1 := by
        rw [← size]
        simp
      rw [size, List.cons_append, JsonParser.takeBytes, if_pos fits, left,
        inductionHypothesis]
      rfl

/-- What `takeBytes` cuts off is made of whole characters. -/
theorem takeBytes_some
    {count : Nat}
    {cs front rest : List Char}
    (taken : JsonParser.takeBytes count cs = some (front, rest)) :
    cs = front ++ rest ∧ utf8Len front = count := by
  induction cs generalizing count front with
  | nil =>
      cases count with
      | zero =>
          simp only [JsonParser.takeBytes, Option.some.injEq,
            Prod.mk.injEq] at taken
          obtain ⟨rfl, rfl⟩ := taken
          exact ⟨rfl, rfl⟩
      | succ count =>
          simp [JsonParser.takeBytes] at taken
  | cons c cs inductionHypothesis =>
      cases count with
      | zero =>
          simp only [JsonParser.takeBytes, Option.some.injEq,
            Prod.mk.injEq] at taken
          obtain ⟨rfl, rfl⟩ := taken
          exact ⟨rfl, rfl⟩
      | succ count =>
          rw [JsonParser.takeBytes] at taken
          split at taken
          · rename_i fits
            obtain ⟨⟨tail, left⟩, cut, same⟩ :=
              Option.map_eq_some_iff.mp taken
            obtain ⟨rfl, rfl⟩ := Prod.mk.inj same
            obtain ⟨rfl, size⟩ := inductionHypothesis cut
            refine ⟨rfl, ?_⟩
            rw [utf8Len_cons, size]
            omega
          · cases taken

theorem sliceFrom_append
    (front rest : List Char) :
    sliceFrom (front ++ rest) (utf8Len front) = .ok rest := by
  simp [sliceFrom, takeBytes_append]

theorem slice_append
    (front middle rest : List Char) :
    slice (front ++ (middle ++ rest)) (utf8Len front)
      (utf8Len front + utf8Len middle) = .ok middle := by
  have ordered : ¬ utf8Len front + utf8Len middle < utf8Len front := by
    omega
  simp only [slice, ordered, ↓reduceIte, sliceFrom_append,
    Nat.add_sub_cancel_left]
  simp [takeBytes_append, bind, Except.bind]

/-- What is cut off between a first and a last character of one byte. -/
theorem slice_between
    {first last : Char}
    (firstAscii : IsAscii first)
    (lastAscii : IsAscii last)
    (inner : List Char) :
    slice (first :: (inner ++ [last])) 1
      (utf8Len (first :: (inner ++ [last])) - 1) = .ok inner := by
  have front : utf8Len [first] = 1 := by
    simp [utf8Size_ascii firstAscii]
  have size : utf8Len (first :: (inner ++ [last])) - 1 =
      utf8Len [first] + utf8Len inner := by
    simp [utf8Size_ascii firstAscii, utf8Size_ascii lastAscii,
      Nat.add_comm]
  have cut := slice_append [first] inner [last]
  rw [front] at cut size
  rw [size]
  exact cut

/-! ## Active characters -/

/-- The quoting after a character that is not escaped. -/
def Quote.after (q : Quote) (c : Char) : Quote :=
  match q with
  | .outside =>
      if c = '"' then .basic else if c = '\'' then .literal else .outside
  | .basic => if c = '"' then .outside else .basic
  | .literal => if c = '\'' then .outside else .literal

/-- The characters of a text, and whether they are active. -/
def annotate : Quote → List Char → List (Char × Bool)
  | _, [] => []
  | q, c :: rest =>
      if q = .basic ∧ c = '\\' then
        match rest with
        | [] => [(c, false)]
        | d :: rest => (c, false) :: (d, false) :: annotate q rest
      else
        (c, decide (q = .outside ∧ q.after c = .outside)) ::
          annotate (q.after c) rest

/-- The active characters with their byte offsets. -/
def active : Nat → List (Char × Bool) → List (Nat × Char)
  | _, [] => []
  | i, (c, true) :: rest => (i, c) :: active (i + c.utf8Size) rest
  | i, (c, false) :: rest => active (i + c.utf8Size) rest

/-- The bytes of a character with their offsets. -/
def expand (found : Nat × Char) : List (Nat × UInt8) :=
  ((String.utf8EncodeChar found.2).zipIdx found.1).map
    fun entry => (entry.2, entry.1)

private theorem Quote.next_encode
    (q : Quote)
    {c : Char}
    {b : UInt8}
    {bytes : List UInt8}
    (shape : String.utf8EncodeChar c = b :: bytes) :
    q.next b = q.after c := by
  have quote : b = byteOf '"' ↔ c = '"' :=
    encode_head_eq (by decide) shape
  have apostrophe : b = byteOf '\'' ↔ c = '\'' :=
    encode_head_eq (by decide) shape
  cases q <;> simp only [Quote.next, Quote.after, quote, apostrophe]

private theorem Quote.next_high
    (q : Quote)
    {b : UInt8}
    (high : 128 ≤ b.toNat) :
    q.next b = q := by
  have notQuote : b ≠ byteOf '"' := by
    rintro rfl
    revert high
    decide
  have notApostrophe : b ≠ byteOf '\'' := by
    rintro rfl
    revert high
    decide
  cases q <;> simp [Quote.next, notQuote, notApostrophe]

/-- A byte that does not escape the next one. -/
theorem unquoted_cons
    {q : Quote}
    {b : UInt8}
    (plain : ¬ (q = .basic ∧ b = byteOf '\\'))
    (i : Nat)
    (rest : List UInt8) :
    unquoted q i (b :: rest) =
      (if q = .outside ∧ q.next b = .outside then [(i, b)] else []) ++
        unquoted (q.next b) (i + 1) rest := by
  rw [unquoted.eq_def]
  simp only [plain, ↓reduceIte]
  by_cases same : q.next b = q
  · rw [if_neg (not_not.mpr same)]
    by_cases outside : q = .outside
    · rw [if_pos outside, if_pos ⟨outside, same.trans outside⟩, same]
      rfl
    · rw [if_neg outside, if_neg (fun both => outside both.1), same]
      rfl
  · rw [if_pos same]
    have moved : ¬ (q = .outside ∧ q.next b = .outside) := by
      rintro ⟨rfl, stays⟩
      exact same stays
    rw [if_neg moved]
    rfl

/-- Bytes of longer characters do not change the quoting. -/
theorem unquoted_high
    (q : Quote)
    {bytes : List UInt8}
    (high : ∀ b ∈ bytes, 128 ≤ b.toNat)
    (i : Nat)
    (rest : List UInt8) :
    unquoted q i (bytes ++ rest) =
      (if q = .outside then
          (bytes.zipIdx i).map fun entry => (entry.2, entry.1)
        else []) ++ unquoted q (i + bytes.length) rest := by
  induction bytes generalizing i with
  | nil =>
      cases q <;> simp
  | cons b bytes inductionHypothesis =>
      have first := high b List.mem_cons_self
      have notEscape : b ≠ byteOf '\\' := by
        rintro rfl
        revert first
        decide
      have others := inductionHypothesis
        (fun other member => high other (List.mem_cons_of_mem b member))
        (i + 1)
      have moved : i + 1 + bytes.length = i + (bytes.length + 1) := by
        omega
      have plain : ¬ (q = .basic ∧ b = byteOf '\\') :=
        fun both => notEscape both.2
      rw [List.cons_append, unquoted_cons plain, q.next_high first, others,
        moved]
      cases q <;> simp

private theorem encode_cons (c : Char) :
    ∃ b bytes, String.utf8EncodeChar c = b :: bytes := by
  cases shape : String.utf8EncodeChar c with
  | nil =>
      exact (String.utf8EncodeChar_ne_nil shape).elim
  | cons b bytes =>
      exact ⟨b, bytes, rfl⟩

/-- After its first byte, a character is made of bytes that mean nothing. -/
theorem encode_tail_high
    {c : Char}
    {b : UInt8}
    {bytes : List UInt8}
    (shape : String.utf8EncodeChar c = b :: bytes) :
    ∀ other ∈ bytes, 128 ≤ other.toNat := by
  by_cases ascii : IsAscii c
  · rw [encode_ascii ascii] at shape
    obtain ⟨_, rfl⟩ := List.cons.inj shape
    simp
  · intro other member
    exact encode_high ascii other (by simp [shape, member])

/-- Splitting off the first character that does not escape. -/
theorem annotate_cons
    {q : Quote}
    {c : Char}
    (plain : ¬ (q = .basic ∧ c = '\\'))
    (rest : List Char) :
    annotate q (c :: rest) =
      (c, decide (q = .outside ∧ q.after c = .outside)) ::
        annotate (q.after c) rest := by
  rw [annotate.eq_def]
  simp only [plain, ↓reduceIte]

theorem annotate_escape
    (d : Char)
    (rest : List Char) :
    annotate .basic ('\\' :: d :: rest) =
      ('\\', false) :: (d, false) :: annotate .basic rest := by
  rw [annotate.eq_def]
  rfl

/-- A character that ends a quoting is a single byte. -/
theorem tail_nil_of_after
    {q : Quote}
    {c : Char}
    (changed : q.after c ≠ q)
    {b : UInt8}
    {bytes : List UInt8}
    (shape : String.utf8EncodeChar c = b :: bytes) :
    bytes = [] := by
  have quote : c = '"' ∨ c = '\'' := by
    by_contra neither
    rw [not_or] at neither
    apply changed
    cases q <;> simp [Quote.after, neither.1, neither.2]
  have ascii : IsAscii c := by
    rcases quote with rfl | rfl <;> decide
  rw [encode_ascii ascii] at shape
  exact (List.cons.inj shape).2.symm

/-- The scanners see the bytes of the active characters. -/
theorem unquoted_asBytes
    (q : Quote)
    (cs : List Char)
    (i : Nat) :
    unquoted q i (asBytes cs) =
      (active i (annotate q cs)).flatMap expand := by
  induction q, cs using annotate.induct generalizing i with
  | case1 q =>
      rfl
  | case2 q c escapes =>
      obtain ⟨rfl, rfl⟩ := escapes
      rfl
  | case3 q c escapes d rest inductionHypothesis =>
      obtain ⟨rfl, rfl⟩ := escapes
      obtain ⟨b, bytes, shape⟩ := encode_cons d
      have size : d.utf8Size = bytes.length + 1 := by
        rw [← String.length_utf8EncodeChar, shape]
        rfl
      have skipped : unquoted .basic i (asBytes ('\\' :: d :: rest)) =
          unquoted .basic (i + 2) (bytes ++ asBytes rest) := by
        rw [asBytes_cons, asBytes_cons, shape]
        rfl
      have past : i + 2 + bytes.length =
          i + '\\'.utf8Size + d.utf8Size := by
        rw [size, utf8Size_ascii (by decide)]
        omega
      rw [skipped, unquoted_high _ (encode_tail_high shape), past,
        inductionHypothesis]
      rfl
  | case4 q c rest plain inductionHypothesis =>
      obtain ⟨b, bytes, shape⟩ := encode_cons c
      have size : c.utf8Size = bytes.length + 1 := by
        rw [← String.length_utf8EncodeChar, shape]
        rfl
      have plainByte : ¬ (q = .basic ∧ b = byteOf '\\') := by
        rw [encode_head_eq (by decide) shape]
        exact plain
      have past : i + 1 + bytes.length = i + c.utf8Size := by
        omega
      rw [asBytes_cons, shape, List.cons_append, unquoted_cons plainByte,
        unquoted_high _ (encode_tail_high shape), past, q.next_encode shape,
        inductionHypothesis]
      rw [annotate_cons plain]
      by_cases shown : q = .outside ∧ q.after c = .outside
      · rw [if_pos shown, if_pos shown.2, decide_eq_true shown, active,
          List.flatMap_cons, expand, shape]
        simp
      · have hidden : (if q.after c = .outside then
            (bytes.zipIdx (i + 1)).map fun entry => (entry.2, entry.1)
            else []) = [] := by
          split
          · rename_i ends
            have changed : q.after c ≠ q := by
              intro same
              exact shown ⟨same.symm.trans ends, ends⟩
            rw [tail_nil_of_after changed shape]
            rfl
          · rfl
        rw [if_neg shown, hidden, decide_eq_false shown]
        rfl

/-- The characters of an annotated text are those of the text. -/
theorem annotate_chars
    (q : Quote)
    (cs : List Char) :
    (annotate q cs).map Prod.fst = cs := by
  induction q, cs using annotate.induct with
  | case1 q =>
      rfl
  | case2 q c escapes =>
      obtain ⟨rfl, rfl⟩ := escapes
      rfl
  | case3 q c escapes d rest inductionHypothesis =>
      obtain ⟨rfl, rfl⟩ := escapes
      rw [annotate_escape]
      simp [inductionHypothesis]
  | case4 q c rest plain inductionHypothesis =>
      rw [annotate_cons plain]
      simp [inductionHypothesis]

/-! ## The scanners on characters -/

/-- One active character of `bracket_depth`. -/
def depthChar (depth : Int) (c : Char) : Guarded Int :=
  if c = '[' then addI32 depth 1
  else if c = ']' then addI32 depth (-1)
  else .ok depth

/-- `bracket_depth` on an annotated text. -/
def depthFrom : Int → List (Char × Bool) → Guarded Int
  | depth, [] => .ok depth
  | depth, (c, true) :: rest => do
      let depth ← depthChar depth c
      depthFrom depth rest
  | depth, (_, false) :: rest => depthFrom depth rest

/-- `strip_comment` on an annotated text. -/
def uncommented : List (Char × Bool) → List Char
  | [] => []
  | (c, isActive) :: rest =>
      if isActive = true ∧ c = '#' then [] else c :: uncommented rest

/-- `split_top_level` on an annotated text, with the piece read so far. -/
def piecesFrom (cur : List Char) :
    Int → List (Char × Bool) → Guarded (List (List Char))
  | _, [] => .ok [cur]
  | depth, (c, true) :: rest =>
      if c = ',' ∧ depth = 0 then do
        let more ← piecesFrom [] depth rest
        return cur :: more
      else do
        let depth ← depthChar depth c
        piecesFrom (cur ++ [c]) depth rest
  | depth, (c, false) :: rest => piecesFrom (cur ++ [c]) depth rest

private theorem expand_ascii
    {c : Char}
    (ascii : IsAscii c)
    (i : Nat) :
    expand (i, c) = [(i, byteOf c)] := by
  rw [expand, encode_ascii ascii]
  rfl

private theorem expand_high
    {c : Char}
    (wide : ¬ IsAscii c)
    (i : Nat) :
    ∀ found ∈ expand (i, c), 128 ≤ found.2.toNat := by
  intro found member
  obtain ⟨⟨b, offset⟩, inside, rfl⟩ := List.mem_map.mp member
  exact encode_high wide b (List.fst_mem_of_mem_zipIdx inside)

private theorem ne_byteOf_of_high
    {b : UInt8}
    (high : 128 ≤ b.toNat)
    {c : Char}
    (ascii : IsAscii c) :
    b ≠ byteOf c := by
  rintro rfl
  rw [byteOf_toNat ascii] at high
  exact Nat.not_lt.mpr high ascii

/-- Steps that change nothing. -/
theorem foldlM_of_idle
    {α σ : Type}
    {step : σ → α → Guarded σ}
    {items : List α}
    (idle : ∀ item ∈ items, ∀ now, step now item = .ok now)
    (now : σ) :
    items.foldlM step now = .ok now := by
  induction items with
  | nil =>
      rfl
  | cons item items inductionHypothesis =>
      rw [List.foldlM_cons, idle item List.mem_cons_self now]
      exact inductionHypothesis
        (fun other member => idle other (List.mem_cons_of_mem item member))

private theorem depthStep_ascii
    {c : Char}
    (ascii : IsAscii c)
    (depth : Int) :
    depthStep depth (byteOf c) = depthChar depth c := by
  simp only [depthStep, depthChar, byteOf_inj ascii (d := '[') (by decide),
    byteOf_inj ascii (d := ']') (by decide)]

private theorem depthStep_high
    {b : UInt8}
    (high : 128 ≤ b.toNat)
    (depth : Int) :
    depthStep depth b = .ok depth := by
  simp [depthStep, ne_byteOf_of_high high (c := '[') (by decide),
    ne_byteOf_of_high high (c := ']') (by decide)]

private theorem depthChar_wide
    {c : Char}
    (wide : ¬ IsAscii c)
    (depth : Int) :
    depthChar depth c = .ok depth := by
  have notOpen : c ≠ '[' := by
    rintro rfl
    exact wide (by decide)
  have notClose : c ≠ ']' := by
    rintro rfl
    exact wide (by decide)
  simp [depthChar, notOpen, notClose]

/-- `bracket_depth` counts the active brackets. -/
theorem bracketDepth_eq (s : List Char) :
    bracketDepth s = depthFrom 0 (annotate .outside s) := by
  have counted (annotated : List (Char × Bool)) (i : Nat) (depth : Int) :
      ((active i annotated).flatMap expand).foldlM
          (fun depth found => depthStep depth found.2) depth =
        depthFrom depth annotated := by
    induction annotated generalizing i depth with
    | nil =>
        rfl
    | cons entry annotated inductionHypothesis =>
        obtain ⟨c, isActive⟩ := entry
        cases isActive with
        | false =>
            exact inductionHypothesis _ depth
        | true =>
            have own : (expand (i, c)).foldlM
                (fun depth found => depthStep depth found.2) depth =
                depthChar depth c := by
              by_cases ascii : IsAscii c
              · rw [expand_ascii ascii, ← depthStep_ascii ascii]
                simp
              · rw [depthChar_wide ascii]
                exact foldlM_of_idle (fun found member now =>
                  depthStep_high (expand_high ascii i found member) now) depth
            rw [active, List.flatMap_cons, List.foldlM_append, own, depthFrom]
            refine congrArg _ (funext fun depth => ?_)
            exact inductionHypothesis _ depth
  rw [bracketDepth, unquoted_asBytes, counted]

/-- Is the byte a number sign? -/
def isHash (found : Nat × UInt8) : Bool :=
  found.2 = byteOf '#'

/-- Where the scanner finds the first active number sign. -/
theorem find_hash
    (annotated : List (Char × Bool))
    (i : Nat) :
    (((active i annotated).flatMap expand).find? isHash =
        some (i + utf8Len (uncommented annotated), byteOf '#') ∧
      ∃ rest, annotated.map Prod.fst = uncommented annotated ++ '#' :: rest) ∨
    (((active i annotated).flatMap expand).find? isHash = none ∧
      uncommented annotated = annotated.map Prod.fst) := by
  induction annotated generalizing i with
  | nil =>
      exact Or.inr ⟨rfl, rfl⟩
  | cons entry annotated inductionHypothesis =>
      obtain ⟨c, isActive⟩ := entry
      by_cases comment : isActive = true ∧ c = '#'
      · obtain ⟨rfl, rfl⟩ := comment
        refine Or.inl ⟨?_, annotated.map Prod.fst, rfl⟩
        rw [active, List.flatMap_cons, expand_ascii (by decide)]
        rfl
      · have passed :
            ((active i ((c, isActive) :: annotated)).flatMap expand).find?
                isHash =
              ((active (i + c.utf8Size) annotated).flatMap expand).find?
                isHash := by
          cases isActive with
          | false =>
              rfl
          | true =>
              have nothing : (expand (i, c)).find? isHash = none := by
                rw [List.find?_eq_none]
                intro found member
                by_cases ascii : IsAscii c
                · rw [expand_ascii ascii] at member
                  rw [List.mem_singleton.mp member]
                  simp only [isHash, byteOf_inj ascii (d := '#') (by decide)]
                  simpa using comment
                · simp [isHash, ne_byteOf_of_high
                    (expand_high ascii i found member) (c := '#') (by decide)]
              rw [active, List.flatMap_cons, List.find?_append, nothing]
              rfl
        have kept : uncommented ((c, isActive) :: annotated) =
            c :: uncommented annotated := by
          rw [uncommented, if_neg comment]
        rw [passed, kept]
        rcases inductionHypothesis (i + c.utf8Size) with
          ⟨found, rest, shape⟩ | ⟨missing, same⟩
        · refine Or.inl ⟨?_, rest, ?_⟩
          · rw [found, utf8Len_cons, Nat.add_assoc]
          · simp [shape]
        · refine Or.inr ⟨missing, ?_⟩
          simp [same]

/-- `strip_comment` cuts at the first active number sign. -/
theorem stripComment_eq (line : List Char) :
    stripComment line = .ok (uncommented (annotate .outside line)) := by
  have test : (fun found : Nat × UInt8 => decide (found.2 = byteOf '#')) =
      isHash :=
    rfl
  unfold stripComment
  rw [unquoted_asBytes, test]
  rcases find_hash (annotate .outside line) 0 with
    ⟨found, rest, shape⟩ | ⟨missing, same⟩
  · rw [annotate_chars] at shape
    have cut := slice_append [] (uncommented (annotate .outside line))
      ('#' :: rest)
    rw [List.nil_append, ← shape] at cut
    rw [found]
    simpa using cut
  · rw [annotate_chars] at same
    rw [missing, same]

private theorem splitStep_high
    {b : UInt8}
    (high : 128 ≤ b.toNat)
    (s : List Char)
    (now : Splitting)
    (i : Nat) :
    splitStep s now (i, b) = .ok now := by
  simp [splitStep, ne_byteOf_of_high high (c := ',') (by decide),
    depthStep_high high, bind, Except.bind, pure, Except.pure]

/-- The end of `split_top_level`. -/
def splitEnd (s : List Char) (now : Splitting) : Guarded (List (List Char)) := do
  let last ← sliceFrom s now.start
  return now.parts ++ [last]

private theorem splitTopLevel_eq_end (s : List Char) :
    splitTopLevel s =
      ((unquoted .outside 0 (asBytes s)).foldlM (splitStep s)
        { start := 0, depth := 0, parts := [] } >>= splitEnd s) :=
  rfl

private theorem splitStep_ascii
    {c : Char}
    (ascii : IsAscii c)
    (s : List Char)
    (now : Splitting)
    (i : Nat) :
    splitStep s now (i, byteOf c) =
      if c = ',' ∧ now.depth = 0 then do
        let part ← slice s now.start i
        return {
          start := i + 1
          depth := now.depth
          parts := now.parts ++ [part] }
      else do
        let depth ← depthChar now.depth c
        return { now with depth } := by
  simp only [splitStep, byteOf_inj ascii (d := ',') (by decide),
    depthStep_ascii ascii]

/-- The loop of `split_top_level`, from the middle of the text on. -/
theorem split_from
    (annotated : List (Char × Bool))
    {s done cur : List Char}
    (shape : s = done ++ (cur ++ annotated.map Prod.fst))
    (depth : Int)
    (parts : List (List Char)) :
    (((active (utf8Len done + utf8Len cur) annotated).flatMap
        expand).foldlM (splitStep s) ⟨utf8Len done, depth, parts⟩ >>=
          splitEnd s) =
      (piecesFrom cur depth annotated).map (parts ++ ·) := by
  induction annotated generalizing done cur depth parts with
  | nil =>
      have last : sliceFrom s (utf8Len done) = .ok cur := by
        rw [shape]
        simpa using sliceFrom_append done cur
      simp [active, splitEnd, last, piecesFrom, bind, Except.bind, pure,
        Except.pure, Except.map]
  | cons entry annotated inductionHypothesis =>
      obtain ⟨c, isActive⟩ := entry
      have longer : s =
          done ++ ((cur ++ [c]) ++ annotated.map Prod.fst) := by
        simpa using shape
      have further : utf8Len done + utf8Len cur + c.utf8Size =
          utf8Len done + utf8Len (cur ++ [c]) := by
        simp [Nat.add_assoc]
      cases isActive with
      | false =>
          rw [active, further, piecesFrom]
          exact inductionHypothesis longer depth parts
      | true =>
          rw [active, List.flatMap_cons, List.foldlM_append, further,
            piecesFrom]
          by_cases ascii : IsAscii c
          · rw [expand_ascii ascii]
            simp only [List.foldlM_cons, List.foldlM_nil,
              splitStep_ascii ascii]
            by_cases comma : c = ',' ∧ depth = 0
            · obtain ⟨rfl, rfl⟩ := comma
              have part : slice s (utf8Len done)
                  (utf8Len done + utf8Len cur) = .ok cur := by
                rw [shape]
                exact slice_append done cur _
              have next : s = (done ++ (cur ++ [','])) ++
                  ([] ++ annotated.map Prod.fst) := by
                simpa using shape
              have start : utf8Len done + utf8Len cur + 1 =
                  utf8Len (done ++ (cur ++ [','])) := by
                simp [utf8Size_ascii ascii, Nat.add_assoc]
              have position : utf8Len done + utf8Len (cur ++ [',']) =
                  utf8Len (done ++ (cur ++ [','])) + utf8Len [] := by
                simp
              have rest := inductionHypothesis next 0 (parts ++ [cur])
              rw [← position] at rest
              simp only [part, and_self, ↓reduceIte, start]
              refine rest.trans ?_
              cases piecesFrom [] 0 annotated with
              | error e => rfl
              | ok more => simp [Except.map, bind, Except.bind, pure, Except.pure]
            · simp only [comma, ↓reduceIte]
              cases depthChar depth c with
              | error e => rfl
              | ok deeper => exact inductionHypothesis longer deeper parts
          · have notComma : ¬ (c = ',' ∧ depth = 0) := by
              rintro ⟨rfl, _⟩
              exact ascii (by decide)
            have idle :
                (expand (utf8Len done + utf8Len cur, c)).foldlM (splitStep s)
                    ⟨utf8Len done, depth, parts⟩ =
                  .ok ⟨utf8Len done, depth, parts⟩ :=
              foldlM_of_idle
                (fun found member now =>
                  splitStep_high (expand_high ascii _ found member) s now
                    found.1) _
            rw [idle, if_neg notComma, depthChar_wide ascii]
            exact inductionHypothesis longer depth parts

/-- `split_top_level` cuts at the active commas outside brackets. -/
theorem splitTopLevel_eq (s : List Char) :
    splitTopLevel s = piecesFrom [] 0 (annotate .outside s) := by
  have shape : s = [] ++ ([] ++ (annotate .outside s).map Prod.fst) := by
    simp [annotate_chars]
  have whole := split_from (annotate .outside s) shape 0 []
  rw [splitTopLevel_eq_end, unquoted_asBytes]
  refine whole.trans ?_
  cases piecesFrom [] 0 (annotate .outside s) with
  | error e => rfl
  | ok parts => rfl

/-! ## Basic strings on characters -/

/-- The first byte of a character. -/
def firstByte (c : Char) : UInt8 :=
  (String.utf8EncodeChar c).headD 0

/-- An escape after its backslash: the character and what follows. -/
def escapeChars : List Char → Guarded (Char × List Char)
  | [] => refuse "unterminated escape"
  | e :: rest =>
      match simpleEscape (firstByte e) with
      | some d => .ok (d, rest)
      | none =>
          if e = 'u' then
            if utf8Len rest < 4 then refuse "truncated \\u escape"
            else
              match JsonParser.takeBytes 4 rest with
              | none => crash .slice
              | some (hex, rest) =>
                  match JsonParser.fromHex hex with
                  | none => refuse "bad \\u escape"
                  | some cp => .ok (JsonParser.charOrReplacement cp, rest)
          else
            refuse ("unknown escape \\" ++
              String.singleton (Char.ofNat (firstByte e).toNat))

/-- `parse_basic_string` after the opening quote. -/
def basicChars : Nat → List Char → Guarded (List Char)
  | 0, _ => crash .endless
  | _ + 1, [] => refuse "unterminated string"
  | fuel + 1, c :: rest =>
      if c = '"' then
        if rest ≠ [] then refuse "trailing data after string value"
        else .ok []
      else if c = '\\' then do
        let (d, rest) ← escapeChars rest
        (basicChars fuel rest).map (d :: ·)
      else (basicChars fuel rest).map (c :: ·)

private theorem byte_at
    (front : List Char)
    (c : Char)
    (rest : List Char) :
    (asBytes (front ++ c :: rest))[utf8Len front]? = some (firstByte c) := by
  obtain ⟨b, bytes, shape⟩ := encode_cons c
  rw [asBytes_append, ← length_asBytes,
    List.getElem?_append_right (Nat.le_refl _), Nat.sub_self, asBytes_cons,
    firstByte, shape]
  rfl

private theorem byte_after
    (front : List Char)
    {c : Char}
    (ascii : IsAscii c)
    (d : Char)
    (rest : List Char) :
    (asBytes (front ++ c :: d :: rest))[utf8Len front + 1]? =
      some (firstByte d) := by
  have next := byte_at (front ++ [c]) d rest
  simpa [utf8Size_ascii ascii] using next

private theorem byte_end (s : List Char) : (asBytes s)[utf8Len s]? = none := by
  rw [List.getElem?_eq_none_iff, length_asBytes]

private theorem firstByte_eq_iff
    {c d : Char}
    (ascii : IsAscii d) :
    firstByte c = byteOf d ↔ c = d := by
  obtain ⟨b, bytes, shape⟩ := encode_cons c
  rw [firstByte, shape]
  exact encode_head_eq ascii shape

private theorem map_append_cons
    (out : List Char)
    (c : Char)
    (r : Guarded (List Char)) :
    r.map (out ++ [c] ++ ·) = (r.map (c :: ·)).map (out ++ ·) := by
  cases r with
  | error e => rfl
  | ok cs => simp [Except.map]

private theorem ascii_of_simpleEscape
    {e d : Char}
    (escape : simpleEscape (firstByte e) = some d) :
    IsAscii e := by
  by_contra wide
  obtain ⟨b, bytes, shape⟩ := encode_cons e
  have high : 128 ≤ (firstByte e).toNat := by
    rw [firstByte, shape]
    exact encode_high wide b (by simp [shape])
  have never : simpleEscape (firstByte e) = none := by
    simp [simpleEscape, ne_byteOf_of_high high (c := 'n') (by decide),
      ne_byteOf_of_high high (c := 't') (by decide),
      ne_byteOf_of_high high (c := 'r') (by decide),
      ne_byteOf_of_high high (c := '"') (by decide),
      ne_byteOf_of_high high (c := '\\') (by decide),
      ne_byteOf_of_high high (c := '0') (by decide)]
  rw [never] at escape
  cases escape

/-- The bytes that a `\u` escape looks at. -/
theorem slice_hex
    {s front rest : List Char}
    (shape : s = front ++ '\\' :: 'u' :: rest) :
    slice s (utf8Len front + 2) (utf8Len front + 6) =
      match JsonParser.takeBytes 4 rest with
      | none => crash .slice
      | some (hex, _) => .ok hex := by
  have cut := sliceFrom_append (front ++ ['\\', 'u']) rest
  have start : utf8Len (front ++ ['\\', 'u']) = utf8Len front + 2 := by
    rw [utf8Len_append]
    rfl
  have whole : s = (front ++ ['\\', 'u']) ++ rest := by
    simpa using shape
  have ordered : ¬ utf8Len front + 6 < utf8Len front + 2 := by
    omega
  have four : utf8Len front + 6 - (utf8Len front + 2) = 4 := by
    omega
  rw [start, ← whole] at cut
  rw [slice, if_neg ordered, cut, four]
  simp only [bind, Except.bind]
  cases JsonParser.takeBytes 4 rest with
  | none => rfl
  | some parts => rfl

/-- The part of the loop that reads an escape. -/
theorem basicLoop_escape
    {s : List Char}
    {fuel : Nat}
    (further : ∀ {front rest : List Char}, s = front ++ rest →
      ∀ out, basicLoop s fuel (utf8Len front) out =
        (basicChars fuel rest).map (out ++ ·))
    {front rest : List Char}
    (shape : s = front ++ '\\' :: rest)
    (out : List Char) :
    basicLoop s (fuel + 1) (utf8Len front) out =
      (escapeChars rest >>= fun escaped =>
        (basicChars fuel escaped.2).map (escaped.1 :: ·)).map
          (out ++ ·) := by
  have here : (asBytes s)[utf8Len front]? = some (byteOf '\\') := by
    rw [shape]
    exact byte_at front '\\' rest
  have notQuote : byteOf '\\' ≠ byteOf '"' := by
    decide
  rw [basicLoop, here]
  simp only [notQuote, ↓reduceIte]
  cases rest with
  | nil =>
      have ends : (asBytes s)[utf8Len front + 1]? = none := by
        have atEnd := byte_end s
        rw [shape] at atEnd ⊢
        simpa [utf8Size_ascii (c := '\\') (by decide)] using atEnd
      rw [ends]
      rfl
  | cons e rest =>
      have next : (asBytes s)[utf8Len front + 1]? = some (firstByte e) := by
        rw [shape]
        exact byte_after front (by decide) e rest
      have isU : firstByte e = byteOf 'u' ↔ e = 'u' :=
        firstByte_eq_iff (by decide)
      rw [next]
      simp only [escapeChars, isU]
      cases escape : simpleEscape (firstByte e) with
      | some d =>
          have moved : utf8Len front + 2 = utf8Len (front ++ ['\\', e]) := by
            simp [utf8Size_ascii (ascii_of_simpleEscape escape),
              utf8Size_ascii (c := '\\') (by decide)]
          have later : s = (front ++ ['\\', e]) ++ rest := by
            simpa using shape
          simp only [moved, bind, Except.bind]
          rw [further later, map_append_cons]
      | none =>
          by_cases unicode : e = 'u'
          · subst unicode
            have front2 : utf8Len (front ++ ['\\', 'u']) =
                utf8Len front + 2 := by
              rw [utf8Len_append]
              rfl
            have short : utf8Len s < utf8Len front + 6 ↔
                utf8Len rest < 4 := by
              have whole : s = (front ++ ['\\', 'u']) ++ rest := by
                simpa using shape
              rw [whole, utf8Len_append, front2]
              omega
            simp only [↓reduceIte, short, slice_hex shape]
            by_cases truncated : utf8Len rest < 4
            · rw [if_pos truncated, if_pos truncated]
              rfl
            · rw [if_neg truncated, if_neg truncated]
              cases taken : JsonParser.takeBytes 4 rest with
              | none =>
                  rfl
              | some parts =>
                  obtain ⟨hex, later⟩ := parts
                  obtain ⟨rfl, size⟩ := takeBytes_some taken
                  have whole : s =
                      (front ++ ['\\', 'u'] ++ hex) ++ later := by
                    simpa using shape
                  have moved : utf8Len front + 6 =
                      utf8Len (front ++ ['\\', 'u'] ++ hex) := by
                    rw [utf8Len_append, front2, size]
                  simp only [moved, bind, Except.bind]
                  cases JsonParser.fromHex hex with
                  | none =>
                      rfl
                  | some cp =>
                      simp only
                      rw [further whole, map_append_cons]
          · rw [if_neg unicode, if_neg unicode]
            rfl

/-- The loop of `parse_basic_string` moves from character to character. -/
theorem basicLoop_eq
    {s front rest : List Char}
    (shape : s = front ++ rest)
    (fuel : Nat)
    (out : List Char) :
    basicLoop s fuel (utf8Len front) out =
      (basicChars fuel rest).map (out ++ ·) := by
  induction fuel generalizing front rest out with
  | zero =>
      rfl
  | succ fuel inductionHypothesis =>
      cases rest with
      | nil =>
          rw [List.append_nil] at shape
          subst shape
          simp [basicLoop, byte_end, basicChars, Except.map, refuse]
      | cons c rest =>
          have here : (asBytes s)[utf8Len front]? = some (firstByte c) := by
            rw [shape]
            exact byte_at front c rest
          have quote : firstByte c = byteOf '"' ↔ c = '"' :=
            firstByte_eq_iff (by decide)
          have backslash : firstByte c = byteOf '\\' ↔ c = '\\' :=
            firstByte_eq_iff (by decide)
          by_cases isBackslash : c = '\\'
          · subst isBackslash
            exact basicLoop_escape inductionHypothesis shape out
          · rw [basicLoop, here]
            simp only [quote, backslash, isBackslash, ↓reduceIte, basicChars]
            by_cases isQuote : c = '"'
            · subst isQuote
              have last : utf8Len front + 1 ≠ utf8Len s ↔ rest ≠ [] := by
                rw [shape, utf8Len_append, utf8Len_cons,
                  utf8Size_ascii (by decide)]
                cases rest with
                | nil => simp
                | cons d rest =>
                    have := Char.utf8Size_pos d
                    simp only [utf8Len_cons, ne_eq, reduceCtorEq,
                      not_false_eq_true, iff_true]
                    omega
              simp only [↓reduceIte, last]
              split
              · rfl
              · simp [Except.map]
            · rw [if_neg isQuote, if_neg isQuote]
              have taken : JsonParser.takeBytes (utf8Len front) s =
                  some (front, c :: rest) := by
                rw [shape]
                exact takeBytes_append front (c :: rest)
              have later : s = (front ++ [c]) ++ rest := by
                simpa using shape
              have moved : utf8Len front + c.utf8Size =
                  utf8Len (front ++ [c]) := by
                simp
              rw [taken]
              simp only [moved]
              rw [inductionHypothesis later, map_append_cons]

/-- An escape takes at least one character. -/
theorem escapeChars_shorter
    {rest later : List Char}
    {d : Char}
    (escaped : escapeChars rest = .ok (d, later)) :
    later.length < rest.length := by
  cases rest with
  | nil =>
      cases escaped
  | cons e rest =>
      simp only [escapeChars] at escaped
      split at escaped
      · obtain ⟨_, rfl⟩ := Prod.mk.inj (Except.ok.inj escaped)
        exact Nat.lt_succ_self _
      · split at escaped
        · split at escaped
          · cases escaped
          · split at escaped
            · cases escaped
            · rename_i hex left taken
              obtain ⟨rfl, _⟩ := takeBytes_some taken
              split at escaped
              · cases escaped
              · obtain ⟨_, rfl⟩ := Prod.mk.inj (Except.ok.inj escaped)
                simp only [List.length_cons, List.length_append]
                omega
        · cases escaped

/-- More fuel than characters makes no difference. -/
theorem basicChars_fuel
    {fuel fuel' : Nat}
    {rest : List Char}
    (enough : rest.length < fuel)
    (enough' : rest.length < fuel') :
    basicChars fuel rest = basicChars fuel' rest := by
  induction fuel generalizing fuel' rest with
  | zero =>
      exact (Nat.not_lt_zero _ enough).elim
  | succ fuel inductionHypothesis =>
      cases fuel' with
      | zero =>
          exact (Nat.not_lt_zero _ enough').elim
      | succ fuel' =>
          cases rest with
          | nil =>
              rfl
          | cons c rest =>
              rw [List.length_cons] at enough enough'
              have same : basicChars fuel rest = basicChars fuel' rest :=
                inductionHypothesis (by omega) (by omega)
              rw [basicChars, basicChars, same]
              cases escaped : escapeChars rest with
              | error e =>
                  rfl
              | ok pair =>
                  obtain ⟨d, later⟩ := pair
                  have less := escapeChars_shorter escaped
                  have sameLater :
                      basicChars fuel later = basicChars fuel' later :=
                    inductionHypothesis (by omega) (by omega)
                  simp only [bind, Except.bind, sameLater]

/-- `parse_basic_string` decodes what follows the opening quote. -/
theorem parseBasicString_eq (rest : List Char) :
    parseBasicString ('"' :: rest) =
      (basicChars (rest.length + 1) rest).map String.ofList := by
  have first : (asBytes ('"' :: rest))[0]? = some (byteOf '"') :=
    byte_at [] '"' rest
  have size : utf8Len ('"' :: rest) = 1 + utf8Len rest := by
    rw [utf8Len_cons, utf8Size_ascii (by decide)]
  have fuel : basicChars (utf8Len ('"' :: rest) + 1) rest =
      basicChars (rest.length + 1) rest := by
    apply basicChars_fuel
    · have := length_le_utf8Len rest
      omega
    · exact Nat.lt_succ_self _
  have whole : '"' :: rest = ['"'] ++ rest := rfl
  have started : basicLoop ('"' :: rest) (utf8Len ('"' :: rest) + 1) 1 [] =
      (basicChars (rest.length + 1) rest).map ([] ++ ·) := by
    rw [← fuel]
    exact basicLoop_eq whole _ []
  unfold parseBasicString
  rw [first, started]
  cases rest with
  | nil =>
      rfl
  | cons c rest =>
      have long : ¬ utf8Len ('"' :: c :: rest) < 2 := by
        have := Char.utf8Size_pos c
        rw [size, utf8Len_cons]
        omega
      simp only [long, ne_eq, not_true_eq_false, or_self, ↓reduceIte,
        List.nil_append]
      cases basicChars ((c :: rest).length + 1) (c :: rest) with
      | error e => rfl
      | ok chars => rfl

/-! ## Keys on characters -/

/-- A text that starts and ends with given characters. -/
theorem between_of_ends
    {first last : Char}
    {s : List Char}
    (starts : s.head? = some first)
    (ends : s.getLast? = some last)
    (long : 2 ≤ s.length) :
    ∃ inner, s = first :: (inner ++ [last]) := by
  cases s with
  | nil =>
      cases starts
  | cons c rest =>
      simp only [List.head?_cons, Option.some.injEq] at starts
      subst starts
      have nonempty : rest ≠ [] := by
        rintro rfl
        simp at long
      rw [List.getLast?_cons_of_ne_nil nonempty] at ends
      obtain ⟨inner, rfl⟩ := List.getLast?_eq_some_iff.mp ends
      exact ⟨inner, rfl⟩

/-- A text between two quotes. -/
theorem quotedBy_iff
    {quote : Char}
    (ascii : IsAscii quote)
    (k : List Char) :
    quotedBy quote k = true ↔ ∃ inner, k = quote :: (inner ++ [quote]) := by
  simp only [quotedBy, Bool.and_eq_true, decide_eq_true_eq]
  constructor
  · rintro ⟨⟨long, starts⟩, ends⟩
    refine between_of_ends starts ends ?_
    cases k with
    | nil =>
        cases starts
    | cons c rest =>
        simp only [List.head?_cons, Option.some.injEq] at starts
        subst starts
        cases rest with
        | nil =>
            simp [utf8Size_ascii ascii] at long
        | cons d rest =>
            simp
  · rintro ⟨inner, rfl⟩
    refine ⟨⟨?_, rfl⟩, ?_⟩
    · simp only [utf8Len_cons, utf8Len_append, utf8Size_ascii ascii,
        utf8Len_nil]
      omega
    · rw [← List.cons_append, List.getLast?_append]
      rfl

/-- `unquote_key` on the shapes of keys. -/
theorem unquoteKey_quoted
    {quote : Char}
    (isQuote : quote = '"' ∨ quote = '\'')
    (inner : List Char) :
    unquoteKey (quote :: (inner ++ [quote])) = .ok (String.ofList inner) := by
  have ascii : IsAscii quote := by
    rcases isQuote with rfl | rfl <;> decide
  have cut := slice_between ascii ascii inner
  have quoted := (quotedBy_iff ascii _).mpr ⟨inner, rfl⟩
  unfold unquoteKey
  rw [cut]
  rcases isQuote with rfl | rfl
  · rw [if_pos quoted]
    rfl
  · have other : ¬ quotedBy '"' ('\'' :: (inner ++ ['\''])) = true := by
      rw [quotedBy_iff (by decide)]
      rintro ⟨_, shape⟩
      simp at shape
    rw [if_neg other, if_pos quoted]
    rfl

theorem unquoteKey_plain
    {k : List Char}
    (noBasic : ∀ inner, k ≠ '"' :: (inner ++ ['"']))
    (noLiteral : ∀ inner, k ≠ '\'' :: (inner ++ ['\''])) :
    unquoteKey k =
      if k = [] then refuse "empty key" else .ok (String.ofList k) := by
  have first : ¬ quotedBy '"' k = true := by
    rw [quotedBy_iff (by decide)]
    rintro ⟨inner, shape⟩
    exact noBasic inner shape
  have second : ¬ quotedBy '\'' k = true := by
    rw [quotedBy_iff (by decide)]
    rintro ⟨inner, shape⟩
    exact noLiteral inner shape
  simp only [unquoteKey, first, second, List.isEmpty_iff, Bool.false_eq_true,
    ↓reduceIte]

/-! ## Slices of a line -/

/-- `find` gives the offset at which `split_once` cuts. -/
theorem findChar_eq
    (wanted : Char)
    (line : List Char) :
    findChar wanted line =
      (splitOnceChars wanted line).map fun parts => utf8Len parts.1 := by
  induction line with
  | nil =>
      rfl
  | cons c line inductionHypothesis =>
      by_cases same : c = wanted
      · simp [findChar, splitOnceChars, same]
      · simp only [findChar, splitOnceChars, same, ↓reduceIte,
          inductionHypothesis, Option.map_map]
        refine congrArg (fun f => Option.map f _) (funext fun parts => ?_)
        simp

/-- The two sides of the equals sign of an assignment. -/
theorem slices_at_equals
    (before after : List Char) :
    slice (before ++ '=' :: after) 0 (utf8Len before) = .ok before ∧
      sliceFrom (before ++ '=' :: after) (utf8Len before + 1) =
        .ok after := by
  constructor
  · have cut := slice_append [] before ('=' :: after)
    simpa using cut
  · have cut := sliceFrom_append (before ++ ['=']) after
    simpa [utf8Size_ascii (c := '=') (by decide)] using cut

/-- The inside of an array-of-tables header. -/
theorem double_brackets
    {line : List Char}
    (starts : "[[".toList <+: line)
    (ends : "]]".toList <:+ line) :
    ∃ inner, line = "[[".toList ++ (inner ++ "]]".toList) := by
  obtain ⟨rest, rfl⟩ := starts
  obtain ⟨front, shape⟩ := ends
  match front with
  | [] =>
      simp at shape
  | [c] =>
      simp at shape
  | c :: d :: front =>
      simp only [List.cons_append] at shape
      refine ⟨front, ?_⟩
      simp_all

theorem slice_double
    (inner : List Char) :
    slice ("[[".toList ++ (inner ++ "]]".toList)) 2
      (utf8Len ("[[".toList ++ (inner ++ "]]".toList)) - 2) = .ok inner := by
  have two : utf8Len "[[".toList = 2 := by
    decide
  have size : utf8Len ("[[".toList ++ (inner ++ "]]".toList)) - 2 =
      utf8Len "[[".toList + utf8Len inner := by
    have close : utf8Len "]]".toList = 2 := by
      decide
    rw [utf8Len_append, utf8Len_append, close]
    omega
  have cut := slice_append "[[".toList inner "]]".toList
  rw [two] at cut size
  rw [size]
  exact cut

/-- Slicing off the brackets of an array or a header. -/
theorem slice_brackets
    (inner : List Char) :
    slice ('[' :: (inner ++ [']'])) 1
      (utf8Len ('[' :: (inner ++ [']'])) - 1) = .ok inner :=
  slice_between (by decide) (by decide) inner

end Toml

end Myrun
