import Myrun.TomlScan

namespace Myrun

/-!
# Values and lines by their shape

`parse_value` decides by the ends of a text what it is and goes on with what
is between them; `parse` does the same with a line.  Every text that
`parse_value` hands to itself is shorter than its own, so that its recursion
ends, and its value does not depend on how far the recursion is followed.
-/

namespace Toml

/-! ## Trimming -/

/-- Trimming takes white space off both ends. -/
theorem trimChars_shape (cs : List Char) :
    ∃ front back, cs = front ++ (trimChars cs ++ back) ∧
      (∀ c ∈ front, isWhitespace c = true) ∧
      ∀ c ∈ back, isWhitespace c = true := by
  refine ⟨cs.takeWhile isWhitespace,
    ((cs.dropWhile isWhitespace).reverse.takeWhile isWhitespace).reverse,
    ?_, ?_, ?_⟩
  · have right : trimChars cs ++
        ((cs.dropWhile isWhitespace).reverse.takeWhile
          isWhitespace).reverse = cs.dropWhile isWhitespace := by
      rw [trimChars, ← List.reverse_append, List.takeWhile_append_dropWhile,
        List.reverse_reverse]
    rw [right, List.takeWhile_append_dropWhile]
  · intro c member
    exact List.mem_takeWhile_imp member
  · intro c member
    exact List.mem_takeWhile_imp (List.mem_reverse.mp member)

private theorem length_trimChars_le (cs : List Char) :
    (trimChars cs).length ≤ cs.length := by
  obtain ⟨front, back, shape, _, _⟩ := trimChars_shape cs
  have lengths := congrArg List.length shape
  simp only [List.length_append] at lengths
  omega

/-! ## The pieces of an array -/

/-- No piece is longer than the text that is cut. -/
theorem piecesFrom_shorter
    {annotated : List (Char × Bool)}
    {cur : List Char}
    {depth : Int}
    {pieces : List (List Char)}
    (cut : piecesFrom cur depth annotated = .ok pieces) :
    ∀ piece ∈ pieces, piece.length ≤ cur.length + annotated.length := by
  induction annotated generalizing cur depth pieces with
  | nil =>
      obtain rfl := Except.ok.inj cut
      simp
  | cons entry annotated inductionHypothesis =>
      obtain ⟨c, isActive⟩ := entry
      have further
          {depth : Int}
          (more : piecesFrom (cur ++ [c]) depth annotated = .ok pieces) :
          ∀ piece ∈ pieces,
            piece.length ≤ cur.length + (annotated.length + 1) := by
        intro piece member
        have bound := inductionHypothesis more piece member
        simp only [List.length_append, List.length_cons,
          List.length_nil] at bound
        omega
      cases isActive with
      | false =>
          exact further cut
      | true =>
          rw [piecesFrom] at cut
          split at cut
          · cases rest : piecesFrom [] depth annotated with
            | error e =>
                rw [rest] at cut
                cases cut
            | ok more =>
                rw [rest] at cut
                obtain rfl := Except.ok.inj cut
                intro piece member
                rcases List.mem_cons.mp member with rfl | inMore
                · exact Nat.le_add_right _ _
                · have bound := inductionHypothesis rest piece inMore
                  simp only [List.length_nil, List.length_cons] at bound ⊢
                  omega
          · cases deeper : depthChar depth c with
            | error e =>
                rw [deeper] at cut
                cases cut
            | ok next =>
                rw [deeper] at cut
                exact further cut

private theorem splitTopLevel_shorter
    {s : List Char}
    {pieces : List (List Char)}
    (cut : splitTopLevel s = .ok pieces) :
    ∀ piece ∈ pieces, piece.length ≤ s.length := by
  rw [splitTopLevel_eq] at cut
  intro piece member
  have bound := piecesFrom_shorter cut piece member
  have same : (annotate .outside s).length = s.length := by
    rw [← List.length_map Prod.fst, annotate_chars]
  simpa [same] using bound

/-- The items of an array: its pieces, trimmed, without the blank ones. -/
def itemTexts (pieces : List (List Char)) : List (List Char) :=
  (pieces.map trimChars).filter fun t => !t.isEmpty

private theorem mem_itemTexts
    {pieces : List (List Char)}
    {t : List Char} :
    t ∈ itemTexts pieces ↔ t ≠ [] ∧ ∃ piece ∈ pieces, trimChars piece = t := by
  simp [itemTexts, and_comm]

theorem itemTexts_shorter
    {inner : List Char}
    {pieces : List (List Char)}
    (cut : splitTopLevel inner = .ok pieces) :
    ∀ t ∈ itemTexts pieces, t.length ≤ inner.length := by
  intro t member
  obtain ⟨_, piece, inPieces, rfl⟩ := mem_itemTexts.mp member
  exact (length_trimChars_le piece).trans
    (splitTopLevel_shorter cut piece inPieces)

/-- What `parse_value` does with the inside of an array. -/
def readArray (read : List Char → Guarded Json) (inner : List Char) :
    Guarded Json := do
  let pieces ← splitTopLevel inner
  let values ← (itemTexts pieces).mapM read
  return Json.arr values

private theorem mapM_congr
    {α β : Type}
    {f g : α → Guarded β}
    {items : List α}
    (same : ∀ item ∈ items, f item = g item) :
    items.mapM f = items.mapM g := by
  induction items with
  | nil =>
      rfl
  | cons item items inductionHypothesis =>
      rw [List.mapM_cons, List.mapM_cons, same item List.mem_cons_self,
        inductionHypothesis
          (fun other member => same other (List.mem_cons_of_mem item member))]

private theorem readArray_congr
    {f g : List Char → Guarded Json}
    {inner : List Char}
    (same : ∀ t, t.length ≤ inner.length → f t = g t) :
    readArray f inner = readArray g inner := by
  unfold readArray
  cases cut : splitTopLevel inner with
  | error e =>
      rfl
  | ok pieces =>
      have items : (itemTexts pieces).mapM f = (itemTexts pieces).mapM g :=
        mapM_congr fun t member => same t (itemTexts_shorter cut t member)
      simp only [bind, Except.bind, items]

theorem getLast_brackets (inner : List Char) :
    ('[' :: (inner ++ [']'])).getLast? = some ']' := by
  rw [← List.cons_append, List.getLast?_append]
  rfl

/-- The shape of a text that has brackets at its ends. -/
theorem bracketed_of_ends
    {s : List Char}
    (starts : s.head? = some '[')
    (ends : s.getLast? = some ']') :
    ∃ inner, s = '[' :: (inner ++ [']']) := by
  refine between_of_ends starts ends ?_
  match s with
  | [] =>
      cases starts
  | [c] =>
      simp only [List.head?_cons, Option.some.injEq] at starts
      subst starts
      simp at ends
  | _ :: _ :: _ =>
      simp

/-! ## Values -/

section Values

variable [F64Ops]

/-- `parse_value` on an array. -/
theorem parseValue_array
    (fuel : Nat)
    (inner : List Char) :
    parseValue (fuel + 1) ('[' :: (inner ++ [']'])) =
      readArray (parseValue fuel) inner := by
  rw [parseValue]
  simp only [List.isEmpty_cons, Bool.false_eq_true, ↓reduceIte,
    getLast_brackets, slice_brackets]
  simp [readArray, itemTexts, bind, Except.bind]

/-- More fuel than characters makes no difference. -/
theorem parseValue_fuel
    {fuel fuel' : Nat}
    {s : List Char}
    (enough : s.length < fuel)
    (enough' : s.length < fuel') :
    parseValue fuel s = parseValue fuel' s := by
  induction fuel generalizing fuel' s with
  | zero =>
      exact (Nat.not_lt_zero _ enough).elim
  | succ fuel inductionHypothesis =>
      cases fuel' with
      | zero =>
          exact (Nat.not_lt_zero _ enough').elim
      | succ fuel' =>
          by_cases array : s.head? = some '[' ∧ s.getLast? = some ']'
          · obtain ⟨inner, rfl⟩ := bracketed_of_ends array.1 array.2
            simp only [List.length_cons, List.length_append] at enough enough'
            rw [parseValue_array, parseValue_array]
            exact readArray_congr fun t short =>
              inductionHypothesis (by omega) (by omega)
          · rw [parseValue, parseValue]
            by_cases starts : s.head? = some '['
            · have ends : s.getLast? ≠ some ']' := fun ends =>
                array ⟨starts, ends⟩
              simp only [starts, ends, ne_eq, not_false_eq_true, ↓reduceIte]
            · simp only [starts, ↓reduceIte]

/-- `parse_value`, followed for as long as it takes. -/
def readValue (s : List Char) : Guarded Json :=
  parseValue (s.length + 1) s

theorem readValue_array (inner : List Char) :
    readValue ('[' :: (inner ++ [']'])) = readArray readValue inner := by
  rw [readValue, parseValue_array]
  refine readArray_congr fun t short => ?_
  apply parseValue_fuel
  · simp only [List.length_cons, List.length_append]
    omega
  · exact Nat.lt_succ_self _

/-! ## Lines -/

/-- A line that sets a key. -/
theorem readLine_assignment
    {line before after : List Char}
    (plain : line.head? ≠ some '[')
    (cut : splitOnceChars '=' line = some (before, after))
    (doc : Document)
    (lineno : Nat) :
    readLine doc lineno line = do
      let key ← unquoteKey (trimChars before)
      let value ← locate lineno (readValue (trimChars after))
      let root ← locateChange lineno (setIn doc.root doc.cur key value)
      return ⟨root, doc.cur⟩ := by
  have notDouble : ¬ "[[".toList <+: line := by
    rintro ⟨rest, rfl⟩
    exact plain rfl
  have found : findChar '=' line = some (utf8Len before) := by
    rw [findChar_eq, cut]
    rfl
  have slices := slices_at_equals before after
  rw [← splitOnceChars_shape cut] at slices
  rw [readLine, if_neg notDouble, if_neg plain, found]
  simp only [slices.1, slices.2]
  rfl

/-- A line that opens a table. -/
theorem readLine_table
    {inner : List Char}
    (single : inner.head? ≠ some '[')
    (doc : Document)
    (lineno : Nat) :
    readLine doc lineno ('[' :: (inner ++ [']'])) = do
      let path ← splitKeyPath inner
      let root ← locateChange lineno (ensureTable doc.root path)
      return ⟨root, path⟩ := by
  have notDouble : ¬ "[[".toList <+: '[' :: (inner ++ [']']) := by
    rintro ⟨rest, shape⟩
    cases inner with
    | nil =>
        simp at shape
    | cons c inner =>
        have first : c = '[' := by
          have heads := congrArg (·[1]?) shape
          simpa using heads.symm
        exact single (by rw [first]; rfl)
  rw [readLine, if_neg notDouble]
  simp only [List.head?_cons, ↓reduceIte, getLast_brackets, ne_eq,
    not_true_eq_false, slice_brackets]
  rfl

/-- A line that adds a table to an array. -/
theorem readLine_tables
    (inner : List Char)
    (doc : Document)
    (lineno : Nat) :
    readLine doc lineno ("[[".toList ++ (inner ++ "]]".toList)) = do
      let path ← splitKeyPath inner
      let root ← locateChange lineno (pushArrayTable doc.root path)
      return ⟨root, path⟩ := by
  have double : "[[".toList <+: "[[".toList ++ (inner ++ "]]".toList) :=
    ⟨_, rfl⟩
  have ends : "]]".toList <:+ "[[".toList ++ (inner ++ "]]".toList) :=
    ⟨"[[".toList ++ inner, by simp⟩
  rw [readLine, if_pos double, if_neg (not_not.mpr ends), slice_double]
  rfl

end Values

/-! ## Physical lines -/

/-- A physical line without its comment and the white space around it. -/
def lineText (line : List Char) : List Char :=
  trimChars (uncommented (annotate .outside line))

/-- The text whose brackets are counted when a physical line is read. -/
def measured (pending : Option Pending) (i : Nat) (line : List Char) :
    Option Pending :=
  match pending with
  | none =>
      if (lineText line).isEmpty then none
      else if (lineText line).head? = some '[' ∧ '=' ∉ lineText line then none
      else some ⟨i, lineText line⟩
  | some p =>
      if (lineText line).isEmpty then none
      else some { p with joined := p.joined ++ ' ' :: lineText line }

/-- What becomes of a physical line whose brackets are not counted. -/
def unmeasured (pending : Option Pending) (i : Nat) (line : List Char) :
    Option Pending × List (Nat × List Char) :=
  if (lineText line).isEmpty then (pending, [])
  else (none, [(i, lineText line)])

theorem foldLine_eq
    (pending : Option Pending)
    (i : Nat)
    (line : List Char) :
    foldLine pending i line =
      match measured pending i line with
      | some joined => close joined
      | none => .ok (unmeasured pending i line) := by
  have text : trimChars (uncommented (annotate .outside line)) =
      lineText line :=
    rfl
  unfold foldLine
  rw [stripComment_eq]
  cases pending with
  | none =>
      simp only [bind, Except.bind, measured, unmeasured, text]
      by_cases blank : (lineText line).isEmpty
      · simp [blank, pure, Except.pure]
      · by_cases header : (lineText line).head? = some '[' ∧
            '=' ∉ lineText line
        · simp [blank, header, pure, Except.pure]
        · simp only [blank, header, Bool.false_eq_true, ↓reduceIte]
  | some p =>
      simp only [bind, Except.bind, measured, unmeasured, text]
      by_cases blank : (lineText line).isEmpty
      · simp [blank, pure, Except.pure]
      · simp only [blank, Bool.false_eq_true, ↓reduceIte]

end Toml

end Myrun
