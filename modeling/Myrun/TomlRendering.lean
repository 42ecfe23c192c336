import Myrun.TomlScalars
import Myrun.TomlTables

namespace Myrun

/-!
# Renderings

A tree can be written down in many ways: values in arrays can be spaced and
broken over lines, comments and blank lines can stand wherever a line ends.
Every such rendering is read back as the tree, as long as no array is nested
deeper than the bracket counter counts.
-/

namespace Toml

/-! ## Physical lines -/

/-- What can follow a number sign. -/
structure Comment where
  text : List Char
  plain : ∀ c ∈ text, isPlain c = true

/-- A line of a document: tokens and blanks, and a comment. -/
structure Row where
  cells : List Cell
  comment : Option Comment

/-- The characters of a line. -/
def Row.text (row : Row) : List Char :=
  cellsText row.cells ++
    match row.comment with
    | none => []
    | some comment => '#' :: comment.text

/-- The tokens of several lines. -/
def rowTokens (rows : List Row) : List Token :=
  rows.flatMap fun row => tokensOf row.cells

@[simp] theorem rowTokens_nil : rowTokens [] = [] := rfl

@[simp] theorem rowTokens_cons (row : Row) (rows : List Row) :
    rowTokens (row :: rows) = tokensOf row.cells ++ rowTokens rows := by
  simp [rowTokens]

@[simp] theorem rowTokens_append (front back : List Row) :
    rowTokens (front ++ back) = rowTokens front ++ rowTokens back := by
  simp [rowTokens]

/-- How a line ends. -/
inductive LineEnd where
  | lf
  | crlf

/-- The characters that end a line. -/
def LineEnd.text : LineEnd → List Char
  | lf => ['\n']
  | crlf => ['\r', '\n']

/-- The text of a document.  The last line need not be ended. -/
inductive TextOf : List Row → List Char → Prop where
  | nil : TextOf [] []
  | last {row : Row}
      (visible : row.text ≠ []) :
      TextOf [row] row.text
  | cons {row : Row} {ending : LineEnd} {rows : List Row} {text : List Char}
      (next : TextOf rows text) :
      TextOf (row :: rows) (row.text ++ (ending.text ++ text))

private theorem Cell.oneLine (cell : Cell) : '\n' ∉ cell.text ∧ '\r' ∉ cell.text := by
  match cell with
  | .token (.atom a) => exact a.oneLine
  | .token .opening => decide
  | .token .closing => decide
  | .token .comma => decide
  | .gap g =>
      exact ⟨fun member => absurd (g.blank _ member) (by decide),
        fun member => absurd (g.blank _ member) (by decide)⟩

private theorem Row.oneLine (row : Row) : '\n' ∉ row.text ∧ '\r' ∉ row.text := by
  have cells : '\n' ∉ cellsText row.cells ∧ '\r' ∉ cellsText row.cells := by
    constructor
    · intro member
      obtain ⟨cell, _, inCell⟩ := List.mem_flatMap.mp member
      exact cell.oneLine.1 inCell
    · intro member
      obtain ⟨cell, _, inCell⟩ := List.mem_flatMap.mp member
      exact cell.oneLine.2 inCell
  unfold Row.text
  cases row.comment with
  | none =>
      simpa using cells
  | some comment =>
      constructor
      · intro member
        rcases List.mem_append.mp member with inCells | inComment
        · exact cells.1 inCells
        · rcases List.mem_cons.mp inComment with same | inText
          · cases same
          · exact (not_lineBreak_of_plain (comment.plain _ inText)).1 rfl
      · intro member
        rcases List.mem_append.mp member with inCells | inComment
        · exact cells.2 inCells
        · rcases List.mem_cons.mp inComment with same | inText
          · cases same
          · exact (not_lineBreak_of_plain (comment.plain _ inText)).2 rfl

private theorem linesFrom_row
    {cs : List Char}
    (noBreak : '\n' ∉ cs)
    (line rest : List Char) :
    linesFrom line (cs ++ rest) = linesFrom (cs.reverse ++ line) rest := by
  induction cs generalizing line with
  | nil =>
      rfl
  | cons c cs inductionHypothesis =>
      simp only [List.mem_cons, not_or] at noBreak
      rw [List.cons_append, linesFrom, if_neg (Ne.symm noBreak.1),
        inductionHypothesis noBreak.2]
      simp

/-- The lines of a document are found again. -/
theorem TextOf.lines
    {rows : List Row}
    {text : List Char}
    (written : TextOf rows text) :
    linesFrom [] text = rows.map Row.text := by
  induction written with
  | nil =>
      rfl
  | @last row visible =>
      have passed := linesFrom_row row.oneLine.1 [] []
      rw [List.append_nil, List.append_nil] at passed
      rw [passed]
      cases shape : row.text.reverse with
      | nil =>
          exact (visible (by simpa using shape)).elim
      | cons c rest =>
          rw [linesFrom]
          · rw [← shape, List.reverse_reverse]
            rfl
          · simp
  | @cons row ending rows text _ inductionHypothesis =>
      have noReturn : row.text.reverse.head? ≠ some '\r' := by
        intro same
        have member := List.mem_of_mem_head? same
        exact row.oneLine.2 (List.mem_reverse.mp member)
      rw [linesFrom_row row.oneLine.1, List.append_nil]
      cases ending with
      | lf =>
          rw [LineEnd.text, List.singleton_append, linesFrom, if_pos rfl,
            if_neg noReturn, List.reverse_reverse, inductionHypothesis]
          rfl
      | crlf =>
          rw [LineEnd.text, List.cons_append, List.singleton_append,
            linesFrom, if_neg (by decide), linesFrom, if_pos rfl,
            inductionHypothesis]
          simp

/-- Comments are stripped. -/
theorem lineText_row (row : Row) :
    lineText row.text = trimChars (cellsText row.cells) := by
  have code : uncommented (annotate .outside row.text) =
      cellsText row.cells := by
    unfold Row.text
    rw [annotate_cells, uncommented_cells]
    cases row.comment with
    | none =>
        simp [annotate, uncommented]
    | some comment =>
        simp only
        rw [annotate_active (by decide), uncommented, if_pos ⟨rfl, rfl⟩,
          List.append_nil]
  rw [lineText, code]

/-! ## Joined lines -/

/-- The tokens of a line, without the blanks before the first and after the
last. -/
theorem trimmed_cells
    {cells : List Cell}
    {first : Token}
    {others : List Token}
    (spelled : tokensOf cells = first :: others) :
    ∃ rest, trimChars (cellsText cells) = cellsText (.token first :: rest) ∧
      tokensOf rest = others := by
  obtain ⟨before, after, rfl, front, back⟩ := cells_first spelled
  rcases List.eq_nil_or_concat others with rfl | ⟨middle, last, rfl⟩
  · refine ⟨[], ?_, rfl⟩
    rw [trimChars_token front back]
    simp [Cell.text]
  · rw [List.concat_eq_append] at back
    obtain ⟨between, tail, rfl, inside, none⟩ := cells_split back
    refine ⟨between ++ [.token last], ?_, by simp [inside]⟩
    rw [trimChars_between front none]

private theorem lineText_blank
    {row : Row}
    (blank : tokensOf row.cells = []) :
    lineText row.text = [] := by
  rw [lineText_row, trimChars_blank (white_cells blank)]

/-- The blank that stands for a line break. -/
def Gap.space : Gap where
  text := [' ']
  blank := by simp [isBlank]

/-- A text joined so far, as cells. -/
structure Joined (p : Pending) (ts : List Token) : Prop where
  cells : ∃ first rest, p.joined = cellsText (.token first :: rest) ∧
    first :: tokensOf rest = ts

/-- A line with tokens is added to what is joined. -/
theorem measured_some
    {p : Pending}
    {ts more : List Token}
    {t : Token}
    (joined : Joined p ts)
    {row : Row}
    (spelled : tokensOf row.cells = t :: more)
    (i : Nat) :
    ∃ next, measured (some p) i row.text = some next ∧
      next.start = p.start ∧ Joined next (ts ++ t :: more) := by
  obtain ⟨first, rest, text, tokens⟩ := joined.cells
  obtain ⟨tail, trimmed, others⟩ := trimmed_cells spelled
  obtain ⟨c, front, starts, _⟩ := t.starts
  have visible : ¬ (lineText row.text).isEmpty = true := by
    rw [lineText_row, trimmed, cellsText_cons, Cell.text, starts]
    simp
  refine ⟨{ p with joined := p.joined ++ ' ' :: lineText row.text }, ?_, rfl,
    ⟨first, rest ++ .gap .space :: .token t :: tail, ?_, ?_⟩⟩
  · rw [measured, if_neg visible]
  · rw [lineText_row, trimmed, text]
    simp [Cell.text, Gap.space]
  · simp [← tokens, others]

/-- The first line of an assignment. -/
theorem measured_none
    {row : Row}
    {k : Atom}
    {more : List Token}
    (spelled : tokensOf row.cells = .atom k :: more)
    (named : k.text.head? ≠ some '[')
    (i : Nat) :
    ∃ next, measured none i row.text = some next ∧ next.start = i ∧
      Joined next (.atom k :: more) := by
  obtain ⟨tail, trimmed, others⟩ := trimmed_cells spelled
  obtain ⟨c, front, starts, _⟩ := k.starts
  have line : lineText row.text = cellsText (.token (.atom k) :: tail) := by
    rw [lineText_row, trimmed]
  have head : (lineText row.text).head? = k.text.head? := by
    rw [line, cellsText_cons, Cell.text, Token.text, starts]
    rfl
  have visible : ¬ (lineText row.text).isEmpty = true := by
    rw [line, cellsText_cons, Cell.text, Token.text, starts]
    simp
  have notHeader : ¬ ((lineText row.text).head? = some '[' ∧
      '=' ∉ lineText row.text) := by
    rw [head]
    exact fun both => named both.1
  refine ⟨⟨i, lineText row.text⟩, ?_, rfl, ⟨.atom k, tail, line, ?_⟩⟩
  · rw [measured, if_neg visible, if_neg notHeader]
  · rw [others]

private theorem measured_blank
    {row : Row}
    (blank : tokensOf row.cells = [])
    (pending : Option Pending)
    (i : Nat) :
    foldLine pending i row.text = .ok (pending, []) := by
  have none : (lineText row.text).isEmpty = true := by
    rw [lineText_blank blank]
    rfl
  rw [foldLine_eq]
  cases pending with
  | none =>
      simp [measured, unmeasured, none]
  | some p =>
      simp [measured, unmeasured, none]

/-- The brackets of a joined text. -/
theorem bracketDepth_joined
    {p : Pending}
    {ts : List Token}
    (joined : Joined p ts)
    (fits : Fits 0 ts) :
    bracketDepth p.joined = .ok (level ts) := by
  obtain ⟨first, rest, text, rfl⟩ := joined.cells
  have counted := depthFrom_cells
    (show Fits 0 (tokensOf (.token first :: rest)) from fits) []
  rw [List.append_nil] at counted
  rw [bracketDepth_eq, text, counted, Int.zero_add]
  rfl

private theorem close_open
    {p : Pending}
    {ts : List Token}
    (joined : Joined p ts)
    (fits : Fits 0 ts)
    (isOpen : 0 < level ts) :
    close p = .ok (some p, []) := by
  rw [close, bracketDepth_joined joined fits]
  simp only [bind, Except.bind, isOpen, ↓reduceIte]
  rfl

private theorem close_closed
    {p : Pending}
    {ts : List Token}
    (joined : Joined p ts)
    (fits : Fits 0 ts)
    (isClosed : level ts = 0) :
    close p = .ok (none, [(p.start, p.joined)]) := by
  rw [close, bracketDepth_joined joined fits]
  simp only [bind, Except.bind, isClosed, Int.lt_irrefl, ↓reduceIte]
  rfl

private theorem Fits.front
    {depth : Int}
    {front back : List Token}
    (fits : Fits depth (front ++ back)) :
    Fits depth front := by
  obtain ⟨above, below⟩ := fits
  rw [low_append] at above
  rw [peak_append] at below
  constructor <;> omega

/-- Every line but the last ends inside brackets. -/
def BreaksInside (before : List Token) (rows : List Row) : Prop :=
  ∀ front back, rows = front ++ back → front ≠ [] → back ≠ [] →
    0 < level (before ++ rowTokens front)

private theorem BreaksInside.tail
    {before : List Token}
    {row : Row}
    {rows : List Row}
    (inside : BreaksInside before (row :: rows)) :
    BreaksInside (before ++ tokensOf row.cells) rows := by
  rintro front back rfl nonempty _
  have further := inside (row :: front) back rfl (by simp) ‹_›
  simpa [List.append_assoc] using further

private theorem BreaksInside.head
    {before : List Token}
    {row : Row}
    {rows : List Row}
    (inside : BreaksInside before (row :: rows))
    (more : rows ≠ []) :
    0 < level (before ++ tokensOf row.cells) := by
  have first := inside [row] rows rfl (by simp) more
  simpa using first

/-- A physical line and the ones after it. -/
theorem foldLines_cons
    {pending next : Option Pending}
    {i : Nat}
    {line : List Char}
    {out : List (Nat × List Char)}
    (folded : foldLine pending i line = .ok (next, out))
    (rest : List (List Char)) :
    foldLines pending i (line :: rest) =
      (foldLines next (i + 1) rest).map (out ++ ·) := by
  have step : foldLines pending i (line :: rest) = (do
      let read ← foldLine pending i line
      let more ← foldLines read.1 (i + 1) rest
      return read.2 ++ more) := by
    cases pending with
    | none => rfl
    | some p => rfl
  rw [step, folded]
  simp only [bind, Except.bind]
  cases foldLines next (i + 1) rest with
  | error fault => rfl
  | ok more => rfl

private theorem foldLines_silent
    {pending next : Option Pending}
    {i : Nat}
    {line : List Char}
    (folded : foldLine pending i line = .ok (next, []))
    (rest : List (List Char)) :
    foldLines pending i (line :: rest) = foldLines next (i + 1) rest := by
  rw [foldLines_cons folded]
  cases foldLines next (i + 1) rest with
  | error fault => rfl
  | ok more => rfl

/-- The rest of an assignment that is broken over lines. -/
theorem foldLines_pending
    {rows : List Row}
    {p : Pending}
    {done : List Token}
    (joined : Joined p done)
    (fits : Fits 0 (done ++ rowTokens rows))
    (isOpen : 0 < level done)
    (isClosed : level (done ++ rowTokens rows) = 0)
    (inside : BreaksInside done rows)
    (i : Nat)
    (rest : List (List Char)) :
    ∃ line, Joined ⟨p.start, line⟩ (done ++ rowTokens rows) ∧
      foldLines (some p) i (rows.map Row.text ++ rest) =
        (foldLines none (i + rows.length) rest).map ([(p.start, line)] ++ ·) := by
  induction rows generalizing p done i with
  | nil =>
      rw [rowTokens_nil, List.append_nil] at isClosed
      exact absurd isClosed (Int.ne_of_gt isOpen)
  | cons row rows inductionHypothesis =>
      rw [rowTokens_cons, ← List.append_assoc] at fits isClosed ⊢
      have count : i + (row :: rows).length = i + 1 + rows.length := by
        rw [List.length_cons]
        omega
      rw [List.map_cons, List.cons_append, count]
      cases spelled : tokensOf row.cells with
      | nil =>
          rw [spelled, List.append_nil] at fits isClosed
          have further := inside.tail
          rw [spelled, List.append_nil] at further
          rw [foldLines_silent (measured_blank spelled _ i), List.append_nil]
          exact inductionHypothesis joined fits isOpen isClosed further (i + 1)
      | cons t more =>
          obtain ⟨next, counted, start, longer⟩ :=
            measured_some joined spelled i
          have folded : foldLine (some p) i row.text = close next := by
            rw [foldLine_eq, counted]
          have now : Fits 0 (done ++ t :: more) := by
            rw [← spelled]
            exact fits.front
          rw [← spelled] at longer now
          by_cases last : rows = []
          · subst last
            rw [rowTokens_nil, List.append_nil] at isClosed
            rw [close_closed longer now isClosed] at folded
            refine ⟨next.joined, ?_, ?_⟩
            · rw [← spelled, ← start, rowTokens_nil, List.append_nil]
              exact longer
            · rw [foldLines_cons folded, start]
              rfl
          · have stillOpen := inside.head last
            rw [close_open longer now stillOpen] at folded
            rw [foldLines_silent folded, ← start, ← spelled]
            exact inductionHypothesis longer fits stillOpen isClosed
              inside.tail (i + 1)

/-- An assignment becomes one logical line. -/
theorem foldLines_assignment
    {rows : List Row}
    {k : Atom}
    {ts : List Token}
    (spelled : rowTokens rows = .atom k :: ts)
    (named : k.text.head? ≠ some '[')
    (fits : Fits 0 (.atom k :: ts))
    (isClosed : level (.atom k :: ts) = 0)
    (inside : BreaksInside [] rows)
    (i : Nat)
    (rest : List (List Char)) :
    ∃ start line, Joined ⟨start, line⟩ (.atom k :: ts) ∧
      foldLines none i (rows.map Row.text ++ rest) =
        (foldLines none (i + rows.length) rest).map ([(start, line)] ++ ·) := by
  cases rows with
  | nil =>
      cases spelled
  | cons row rows =>
      have count : i + (row :: rows).length = i + 1 + rows.length := by
        rw [List.length_cons]
        omega
      rw [rowTokens_cons] at spelled
      rw [List.map_cons, List.cons_append, count]
      cases first : tokensOf row.cells with
      | nil =>
          -- A first line without tokens would have to end inside brackets.
          cases rows with
          | nil =>
              rw [first] at spelled
              cases spelled
          | cons other rows =>
              have isOpen := inside.head (by simp)
              rw [first] at isOpen
              exact absurd isOpen (by decide)
      | cons t more =>
          rw [first] at spelled
          obtain ⟨rfl, same⟩ := List.cons.inj spelled
          obtain ⟨next, counted, start, joined⟩ :=
            measured_none first named i
          have folded : foldLine none i row.text = close next := by
            rw [foldLine_eq, counted]
          have whole : Token.atom k :: ts =
              (.atom k :: more) ++ rowTokens rows := by
            rw [← same]
            rfl
          rw [whole] at fits isClosed ⊢
          by_cases last : rows = []
          · subst last
            rw [rowTokens_nil, List.append_nil] at fits isClosed ⊢
            rw [close_closed joined fits isClosed] at folded
            exact ⟨next.start, next.joined, joined, foldLines_cons folded _⟩
          · have isOpen := inside.head last
            rw [first, List.nil_append] at isOpen
            have further := inside.tail
            rw [first, List.nil_append] at further
            rw [close_open joined fits.front isOpen] at folded
            obtain ⟨line, all, lines⟩ := foldLines_pending joined fits isOpen
              isClosed further (i + 1) rest
            refine ⟨next.start, line, all, ?_⟩
            rw [foldLines_silent folded]
            exact lines

/-! ## Too many brackets -/

private theorem joined_overdeep
    {p : Pending}
    {ts : List Token}
    (joined : Joined p ts)
    (deep : 2 ^ 31 ≤ peak ts) :
    Overdeep p.joined := by
  obtain ⟨first, rest, text, rfl⟩ := joined.cells
  have overdeep := overdeep_of_peak
    (show 2 ^ 31 ≤ peak (tokensOf (.token first :: rest)) from deep) []
  rw [List.append_nil] at overdeep
  rw [text]
  exact overdeep

private theorem fits_of_peak
    {front back : List Token}
    (lowest : low (front ++ back) = 0)
    (shallow : peak front < 2 ^ 31) :
    Fits 0 front := by
  rw [low_append] at lowest
  constructor <;> omega

/-- Somewhere on the lines of a value the counter overflows. -/
theorem joinTrouble_pending
    {rows : List Row}
    {p : Pending}
    {done : List Token}
    (joined : Joined p done)
    (lowest : low (done ++ rowTokens rows) = 0)
    (shallow : peak done < 2 ^ 31)
    (deep : 2 ^ 31 ≤ peak (done ++ rowTokens rows))
    (inside : BreaksInside done rows)
    (i : Nat)
    (rest : List (List Char)) :
    JoinTrouble (some p) i (rows.map Row.text ++ rest) := by
  induction rows generalizing p done i with
  | nil =>
      rw [rowTokens_nil, List.append_nil] at deep
      exact absurd deep (Int.not_le.mpr shallow)
  | cons row rows inductionHypothesis =>
      rw [rowTokens_cons, ← List.append_assoc] at lowest deep
      rw [List.map_cons, List.cons_append]
      cases spelled : tokensOf row.cells with
      | nil =>
          rw [spelled, List.append_nil] at lowest deep
          have further := inside.tail
          rw [spelled, List.append_nil] at further
          exact .later (measured_blank spelled _ i)
            (inductionHypothesis joined lowest shallow deep further (i + 1))
      | cons t more =>
          obtain ⟨next, counted, _, longer⟩ := measured_some joined spelled i
          rw [← spelled] at longer
          by_cases now : 2 ^ 31 ≤ peak (done ++ tokensOf row.cells)
          · exact .here counted (joined_overdeep longer now)
          · rw [Int.not_le] at now
            have more : rows ≠ [] := by
              rintro rfl
              rw [rowTokens_nil, List.append_nil] at deep
              exact absurd deep (Int.not_le.mpr now)
            have folded : foldLine (some p) i row.text =
                .ok (some next, []) := by
              rw [foldLine_eq, counted]
              exact close_open longer (fits_of_peak lowest now)
                (inside.head more)
            exact .later folded
              (inductionHypothesis longer lowest now deep inside.tail (i + 1))

private theorem joinTrouble_assignment
    {rows : List Row}
    {k : Atom}
    {ts : List Token}
    (spelled : rowTokens rows = .atom k :: ts)
    (named : k.text.head? ≠ some '[')
    (lowest : low (.atom k :: ts) = 0)
    (deep : 2 ^ 31 ≤ peak (.atom k :: ts))
    (inside : BreaksInside [] rows)
    (i : Nat)
    (rest : List (List Char)) :
    JoinTrouble none i (rows.map Row.text ++ rest) := by
  cases rows with
  | nil =>
      cases spelled
  | cons row rows =>
      rw [rowTokens_cons] at spelled
      rw [List.map_cons, List.cons_append]
      cases first : tokensOf row.cells with
      | nil =>
          cases rows with
          | nil =>
              rw [first] at spelled
              cases spelled
          | cons other rows =>
              have isOpen := inside.head (by simp)
              rw [first] at isOpen
              exact absurd isOpen (by decide)
      | cons t more =>
          rw [first] at spelled
          obtain ⟨rfl, same⟩ := List.cons.inj spelled
          obtain ⟨next, counted, _, joined⟩ := measured_none first named i
          have whole : Token.atom k :: ts =
              (.atom k :: more) ++ rowTokens rows := by
            rw [← same]
            rfl
          rw [whole] at lowest deep
          by_cases now : 2 ^ 31 ≤ peak (.atom k :: more)
          · exact .here counted (joined_overdeep joined now)
          · rw [Int.not_le] at now
            have later : rows ≠ [] := by
              rintro rfl
              rw [rowTokens_nil, List.append_nil] at deep
              exact absurd deep (Int.not_le.mpr now)
            have isOpen := inside.head later
            have further := inside.tail
            rw [first, List.nil_append] at isOpen further
            have folded : foldLine none i row.text = .ok (some next, []) := by
              rw [foldLine_eq, counted]
              exact close_open joined (fits_of_peak lowest now) isOpen
            exact .later folded
              (joinTrouble_pending joined lowest now deep further (i + 1) rest)

/-! ## Headers -/

/-- The tokens of a path: keys with dots between them. -/
inductive PathTokens : List String → List Token → Prop where
  | last {key : String} {a : Atom}
      (bare : BareKey key.toList)
      (named : a.text = key.toList) :
      PathTokens [key] [.atom a]
  | cons {key : String} {path : List String} {a dot : Atom}
      {ts : List Token}
      (bare : BareKey key.toList)
      (named : a.text = key.toList)
      (dotted : dot.text = ['.'])
      (further : PathTokens path ts) :
      PathTokens (key :: path) (.atom a :: .atom dot :: ts)

/-- A bare key stands for itself. -/
theorem unquoteKey_bare
    {key : String}
    (bare : BareKey key.toList) :
    unquoteKey key.toList = .ok key := by
  have noQuote (quote : Char) (isQuote : isBareKeyChar quote = false)
      (inner : List Char) : key.toList ≠ quote :: (inner ++ [quote]) := by
    intro shape
    have first := bare.2 quote (by simp [shape])
    rw [isQuote] at first
    cases first
  rw [unquoteKey_plain (noQuote '"' (by decide)) (noQuote '\'' (by decide)),
    if_neg bare.1, String.ofList_toList]

private theorem keySegment_bare
    {key : String}
    (bare : BareKey key.toList)
    {before after : List Cell}
    {a : Atom}
    (named : a.text = key.toList)
    (front : tokensOf before = [])
    (back : tokensOf after = []) :
    keySegment (cellsText (before ++ .token (.atom a) :: after)) =
      .ok key := by
  have trimmed : trimChars (cellsText (before ++ .token (.atom a) :: after)) =
      key.toList := by
    rw [trimChars_token front back, Token.text, named]
  have visible : ¬ key.toList.isEmpty = true := by
    simpa using bare.1
  rw [keySegment, trimmed, if_neg visible, unquoteKey_bare bare]

/-- Blanks and a bare key between them. -/
theorem segment_chars
    {key : String}
    (bare : BareKey key.toList)
    {before after : List Cell}
    {a : Atom}
    (named : a.text = key.toList)
    (front : tokensOf before = [])
    (back : tokensOf after = []) :
    ∀ c ∈ cellsText (before ++ .token (.atom a) :: after),
      isBlank c = true ∨ isBareKeyChar c = true := by
  intro c member
  rw [cellsText_append, cellsText_cons, Cell.text, Token.text,
    named] at member
  simp only [List.mem_append] at member
  rcases member with inFront | inKey | inBack
  · exact Or.inl (blank_cells front c inFront)
  · exact Or.inr (bare.2 c inKey)
  · exact Or.inl (blank_cells back c inBack)

private theorem not_mem_segment
    {segment : List Char}
    (chars : ∀ c ∈ segment, isBlank c = true ∨ isBareKeyChar c = true)
    {d : Char}
    (other : isBlank d = false ∧ isBareKeyChar d = false) :
    d ∉ segment := by
  intro member
  rcases chars d member with blank | bare
  · rw [other.1] at blank
    cases blank
  · rw [other.2] at bare
    cases bare

/-- A path of bare keys is read as it is written. -/
theorem PathTokens.read
    {path : List String}
    {ts : List Token}
    (tokens : PathTokens path ts)
    {cells : List Cell}
    (spelled : tokensOf cells = ts) :
    splitKeyPath (cellsText cells) = .ok path ∧
      ∀ c ∈ cellsText cells,
        isBlank c = true ∨ isBareKeyChar c = true ∨ c = '.' := by
  induction tokens generalizing cells with
  | last bare named =>
      obtain ⟨before, after, rfl, front, back⟩ := cells_first spelled
      have chars := segment_chars bare named front back
      have whole := not_mem_segment chars (d := '.') (by decide)
      refine ⟨?_, fun c member => (chars c member).imp id Or.inl⟩
      rw [splitKeyPath, splitChars_of_not_mem whole, List.mapM_cons,
        keySegment_bare bare named front back]
      rfl
  | @cons key path a dot ts bare named dotted _ inductionHypothesis =>
      obtain ⟨before, rest, rfl, front, tail⟩ := cells_first spelled
      obtain ⟨after, later, rfl, back, others⟩ := cells_first tail
      obtain ⟨read, below⟩ := inductionHypothesis others
      have chars := segment_chars bare named front back
      have whole := not_mem_segment chars (d := '.') (by decide)
      have shape : cellsText (before ++ .token (.atom a) ::
            (after ++ .token (.atom dot) :: later)) =
          cellsText (before ++ .token (.atom a) :: after) ++
            '.' :: cellsText later := by
        simp [Cell.text, Token.text, dotted]
      rw [shape]
      constructor
      · rw [splitKeyPath] at read ⊢
        rw [splitChars_append whole, List.mapM_cons,
          keySegment_bare bare named front back, read]
        rfl
      · intro c member
        rcases List.mem_append.mp member with here | later
        · exact (chars c here).imp id Or.inl
        · rcases List.mem_cons.mp later with rfl | inRest
          · exact Or.inr (Or.inr rfl)
          · exact below c inRest

/-- The characters of a path are not those of a header or an assignment. -/
theorem PathTokens.chars
    {path : List String}
    {cells : List Cell}
    (named : PathTokens path (tokensOf cells)) :
    '=' ∉ cellsText cells ∧ (cellsText cells).head? ≠ some '[' := by
  have chars := (named.read rfl).2
  constructor
  · intro member
    rcases chars _ member with blank | bare | dot
    · exact absurd blank (by decide)
    · exact absurd bare (by decide)
    · exact absurd dot (by decide)
  · intro first
    rcases chars _ (List.mem_of_mem_head? first) with blank | bare | dot
    · exact absurd blank (by decide)
    · exact absurd bare (by decide)
    · exact absurd dot (by decide)

/-! ## Lines of a document -/

/-- The lines on which a header or an assignment is written. -/
inductive EventRows : Event → List Row → Prop where
  | assign {key : String} {value : Json} {k eq : Atom} {ts : List Token}
      {rows : List Row}
      (bare : BareKey key.toList)
      (named : k.text = key.toList)
      (equals : eq.text = ['='])
      (spelled : rowTokens rows = .atom k :: .atom eq :: ts)
      (spells : Spells (ScalarText .shared) value ts)
      (inside : BreaksInside [] rows) :
      EventRows (.assign key value) rows
  | table {path : List String} {row : Row} {before inner after : List Cell}
      (shape : row.cells = before ++ .token .opening ::
        (inner ++ .token .closing :: after))
      (front : tokensOf before = [])
      (back : tokensOf after = [])
      (named : PathTokens path (tokensOf inner)) :
      EventRows (.table path) [row]
  | tables {path : List String} {row : Row} {before inner after : List Cell}
      (shape : row.cells = before ++ .token .opening :: .token .opening ::
        (inner ++ .token .closing :: .token .closing :: after))
      (front : tokensOf before = [])
      (back : tokensOf after = [])
      (named : PathTokens path (tokensOf inner)) :
      EventRows (.tables path) [row]

/-- The lines of a document, with blank lines between them. -/
inductive DocumentRows : List Event → List Row → Prop where
  | nil : DocumentRows [] []
  | blank {events : List Event} {row : Row} {rows : List Row}
      (blank : tokensOf row.cells = [])
      (next : DocumentRows events rows) :
      DocumentRows events (row :: rows)
  | event {event : Event} {events : List Event} {own rows : List Row}
      (written : EventRows event own)
      (next : DocumentRows events rows) :
      DocumentRows (event :: events) (own ++ rows)

/-- How deep the arrays of an assignment are nested. -/
def Event.nesting : Event → Nat
  | .assign _ value => Toml.nesting value
  | .table _ => 0
  | .tables _ => 0

/-- A header stands on a line of its own. -/
theorem foldLines_header
    {row : Row}
    {inner : List Char}
    (text : lineText row.text = '[' :: (inner ++ [']']))
    (noEquals : '=' ∉ inner)
    (i : Nat)
    (rest : List (List Char)) :
    foldLines none i ([row].map Row.text ++ rest) =
      (foldLines none (i + 1) rest).map
        ([(i, '[' :: (inner ++ [']']))] ++ ·) := by
  have visible : ¬ (lineText row.text).isEmpty = true := by
    simp [text]
  have header : (lineText row.text).head? = some '[' ∧
      '=' ∉ lineText row.text := by
    rw [text]
    refine ⟨rfl, ?_⟩
    simp [noEquals]
  have folded : foldLine none i row.text =
      .ok (none, [(i, '[' :: (inner ++ [']']))]) := by
    rw [foldLine_eq, measured, if_neg visible, if_pos header]
    simp [unmeasured, text]
  exact foldLines_cons folded rest

section Reading

variable [F64Ops]

/-- Reading the line does to the document what the event does. -/
def EventLine (event : Event) (line : List Char) : Prop :=
  ∀ doc after lineno, doc.apply event = .ok after →
    readLine doc lineno line = .ok after

private theorem EventRows.headerLine
    {path : List String}
    {inner : List Cell}
    (named : PathTokens path (tokensOf inner)) :
    EventLine (.table path) ('[' :: (cellsText inner ++ [']'])) := by
  intro doc after lineno applied
  rw [readLine_table named.chars.2, (named.read rfl).1]
  rw [Document.apply] at applied
  cases changed : ensureTable doc.root path with
  | error message =>
      rw [changed] at applied
      cases applied
  | ok root =>
      rw [changed] at applied
      obtain rfl := Except.ok.inj applied
      simp only [bind, Except.bind, changed]
      rfl

private theorem EventRows.elementLine
    {path : List String}
    {inner : List Cell}
    (named : PathTokens path (tokensOf inner)) :
    EventLine (.tables path)
      ("[[".toList ++ (cellsText inner ++ "]]".toList)) := by
  intro doc after lineno applied
  rw [readLine_tables, (named.read rfl).1]
  rw [Document.apply] at applied
  cases changed : pushArrayTable doc.root path with
  | error message =>
      rw [changed] at applied
      cases applied
  | ok root =>
      rw [changed] at applied
      obtain rfl := Except.ok.inj applied
      simp only [bind, Except.bind, changed]
      rfl

/-- A joined assignment is read as the assignment. -/
theorem EventRows.assignmentLine
    {key : String}
    {value : Json}
    {k eq : Atom}
    {ts : List Token}
    {start : Nat}
    {line : List Char}
    (bare : BareKey key.toList)
    (named : k.text = key.toList)
    (equals : eq.text = ['='])
    (spells : Spells (ScalarText .shared) value ts)
    (shallow : (nesting value : Int) < 2 ^ 31)
    (joined : Joined ⟨start, line⟩ (.atom k :: .atom eq :: ts)) :
    EventLine (.assign key value) line := by
  obtain ⟨first, rest, text, tokens⟩ := joined.cells
  obtain ⟨rfl, tail⟩ := List.cons.inj tokens
  obtain ⟨blanks, later, rfl, none, others⟩ := cells_first tail
  have shape : line = (key.toList ++ cellsText blanks) ++
      '=' :: cellsText later := by
    simpa [Cell.text, Token.text, named, equals] using text
  have chars := segment_chars bare named (show tokensOf [] = [] from rfl) none
  simp only [List.nil_append, cellsText_cons, Cell.text, Token.text,
    named] at chars
  have noEquals := not_mem_segment chars (d := '=') (by decide)
  have noBracket := not_mem_segment chars (d := '[') (by decide)
  have plain : line.head? ≠ some '[' := by
    obtain ⟨c, front, head⟩ := List.exists_cons_of_ne_nil bare.1
    rw [shape, head]
    intro same
    obtain rfl := Option.some.inj same
    exact noBracket (by simp [head])
  have cut : splitOnceChars '=' line =
      some (key.toList ++ cellsText blanks, cellsText later) := by
    rw [shape]
    exact splitOnceChars_append noEquals _
  have keyText : trimChars (key.toList ++ cellsText blanks) = key.toList := by
    have trimmed := trimChars_token (t := .atom k)
      (show tokensOf [] = [] from rfl) none
    simpa [Cell.text, Token.text, named] using trimmed
  have read : readValue (trimChars (cellsText later)) = .ok value := by
    refine Spells.read (fun _ _ => ScalarText.leaf)
      (fun _ _ => ScalarText.read) shallow ?_
    rw [others]
    exact spells
  intro doc after lineno applied
  rw [readLine_assignment plain cut, keyText, unquoteKey_bare bare, read]
  rw [Document.apply] at applied
  cases changed : setIn doc.root doc.cur key value with
  | error message =>
      rw [changed] at applied
      cases applied
  | ok root =>
      rw [changed] at applied
      obtain rfl := Except.ok.inj applied
      simp only [bind, Except.bind, locate, changed]
      rfl

/-! ## Documents -/

omit [F64Ops] in
private theorem not_bracket_of_bare
    {key : String}
    {k : Atom}
    (bare : BareKey key.toList)
    (named : k.text = key.toList) :
    k.text.head? ≠ some '[' := by
  intro same
  rw [named] at same
  exact absurd (bare.2 _ (List.mem_of_mem_head? same)) (by decide)

omit [F64Ops] in
/-- The brackets of an assignment are those of its value. -/
theorem assignment_levels
    {value : Json}
    {k eq : Atom}
    {ts : List Token}
    (spells : Spells (ScalarText .shared) value ts) :
    level (.atom k :: .atom eq :: ts) = 0 ∧
      low (.atom k :: .atom eq :: ts) = 0 ∧
      peak (.atom k :: .atom eq :: ts) = nesting value := by
  have balanced := spells.balanced fun _ _ => ScalarText.leaf
  refine ⟨?_, ?_, ?_⟩
  · simp [level, Token.weight, balanced.level]
  · simp [low, Token.weight, balanced.low]
  · simp only [peak, Token.weight, balanced.peak]
    omega

/-- A header or an assignment becomes one logical line. -/
theorem EventRows.fold
    {event : Event}
    {rows : List Row}
    (written : EventRows event rows)
    (shallow : (event.nesting : Int) < 2 ^ 31)
    (i : Nat)
    (rest : List (List Char)) :
    ∃ start line, EventLine event line ∧
      foldLines none i (rows.map Row.text ++ rest) =
        (foldLines none (i + rows.length) rest).map
          ([(start, line)] ++ ·) := by
  cases written with
  | assign bare named equals spelled spells inside =>
      obtain ⟨closed, lowest, highest⟩ := assignment_levels spells
      have fits : Fits 0 _ := ⟨by rw [lowest]; decide, by
        rw [highest, Int.zero_add]
        exact shallow⟩
      obtain ⟨start, line, joined, lines⟩ := foldLines_assignment spelled
        (not_bracket_of_bare bare named) fits closed inside i rest
      exact ⟨start, line, EventRows.assignmentLine bare named equals spells
        shallow joined, lines⟩
  | @table path row before inner after shape front back named =>
      have text : lineText row.text = '[' :: (cellsText inner ++ [']']) := by
        rw [lineText_row, shape, trimChars_between front back]
        simp [Cell.text, Token.text]
      exact ⟨i, _, EventRows.headerLine named,
        foldLines_header text named.chars.1 i rest⟩
  | @tables path row before inner after shape front back named =>
      have text : lineText row.text =
          '[' :: (('[' :: (cellsText inner ++ [']'])) ++ [']']) := by
        have between : trimChars (cellsText (before ++ .token .opening ::
            ((.token .opening :: (inner ++ [.token .closing])) ++
              .token .closing :: after))) = _ :=
          trimChars_between front back
        rw [lineText_row, shape]
        simpa [Cell.text, Token.text] using between
      have noEquals : '=' ∉ '[' :: (cellsText inner ++ [']']) := by
        simp [named.chars.1]
      refine ⟨i, _, ?_, foldLines_header text noEquals i rest⟩
      have line := EventRows.elementLine named
      simpa using line

omit [F64Ops] in
/-- An assignment that is nested too deep stops the reader. -/
theorem EventRows.trouble
    {event : Event}
    {rows : List Row}
    (written : EventRows event rows)
    (deep : 2 ^ 31 ≤ (event.nesting : Int))
    (i : Nat)
    (rest : List (List Char)) :
    Panics (foldLines none i (rows.map Row.text ++ rest)) := by
  cases written with
  | assign bare named equals spelled spells inside =>
      obtain ⟨_, lowest, highest⟩ := assignment_levels spells
      rw [panics_foldLines]
      refine joinTrouble_assignment spelled (not_bracket_of_bare bare named)
        lowest ?_ inside i rest
      rw [highest]
      exact deep
  | table shape front back named =>
      exact absurd deep (by simp [Event.nesting])
  | tables shape front back named =>
      exact absurd deep (by simp [Event.nesting])

/-- The logical lines of a document, one for each event. -/
theorem DocumentRows.fold
    {events : List Event}
    {rows : List Row}
    (written : DocumentRows events rows)
    (shallow : ∀ event ∈ events, (event.nesting : Int) < 2 ^ 31)
    (i : Nat) :
    ∃ lines, foldLines none i (rows.map Row.text) = .ok lines ∧
      List.Forall₂ (fun event entry => EventLine event entry.2)
        events lines := by
  induction written generalizing i with
  | nil =>
      exact ⟨[], rfl, .nil⟩
  | blank blank _ inductionHypothesis =>
      obtain ⟨lines, folded, all⟩ := inductionHypothesis shallow (i + 1)
      refine ⟨lines, ?_, all⟩
      rw [List.map_cons, foldLines_silent (measured_blank blank none i)]
      exact folded
  | @event event events own rows written _ inductionHypothesis =>
      obtain ⟨start, line, reads, split⟩ :=
        written.fold (shallow event List.mem_cons_self) i
          (rows.map Row.text)
      obtain ⟨lines, folded, all⟩ := inductionHypothesis
        (fun other member => shallow other (List.mem_cons_of_mem _ member))
        (i + own.length)
      refine ⟨(start, line) :: lines, ?_, .cons reads all⟩
      rw [List.map_append, split, folded]
      rfl

private theorem DocumentRows.trouble
    {events : List Event}
    {rows : List Row}
    (written : DocumentRows events rows)
    (deep : ∃ event ∈ events, 2 ^ 31 ≤ (event.nesting : Int))
    (i : Nat) :
    Panics (foldLines none i (rows.map Row.text)) := by
  induction written generalizing i with
  | nil =>
      obtain ⟨event, member, _⟩ := deep
      cases member
  | blank blank _ inductionHypothesis =>
      rw [List.map_cons, foldLines_silent (measured_blank blank none i)]
      exact inductionHypothesis deep (i + 1)
  | @event event events own rows written _ inductionHypothesis =>
      rw [List.map_append]
      by_cases here : 2 ^ 31 ≤ (event.nesting : Int)
      · exact written.trouble here i _
      · obtain ⟨other, member, below⟩ := deep
        rcases List.mem_cons.mp member with rfl | later
        · exact (here below).elim
        · obtain ⟨start, line, _, split⟩ :=
            written.fold (Int.not_le.mp here) i (rows.map Row.text)
          rw [split, panics_map]
          exact inductionHypothesis ⟨other, later, below⟩ _

/-- Lines that do what events do, one after the other. -/
theorem readLines_events
    {events : List Event}
    {lines : List (Nat × List Char)}
    (all : List.Forall₂ (fun event entry => EventLine event entry.2)
      events lines)
    {doc after : Document}
    (applied : doc.applyAll events = .ok after) :
    readLines doc lines = .ok after := by
  induction all generalizing doc with
  | nil =>
      obtain rfl := Except.ok.inj applied
      rfl
  | @cons event entry events lines reads _ inductionHypothesis =>
      obtain ⟨lineno, line⟩ := entry
      rw [Document.applyAll] at applied
      cases step : doc.apply event with
      | error message =>
          rw [step] at applied
          cases applied
      | ok next =>
          rw [step] at applied
          rw [readLines, reads doc next lineno step]
          exact inductionHypothesis applied

end Reading

/-! ## Trees as maps -/

mutual

/-- The same tree with the entries of its tables in another order. -/
inductive Table.Same : Table → Table → Prop where
  | mk {values values' : List (String × Json)}
      {subs found subs' : List (String × Sub)}
      (ofValues : values.Perm values')
      (ofSubs : SameSubs subs found)
      (order : found.Perm subs') :
      Table.Same (.mk values subs) (.mk values' subs')

inductive Sub.Same : Sub → Sub → Prop where
  | table {t t' : Table}
      (same : t.Same t') :
      Sub.Same (.table t) (.table t')
  | tables {first first' : Table} {more more' : List Table}
      (same : first.Same first')
      (others : SameTables more more') :
      Sub.Same (.tables first more) (.tables first' more')

inductive SameSubs :
    List (String × Sub) → List (String × Sub) → Prop where
  | nil : SameSubs [] []
  | cons {key : String} {sub sub' : Sub} {subs subs' : List (String × Sub)}
      (same : sub.Same sub')
      (others : SameSubs subs subs') :
      SameSubs ((key, sub) :: subs) ((key, sub') :: subs')

inductive SameTables : List Table → List Table → Prop where
  | nil : SameTables [] []
  | cons {t t' : Table} {more more' : List Table}
      (same : t.Same t')
      (others : SameTables more more') :
      SameTables (t :: more) (t' :: more')

end

mutual

/-- No array in the tree is nested deeper than an `i32` counts. -/
def Table.Shallow : Table → Prop
  | .mk values subs =>
      (∀ entry ∈ values, nesting entry.2 < 2 ^ 31) ∧ SubsShallow subs

def Sub.Shallow : Sub → Prop
  | .table t => t.Shallow
  | .tables first more => first.Shallow ∧ TablesShallow more

def SubsShallow : List (String × Sub) → Prop
  | [] => True
  | (_, sub) :: subs => sub.Shallow ∧ SubsShallow subs

def TablesShallow : List Table → Prop
  | [] => True
  | t :: more => t.Shallow ∧ TablesShallow more

end

private theorem subsShallow_iff (subs : List (String × Sub)) :
    SubsShallow subs ↔ ∀ entry ∈ subs, entry.2.Shallow := by
  induction subs with
  | nil =>
      simp [SubsShallow]
  | cons entry subs inductionHypothesis =>
      simp [SubsShallow, inductionHypothesis]

private theorem subsDistinct_iff (subs : List (String × Sub)) :
    SubsDistinct subs ↔ ∀ entry ∈ subs, entry.2.Distinct := by
  induction subs with
  | nil =>
      simp [SubsDistinct]
  | cons entry subs inductionHypothesis =>
      simp [SubsDistinct, inductionHypothesis]

private theorem SameSubs.keys :
    ∀ {subs subs' : List (String × Sub)}, SameSubs subs subs' →
      subs.map Prod.fst = subs'.map Prod.fst
  | _, _, .nil => rfl
  | _, _, .cons _ others => by
      simp [others.keys]

mutual

private theorem Table.Same.shallow :
    ∀ {t t' : Table}, t.Same t' → (t.Shallow ↔ t'.Shallow)
  | _, _, .mk ofValues ofSubs order => by
      rw [Table.Shallow, Table.Shallow, ofSubs.shallow, subsShallow_iff,
        subsShallow_iff]
      simp only [ofValues.mem_iff, order.mem_iff]

private theorem Sub.Same.shallow :
    ∀ {s s' : Sub}, s.Same s' → (s.Shallow ↔ s'.Shallow)
  | _, _, .table same => by
      rw [Sub.Shallow, Sub.Shallow, same.shallow]
  | _, _, .tables same others => by
      rw [Sub.Shallow, Sub.Shallow, same.shallow, others.shallow]

private theorem SameSubs.shallow :
    ∀ {subs subs' : List (String × Sub)}, SameSubs subs subs' →
      (SubsShallow subs ↔ SubsShallow subs')
  | _, _, .nil => Iff.rfl
  | _, _, .cons same others => by
      rw [SubsShallow, SubsShallow, same.shallow, others.shallow]

private theorem SameTables.shallow :
    ∀ {tables tables' : List Table}, SameTables tables tables' →
      (TablesShallow tables ↔ TablesShallow tables')
  | _, _, .nil => Iff.rfl
  | _, _, .cons same others => by
      rw [TablesShallow, TablesShallow, same.shallow, others.shallow]

end

mutual

private theorem Table.Same.distinct :
    ∀ {t t' : Table}, t.Same t' → t.Distinct → t'.Distinct
  | _, _, .mk ofValues ofSubs order, distinct => by
      rw [Table.Distinct, subsDistinct_iff] at distinct ⊢
      refine ⟨?_, ?_⟩
      · have names := (ofValues.map Prod.fst).append (order.map Prod.fst)
        rw [ofSubs.keys] at distinct
        exact names.nodup_iff.mp distinct.1
      · have below := ofSubs.distinct
          ((subsDistinct_iff _).mpr distinct.2)
        rw [subsDistinct_iff] at below
        exact fun entry member => below entry (order.mem_iff.mpr member)

private theorem Sub.Same.distinct :
    ∀ {s s' : Sub}, s.Same s' → s.Distinct → s'.Distinct
  | _, _, .table same, distinct => by
      rw [Sub.Distinct] at distinct ⊢
      exact same.distinct distinct
  | _, _, .tables same others, distinct => by
      rw [Sub.Distinct] at distinct ⊢
      exact ⟨same.distinct distinct.1, others.distinct distinct.2⟩

private theorem SameSubs.distinct :
    ∀ {subs subs' : List (String × Sub)}, SameSubs subs subs' →
      SubsDistinct subs → SubsDistinct subs'
  | _, _, .nil, distinct => distinct
  | _, _, .cons same others, distinct => by
      rw [SubsDistinct] at distinct ⊢
      exact ⟨same.distinct distinct.1, others.distinct distinct.2⟩

private theorem SameTables.distinct :
    ∀ {tables tables' : List Table}, SameTables tables tables' →
      TablesDistinct tables → TablesDistinct tables'
  | _, _, .nil, distinct => distinct
  | _, _, .cons same others, distinct => by
      rw [TablesDistinct] at distinct ⊢
      exact ⟨same.distinct distinct.1, others.distinct distinct.2⟩

end

/-! ## Reading renderings -/

/-- An event whose value is nested no deeper than an `i32` counts. -/
def Event.Shallow (event : Event) : Prop :=
  event.nesting < 2 ^ 31

private theorem assigns_shallow (values : List (String × Json)) :
    (∀ event ∈ values.map fun entry => Event.assign entry.1 entry.2,
        event.Shallow) ↔
      ∀ entry ∈ values, nesting entry.2 < 2 ^ 31 := by
  rw [List.forall_mem_map]
  rfl

private theorem header_shallow
    (path : List String)
    (events : List Event) :
    ((∀ event ∈ Event.table path :: events, event.Shallow) ↔
        ∀ event ∈ events, event.Shallow) ∧
      ((∀ event ∈ Event.tables path :: events, event.Shallow) ↔
        ∀ event ∈ events, event.Shallow) := by
  simp [Event.Shallow, Event.nesting]

mutual

/-- The events of a tree are nested as deep as the tree. -/
theorem TableEvents.shallow :
    ∀ {path : List String} {t : Table} {events : List Event},
      TableEvents path t events →
        ((∀ event ∈ events, event.Shallow) ↔ t.Shallow)
  | _, _, _, @TableEvents.mk _ values _ _ below => by
      rw [List.forall_mem_append, assigns_shallow, below.shallow,
        Table.Shallow]

private theorem SubsEvents.shallow :
    ∀ {path : List String} {subs : List (String × Sub)}
      {events : List Event},
      SubsEvents path subs events →
        ((∀ event ∈ events, event.Shallow) ↔ SubsShallow subs)
  | _, _, _, .nil => by
      simp [SubsShallow]
  | _, _, _, .table own next => by
      rw [(header_shallow _ _).1, List.forall_mem_append, own.shallow,
        next.shallow, SubsShallow, Sub.Shallow]
  | _, _, _, .headless own next => by
      rw [List.forall_mem_append, own.shallow, next.shallow]
      simp [SubsShallow, Sub.Shallow, Table.Shallow]
  | _, _, _, .tables own next => by
      rw [List.forall_mem_append, own.shallow, next.shallow, SubsShallow,
        Sub.Shallow, TablesShallow]

private theorem ElementEvents.shallow :
    ∀ {path : List String} {tables : List Table} {events : List Event},
      ElementEvents path tables events →
        ((∀ event ∈ events, event.Shallow) ↔ TablesShallow tables)
  | _, _, _, .nil => by
      simp [TablesShallow]
  | _, _, _, .cons own next => by
      rw [(header_shallow _ _).2, List.forall_mem_append, own.shallow,
        next.shallow, TablesShallow]

end

/-- A text that writes a tree down, with the entries of its tables in some
order. -/
structure Renders (t : Table) (text : List Char) : Prop where
  layout : ∃ written events rows, t.Same written ∧
    TableEvents [] written events ∧ DocumentRows events rows ∧
    TextOf rows text

section Renderings

variable [F64Ops]

private theorem Renders.read
    {t : Table}
    {text : List Char}
    (renders : Renders t text)
    (distinct : t.Distinct)
    (shallow : t.Shallow) :
    ∃ found, t.Same found ∧ parse text = .ok found.toJson := by
  obtain ⟨written, events, rows, same, ordered, document, lines⟩ :=
    renders.layout
  have all : ∀ event ∈ events, (event.nesting : Int) < 2 ^ 31 := by
    intro event member
    have below := ordered.shallow.mpr (same.shallow.mp shallow) event member
    unfold Event.Shallow at below
    omega
  obtain ⟨logical, folded, reads⟩ := document.fold all 0
  obtain ⟨cur, applied⟩ := applyAll_tree ordered (same.distinct distinct)
  refine ⟨written, same, ?_⟩
  rw [parse, logicalLines, lines.lines, folded]
  simp only [bind, Except.bind, readLines_events reads applied]
  rfl

private theorem Renders.trouble
    {t : Table}
    {text : List Char}
    (renders : Renders t text)
    (deep : ¬ t.Shallow) :
    Panics (parse text) := by
  obtain ⟨written, events, rows, same, ordered, document, lines⟩ :=
    renders.layout
  rw [same.shallow, ← ordered.shallow] at deep
  simp only [not_forall] at deep
  obtain ⟨event, member, below⟩ := deep
  have nested : 2 ^ 31 ≤ (event.nesting : Int) := by
    unfold Event.Shallow at below
    omega
  rw [parse, logicalLines, lines.lines, panics_bind]
  exact Or.inl (document.trouble ⟨event, member, nested⟩ 0)

/--
A rendering is read back as the tree, up to the order of the entries of a
table, exactly when no array is nested deeper than an `i32` counts.
-/
theorem rendering_read_iff
    {t : Table}
    {text : List Char}
    (distinct : t.Distinct)
    (renders : Renders t text) :
    (∃ found, t.Same found ∧ parse text = .ok found.toJson) ↔ t.Shallow := by
  constructor
  · rintro ⟨found, _, read⟩
    by_contra deep
    have panics := renders.trouble deep
    rw [read] at panics
    exact panics_ok _ panics
  · exact renders.read distinct

end Renderings

/-! ## A rendering -/

/-- The equals sign of an assignment. -/
def Atom.equals : Atom :=
  .ofMarks ['='] [('=', true)]
    (annotate_active (by decide))
    (by simp [Quiet, isMark])
    ⟨'=', [], rfl, by decide⟩
    ⟨[], '=', rfl, by decide⟩
    (by decide)

/-- A key of one letter. -/
def Atom.letter (c : Char) (word : isWordChar c = true) : Atom :=
  .ofWord [c] (by simp) (by simpa using word)

/-- A table with an array and a sub-table. -/
def sampleTree : Table :=
  .mk [("k", .arr [.str "#]"])] [("s", .table (.mk [("b", .bool true)] []))]

/-- A text for it. -/
def sampleText : List Char :=
  "k=[\n'#]',] # x\n[s]\nb=true".toList

private theorem literal_mark : LiteralBody "#]".toList := by
  intro c member
  have known : c = '#' ∨ c = ']' := by
    simpa using member
  rcases known with rfl | rfl <;> decide

/-- Its lines. -/
def sampleRows : List Row :=
  [⟨[.token (.atom (.letter 'k' (by decide))), .token (.atom .equals),
      .token .opening], none⟩,
    ⟨[.token (.atom literal_mark.atom), .token .comma, .token .closing,
      .gap .space], some ⟨[' ', 'x'], by simp [isPlain]⟩⟩,
    ⟨[.token .opening, .token (.atom (.letter 's' (by decide))),
      .token .closing], none⟩,
    ⟨[.token (.atom (.letter 'b' (by decide))), .token (.atom .equals),
      .token (.atom (.ofWord "true".toList (by decide)
        (by simp [isWordChar, isAsciiAlphanumeric])))], none⟩]

private theorem letter_bare
    {key : String}
    {c : Char}
    (single : key.toList = [c])
    (bare : isBareKeyChar c = true) :
    BareKey key.toList := by
  rw [single]
  exact ⟨by simp, by simpa using bare⟩

private theorem breaksInside_single
    (before : List Token)
    (row : Row) :
    BreaksInside before [row] := by
  intro front back shape nonempty further
  cases front with
  | nil =>
      exact (nonempty rfl).elim
  | cons first front =>
      obtain ⟨_, rest⟩ := List.cons.inj shape
      exact (further (List.append_eq_nil_iff.mp rest.symm).2).elim

private theorem sample_assignment :
    EventRows (.assign "k" (.arr [.str "#]"])) (sampleRows.take 2) := by
  refine .assign (letter_bare rfl (by decide)) rfl rfl rfl
    (.arr (.cons (.scalar (.literal literal_mark)) .nil)) ?_
  intro front back shape nonempty further
  match front with
  | [] => exact (nonempty rfl).elim
  | [first] =>
      obtain ⟨rfl, _⟩ := List.cons.inj shape
      decide
  | _ :: _ :: front =>
      obtain ⟨_, rest⟩ := List.cons.inj shape
      obtain ⟨_, rest⟩ := List.cons.inj rest
      exact (further (List.append_eq_nil_iff.mp rest.symm).2).elim

private theorem sample_header :
    EventRows (.table ["s"]) [sampleRows.get ⟨2, by decide⟩] := by
  have bare : BareKey "s".toList := letter_bare rfl (by decide)
  have shape : (sampleRows.get ⟨2, by decide⟩).cells =
      [] ++ .token .opening :: ([.token (.atom (.letter 's' (by decide)))] ++
        .token .closing :: []) :=
    rfl
  exact .table shape rfl rfl (.last bare rfl)

private theorem sample_flag :
    EventRows (.assign "b" (.bool true))
      [sampleRows.get ⟨3, by decide⟩] := by
  have bare : BareKey "b".toList := letter_bare rfl (by decide)
  exact .assign bare rfl rfl rfl (.scalar .yes) (breaksInside_single [] _)

private theorem sample_lines : TextOf sampleRows sampleText := by
  have last : TextOf [sampleRows.get ⟨3, by decide⟩] "b=true".toList :=
    .last (by decide)
  have ended {row : Row} {rows : List Row} {text : List Char}
      (next : TextOf rows text) :
      TextOf (row :: rows) (row.text ++ (LineEnd.lf.text ++ text)) :=
    .cons next
  exact ended (ended (ended last))

private theorem sample_rendered : Renders sampleTree sampleText := by
  refine ⟨sampleTree, [.assign "k" (.arr [.str "#]"]), .table ["s"],
    .assign "b" (.bool true)], sampleRows, ?_, ?_, ?_, ?_⟩
  · exact .mk .rfl (.cons (.table (.mk .rfl .nil .rfl)) .nil) .rfl
  · exact .mk (.table (.mk .nil) .nil)
  · exact .event sample_assignment (.event sample_header
      (.event sample_flag .nil))
  · exact sample_lines

private theorem sampleTree_distinct : sampleTree.Distinct := by
  simp [sampleTree, Table.Distinct, SubsDistinct, Sub.Distinct]

/-- The text is read as the tree. -/
theorem sample_read_iff :
    (∃ found, sampleTree.Same found ∧
        @parse unitOps sampleText = .ok found.toJson) ↔
      sampleTree.Shallow :=
  @rendering_read_iff unitOps sampleTree sampleText sampleTree_distinct
    sample_rendered

/-! ## An array that is nested too deep -/

/-- Arrays in arrays. -/
def nested : Nat → Json
  | 0 => .arr []
  | n + 1 => .arr [nested n]

/-- The cells of its brackets. -/
def nestedTokens : Nat → List Token
  | 0 => .opening :: ([] ++ [.closing])
  | n + 1 => .opening :: (nestedTokens n ++ [.closing])

private theorem nesting_nested (n : Nat) : nesting (nested n) = n + 1 := by
  induction n with
  | zero =>
      simp [nested, nesting, nestingAll]
  | succ n inductionHypothesis =>
      simp [nested, nesting, nestingAll, inductionHypothesis]

private theorem spells_nested
    (scalar : Json → List Char → Prop)
    (n : Nat) :
    Spells scalar (nested n) (nestedTokens n) := by
  induction n with
  | zero =>
      exact .arr .nil
  | succ n inductionHypothesis =>
      exact .arr (.last inductionHypothesis)

/-- One line that assigns the arrays. -/
def nestedRow (n : Nat) : Row where
  cells := .token (.atom (.letter 'k' (by decide))) :: .token (.atom .equals) ::
    (nestedTokens n).map .token
  comment := none

private theorem tokensOf_map (ts : List Token) : tokensOf (ts.map .token) = ts := by
  induction ts with
  | nil =>
      rfl
  | cons t ts inductionHypothesis =>
      simp [inductionHypothesis]

private theorem nested_rendered (n : Nat) :
    Renders (.mk [("k", nested n)] []) (nestedRow n).text := by
  have bare : BareKey "k".toList := letter_bare rfl (by decide)
  have spelled : rowTokens [nestedRow n] =
      .atom (.letter 'k' (by decide)) :: .atom .equals :: nestedTokens n := by
    simp [nestedRow, tokensOf_map]
  refine ⟨.mk [("k", nested n)] [], [.assign "k" (nested n)], [nestedRow n],
    .mk .rfl .nil .rfl, .mk .nil, ?_, .last ?_⟩
  · exact .event (.assign bare rfl rfl spelled (spells_nested _ n)
      (breaksInside_single [] _)) .nil
  · simp [Row.text, nestedRow, Cell.text, Token.text, Atom.letter,
      Atom.ofWord, Atom.ofMarks]

private theorem nested_not_shallow
    {n : Nat}
    (deep : 2 ^ 31 ≤ n) :
    ¬ (Table.mk [("k", nested n)] []).Shallow := by
  intro shallow
  rw [Table.Shallow] at shallow
  have below := shallow.1 ("k", nested n) List.mem_cons_self
  rw [nesting_nested] at below
  omega

theorem deep_array_is_not_read :
    ¬ ∀ [F64Ops] (t : Table) (text : List Char),
      t.Distinct → Renders t text →
        ∃ found, t.Same found ∧ parse text = .ok found.toJson := by
  intro always
  have distinct : (Table.mk [("k", nested (2 ^ 31))] []).Distinct := by
    simp [Table.Distinct, SubsDistinct]
  have rendered := nested_rendered (2 ^ 31)
  obtain ⟨found, _, read⟩ := @always unitOps _ _ distinct rendered
  have panics := @Renders.trouble unitOps _ _ rendered
    (nested_not_shallow (Nat.le_refl _))
  rw [read] at panics
  exact panics_ok _ panics

end Toml

end Myrun
