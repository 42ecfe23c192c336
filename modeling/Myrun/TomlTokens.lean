import Myrun.TomlGrammar
import Myrun.TomlTotal

namespace Myrun

/-!
# Values as tokens

A value is written as a list of tokens: scalars, brackets and commas, with
blanks between them.  On such a text the three scanners of the reader agree:
they see the brackets and commas of the tokens and nothing inside the scalars.
-/

namespace Toml

/-! ## Tokens and cells -/

/-- The characters that the scanners act upon outside quotes. -/
def isMark (c : Char) : Bool :=
  c = '[' || c = ']' || c = ',' || c = '#'

/-- No active character is one that the scanners act upon. -/
def Quiet (annotated : List (Char × Bool)) : Prop :=
  ∀ c, (c, true) ∈ annotated → isMark c = false

/-- A text on one line whose quotes are closed, without active marks and
without white space at its ends. -/
structure Atom where
  text : List Char
  starts : ∃ c rest, text = c :: rest ∧ isWhitespace c = false
  ends : ∃ front c, text = front ++ [c] ∧ isWhitespace c = false
  closed : ∀ rest, annotate .outside (text ++ rest) =
    annotate .outside text ++ annotate .outside rest
  quiet : Quiet (annotate .outside text)
  oneLine : '\n' ∉ text ∧ '\r' ∉ text

/-- Blanks between tokens. -/
structure Gap where
  text : List Char
  blank : ∀ c ∈ text, isBlank c = true

/-- A token of a value. -/
inductive Token where
  | opening
  | closing
  | comma
  | atom (a : Atom)

/-- A token or the blanks between two of them. -/
inductive Cell where
  | token (t : Token)
  | gap (g : Gap)

/-- The characters of a token. -/
def Token.text : Token → List Char
  | opening => ['[']
  | closing => [']']
  | comma => [',']
  | atom a => a.text

/-- The characters of a cell. -/
def Cell.text : Cell → List Char
  | token t => t.text
  | gap g => g.text

/-- The characters of a list of cells. -/
def cellsText (cells : List Cell) : List Char :=
  cells.flatMap Cell.text

/-- The tokens of a list of cells. -/
def tokensOf : List Cell → List Token
  | [] => []
  | .token t :: cells => t :: tokensOf cells
  | .gap _ :: cells => tokensOf cells

@[simp] theorem cellsText_nil : cellsText [] = [] := rfl

@[simp] theorem cellsText_cons (cell : Cell) (cells : List Cell) :
    cellsText (cell :: cells) = cell.text ++ cellsText cells := by
  simp [cellsText]

@[simp] theorem cellsText_append (front back : List Cell) :
    cellsText (front ++ back) = cellsText front ++ cellsText back := by
  simp [cellsText]

@[simp] theorem tokensOf_nil : tokensOf [] = [] := rfl

@[simp] theorem tokensOf_token (t : Token) (cells : List Cell) :
    tokensOf (.token t :: cells) = t :: tokensOf cells := rfl

@[simp] theorem tokensOf_gap (g : Gap) (cells : List Cell) :
    tokensOf (.gap g :: cells) = tokensOf cells := rfl

@[simp] theorem tokensOf_append (front back : List Cell) :
    tokensOf (front ++ back) = tokensOf front ++ tokensOf back := by
  induction front with
  | nil =>
      rfl
  | cons cell front inductionHypothesis =>
      cases cell with
      | token t => simp [inductionHypothesis]
      | gap g => simp [inductionHypothesis]

/-! ## What the scanners do with quiet text -/

/-- Text without quotes is active throughout. -/
theorem annotate_unquoted
    {cs : List Char}
    (noQuotes : ∀ c ∈ cs, c ≠ '"' ∧ c ≠ '\'')
    (rest : List Char) :
    annotate .outside (cs ++ rest) =
      cs.map (·, true) ++ annotate .outside rest := by
  induction cs with
  | nil =>
      rfl
  | cons c cs inductionHypothesis =>
      obtain ⟨notQuote, notApostrophe⟩ := noQuotes c List.mem_cons_self
      have stays : Quote.outside.after c = .outside := by
        simp [Quote.after, notQuote, notApostrophe]
      rw [List.cons_append, annotate_cons (by simp), stays,
        inductionHypothesis
          (fun other member => noQuotes other (List.mem_cons_of_mem c member))]
      rfl

private theorem annotate_unquoted_nil
    {cs : List Char}
    (noQuotes : ∀ c ∈ cs, c ≠ '"' ∧ c ≠ '\'') :
    annotate .outside cs = cs.map (·, true) := by
  have whole := annotate_unquoted noQuotes []
  simpa [annotate] using whole

private theorem Quiet.cons
    {entry : Char × Bool}
    {annotated : List (Char × Bool)}
    (quiet : Quiet (entry :: annotated)) :
    (entry.2 = true → isMark entry.1 = false) ∧ Quiet annotated := by
  constructor
  · intro isActive
    obtain ⟨c, flag⟩ := entry
    exact quiet c (by simp_all)
  · intro c member
    exact quiet c (List.mem_cons_of_mem entry member)

private theorem depthChar_unmarked
    {c : Char}
    (unmarked : isMark c = false)
    (depth : Int) :
    depthChar depth c = .ok depth := by
  simp only [isMark, Bool.or_eq_false_iff, decide_eq_false_iff_not] at unmarked
  simp [depthChar, unmarked]

private theorem depthFrom_quiet
    {annotated : List (Char × Bool)}
    (quiet : Quiet annotated)
    (depth : Int)
    (rest : List (Char × Bool)) :
    depthFrom depth (annotated ++ rest) = depthFrom depth rest := by
  induction annotated with
  | nil =>
      rfl
  | cons entry annotated inductionHypothesis =>
      obtain ⟨unmarked, others⟩ := quiet.cons
      obtain ⟨c, isActive⟩ := entry
      cases isActive with
      | false =>
          exact inductionHypothesis others
      | true =>
          rw [List.cons_append, depthFrom, depthChar_unmarked (unmarked rfl)]
          exact inductionHypothesis others

private theorem piecesFrom_quiet
    {annotated : List (Char × Bool)}
    (quiet : Quiet annotated)
    (cur : List Char)
    (depth : Int)
    (rest : List (Char × Bool)) :
    piecesFrom cur depth (annotated ++ rest) =
      piecesFrom (cur ++ annotated.map Prod.fst) depth rest := by
  induction annotated generalizing cur with
  | nil =>
      simp
  | cons entry annotated inductionHypothesis =>
      obtain ⟨unmarked, others⟩ := quiet.cons
      obtain ⟨c, isActive⟩ := entry
      have moved := inductionHypothesis others (cur ++ [c])
      rw [List.append_assoc] at moved
      cases isActive with
      | false =>
          exact moved
      | true =>
          have notComma : ¬ (c = ',' ∧ depth = 0) := by
            rintro ⟨rfl, _⟩
            exact absurd (unmarked rfl) (by decide)
          rw [List.cons_append, piecesFrom, if_neg notComma,
            depthChar_unmarked (unmarked rfl)]
          exact moved

private theorem uncommented_quiet
    {annotated : List (Char × Bool)}
    (quiet : Quiet annotated)
    (rest : List (Char × Bool)) :
    uncommented (annotated ++ rest) =
      annotated.map Prod.fst ++ uncommented rest := by
  induction annotated with
  | nil =>
      rfl
  | cons entry annotated inductionHypothesis =>
      obtain ⟨unmarked, others⟩ := quiet.cons
      obtain ⟨c, isActive⟩ := entry
      have notComment : ¬ (isActive = true ∧ c = '#') := by
        rintro ⟨rfl, rfl⟩
        exact absurd (unmarked rfl) (by decide)
      rw [List.cons_append, uncommented, if_neg notComment,
        inductionHypothesis others]
      rfl

private theorem net_quiet
    {annotated : List (Char × Bool)}
    (quiet : Quiet annotated) :
    net annotated = 0 := by
  induction annotated with
  | nil =>
      rfl
  | cons entry annotated inductionHypothesis =>
      obtain ⟨unmarked, others⟩ := quiet.cons
      obtain ⟨c, isActive⟩ := entry
      rw [net_cons, inductionHypothesis others]
      cases isActive with
      | false =>
          simp [bracket]
      | true =>
          have plain := unmarked rfl
          simp only [isMark, Bool.or_eq_false_iff,
            decide_eq_false_iff_not] at plain
          simp [bracket, plain]

private theorem isBlank_whitespace
    {c : Char}
    (blank : isBlank c = true) :
    isWhitespace c = true := by
  simp only [isBlank, Bool.or_eq_true, decide_eq_true_eq] at blank
  rcases blank with rfl | rfl <;> decide

private theorem Gap.unquoted (g : Gap) : ∀ c ∈ g.text, c ≠ '"' ∧ c ≠ '\'' := by
  intro c member
  have blank := g.blank c member
  simp only [isBlank, Bool.or_eq_true, decide_eq_true_eq] at blank
  rcases blank with rfl | rfl <;> decide

private theorem Gap.closed
    (g : Gap)
    (rest : List Char) :
    annotate .outside (g.text ++ rest) =
      annotate .outside g.text ++ annotate .outside rest := by
  rw [annotate_unquoted g.unquoted, annotate_unquoted_nil g.unquoted]

private theorem Gap.quiet (g : Gap) : Quiet (annotate .outside g.text) := by
  rw [annotate_unquoted_nil g.unquoted]
  intro c member
  obtain ⟨d, inGap, same⟩ := List.mem_map.mp member
  obtain ⟨rfl, _⟩ := Prod.mk.inj same
  have blank := g.blank d inGap
  simp only [isBlank, Bool.or_eq_true, decide_eq_true_eq] at blank
  rcases blank with rfl | rfl <;> decide

/-! ## The annotation of cells -/

theorem annotate_active
    {c : Char}
    (noQuote : c ≠ '"' ∧ c ≠ '\'')
    (rest : List Char) :
    annotate .outside (c :: rest) = (c, true) :: annotate .outside rest := by
  have single : ∀ d ∈ [c], d ≠ '"' ∧ d ≠ '\'' := by
    simpa using noQuote
  exact annotate_unquoted single rest

/-- The quoting is closed after every cell. -/
theorem Cell.closed
    (cell : Cell)
    (rest : List Char) :
    annotate .outside (cell.text ++ rest) =
      annotate .outside cell.text ++ annotate .outside rest := by
  match cell with
  | .gap g => exact g.closed rest
  | .token (.atom a) => exact a.closed rest
  | .token .opening => exact annotate_active (by decide) rest
  | .token .closing => exact annotate_active (by decide) rest
  | .token .comma => exact annotate_active (by decide) rest

theorem annotate_cells
    (cells : List Cell)
    (rest : List Char) :
    annotate .outside (cellsText cells ++ rest) =
      annotate .outside (cellsText cells) ++ annotate .outside rest := by
  induction cells with
  | nil =>
      rfl
  | cons cell cells inductionHypothesis =>
      rw [cellsText_cons, List.append_assoc, cell.closed, cell.closed,
        inductionHypothesis, List.append_assoc]

/-! ## Levels -/

/-- What a token adds to the number of open brackets. -/
def Token.weight : Token → Int
  | opening => 1
  | closing => -1
  | comma => 0
  | atom _ => 0

/-- The number of brackets that are open after the tokens. -/
def level : List Token → Int
  | [] => 0
  | t :: ts => t.weight + level ts

/-- The largest number of brackets that are open at a time. -/
def peak : List Token → Int
  | [] => 0
  | t :: ts => max 0 (t.weight + peak ts)

/-- The smallest number of brackets that are open at a time. -/
def low : List Token → Int
  | [] => 0
  | t :: ts => min 0 (t.weight + low ts)

/-- Every comma stands inside brackets, if so many are open before. -/
def Sheltered : Int → List Token → Prop
  | _, [] => True
  | depth, t :: ts =>
      (t.text = [','] → depth ≠ 0) ∧ Sheltered (depth + t.weight) ts

@[simp] theorem level_append (front back : List Token) :
    level (front ++ back) = level front + level back := by
  induction front with
  | nil =>
      simp [level]
  | cons t front inductionHypothesis =>
      simp only [List.cons_append, level, inductionHypothesis]
      omega

theorem peak_append (front back : List Token) :
    peak (front ++ back) = max (peak front) (level front + peak back) := by
  have nonneg (ts : List Token) : 0 ≤ peak ts := by
    cases ts with
    | nil => exact Int.le_refl 0
    | cons t ts => exact Int.le_max_left _ _
  induction front with
  | nil =>
      have := nonneg back
      simp only [List.nil_append, peak, level]
      omega
  | cons t front inductionHypothesis =>
      simp only [List.cons_append, peak, level, inductionHypothesis]
      omega

theorem low_append (front back : List Token) :
    low (front ++ back) = min (low front) (level front + low back) := by
  have nonpos (ts : List Token) : low ts ≤ 0 := by
    cases ts with
    | nil => exact Int.le_refl 0
    | cons t ts => exact Int.min_le_left _ _
  induction front with
  | nil =>
      have := nonpos back
      simp only [List.nil_append, low, level]
      omega
  | cons t front inductionHypothesis =>
      simp only [List.cons_append, low, level, inductionHypothesis]
      omega

private theorem sheltered_append
    (depth : Int)
    (front back : List Token) :
    Sheltered depth (front ++ back) ↔
      Sheltered depth front ∧ Sheltered (depth + level front) back := by
  induction front generalizing depth with
  | nil =>
      simp [Sheltered, level]
  | cons t front inductionHypothesis =>
      simp only [List.cons_append, Sheltered, level, inductionHypothesis,
        and_assoc, Int.add_assoc]

/-- The depth stays an `i32` while the tokens are passed. -/
structure Fits (depth : Int) (ts : List Token) : Prop where
  above : -2 ^ 31 ≤ depth + low ts
  below : depth + peak ts < 2 ^ 31

private theorem Fits.cons
    {depth : Int}
    {t : Token}
    {ts : List Token}
    (fits : Fits depth (t :: ts)) :
    InI32 (depth + t.weight) ∧ Fits (depth + t.weight) ts := by
  obtain ⟨above, below⟩ := fits
  have lowest : low ts ≤ 0 := by
    cases ts with
    | nil => exact Int.le_refl 0
    | cons t ts => exact Int.min_le_left _ _
  have highest : 0 ≤ peak ts := by
    cases ts with
    | nil => exact Int.le_refl 0
    | cons t ts => exact Int.le_max_left _ _
  simp only [low, peak] at above below
  refine ⟨⟨?_, ?_⟩, ⟨?_, ?_⟩⟩ <;> omega

private theorem depthChar_opening
    {depth : Int}
    (inside : InI32 (depth + 1)) :
    depthChar depth '[' = .ok (depth + 1) := by
  unfold InI32 at inside
  rw [depthChar, if_pos rfl, addI32, if_pos inside]

private theorem depthChar_closing
    {depth : Int}
    (inside : InI32 (depth + -1)) :
    depthChar depth ']' = .ok (depth + -1) := by
  unfold InI32 at inside
  rw [depthChar, if_neg (by decide), if_pos rfl, addI32, if_pos inside]

/-! ## The scanners on cells -/

/-- The brackets of a text made of cells are counted. -/
theorem depthFrom_cells
    {cells : List Cell}
    {depth : Int}
    (fits : Fits depth (tokensOf cells))
    (rest : List (Char × Bool)) :
    depthFrom depth (annotate .outside (cellsText cells) ++ rest) =
      depthFrom (depth + level (tokensOf cells)) rest := by
  induction cells generalizing depth with
  | nil =>
      simp [annotate, level]
  | cons cell cells inductionHypothesis =>
      rw [cellsText_cons, cell.closed, List.append_assoc]
      cases cell with
      | gap g =>
          rw [Cell.text, depthFrom_quiet g.quiet]
          exact inductionHypothesis fits
      | token t =>
          obtain ⟨inside, further⟩ := fits.cons
          have moved : depth + level (tokensOf (.token t :: cells)) =
              depth + t.weight + level (tokensOf cells) := by
            simp [level, Int.add_assoc]
          rw [moved, ← inductionHypothesis further]
          cases t with
          | atom a =>
              rw [Cell.text, Token.text, depthFrom_quiet a.quiet,
                Token.weight, Int.add_zero]
          | opening =>
              rw [Cell.text, Token.text, annotate_active (by decide)]
              simp only [annotate, List.cons_append, List.nil_append,
                depthFrom]
              rw [depthChar_opening inside]
              rfl
          | closing =>
              rw [Cell.text, Token.text, annotate_active (by decide)]
              simp only [annotate, List.cons_append, List.nil_append,
                depthFrom]
              rw [depthChar_closing inside]
              rfl
          | comma =>
              rw [Cell.text, Token.text, annotate_active (by decide),
                Token.weight, Int.add_zero]
              rfl

/-- A text made of cells is not cut where all commas are sheltered. -/
theorem piecesFrom_cells
    {cells : List Cell}
    {depth : Int}
    (fits : Fits depth (tokensOf cells))
    (sheltered : Sheltered depth (tokensOf cells))
    (cur : List Char)
    (rest : List (Char × Bool)) :
    piecesFrom cur depth (annotate .outside (cellsText cells) ++ rest) =
      piecesFrom (cur ++ cellsText cells)
        (depth + level (tokensOf cells)) rest := by
  induction cells generalizing depth cur with
  | nil =>
      simp [annotate, level]
  | cons cell cells inductionHypothesis =>
      rw [cellsText_cons, cell.closed, List.append_assoc]
      cases cell with
      | gap g =>
          rw [Cell.text, piecesFrom_quiet g.quiet, annotate_chars,
            ← List.append_assoc]
          exact inductionHypothesis fits sheltered _
      | token t =>
          obtain ⟨inside, further⟩ := fits.cons
          have moved : depth + level (tokensOf (.token t :: cells)) =
              depth + t.weight + level (tokensOf cells) := by
            simp [level, Int.add_assoc]
          rw [moved, ← List.append_assoc cur,
            ← inductionHypothesis further sheltered.2]
          cases t with
          | atom a =>
              rw [Cell.text, Token.text, piecesFrom_quiet a.quiet,
                annotate_chars, Token.weight, Int.add_zero]
          | opening =>
              rw [Cell.text, Token.text, annotate_active (by decide)]
              simp only [annotate, List.cons_append, List.nil_append,
                piecesFrom]
              rw [if_neg (by simp), depthChar_opening inside]
              rfl
          | closing =>
              rw [Cell.text, Token.text, annotate_active (by decide)]
              simp only [annotate, List.cons_append, List.nil_append,
                piecesFrom]
              rw [if_neg (by simp), depthChar_closing inside]
              rfl
          | comma =>
              have nested : depth ≠ 0 := sheltered.1 rfl
              rw [Cell.text, Token.text, annotate_active (by decide),
                Token.weight, Int.add_zero]
              simp only [annotate, List.cons_append, List.nil_append,
                piecesFrom]
              rw [if_neg (fun both => nested both.2)]
              rfl

/-- A text made of cells holds no comment. -/
theorem uncommented_cells
    (cells : List Cell)
    (rest : List (Char × Bool)) :
    uncommented (annotate .outside (cellsText cells) ++ rest) =
      cellsText cells ++ uncommented rest := by
  induction cells with
  | nil =>
      rfl
  | cons cell cells inductionHypothesis =>
      rw [cellsText_cons, cell.closed, List.append_assoc, List.append_assoc,
        ← inductionHypothesis]
      cases cell with
      | gap g =>
          rw [Cell.text, uncommented_quiet g.quiet, annotate_chars]
      | token t =>
          cases t with
          | atom a =>
              rw [Cell.text, Token.text, uncommented_quiet a.quiet,
                annotate_chars]
          | opening => rfl
          | closing => rfl
          | comma => rfl

/-- Counting brackets and counting tokens is the same. -/
theorem net_cells (cells : List Cell) :
    net (annotate .outside (cellsText cells)) = level (tokensOf cells) := by
  have append (front back : List (Char × Bool)) :
      net (front ++ back) = net front + net back := by
    simp [net]
  induction cells with
  | nil =>
      rfl
  | cons cell cells inductionHypothesis =>
      rw [cellsText_cons, cell.closed, append, inductionHypothesis]
      cases cell with
      | gap g =>
          rw [Cell.text, net_quiet g.quiet, tokensOf_gap, Int.zero_add]
      | token t =>
          cases t with
          | atom a =>
              rw [Cell.text, Token.text, net_quiet a.quiet]
              rfl
          | opening => rfl
          | closing => rfl
          | comma => rfl

/-- Where the tokens go deeper than an `i32` counts, so does the text. -/
theorem overdeep_of_peak
    {cells : List Cell}
    (deep : 2 ^ 31 ≤ peak (tokensOf cells))
    (rest : List Char) :
    Overdeep (cellsText cells ++ rest) := by
  have reached (cells : List Cell) : ∃ front back, cells = front ++ back ∧
      level (tokensOf front) = peak (tokensOf cells) := by
    induction cells with
    | nil =>
        exact ⟨[], [], rfl, rfl⟩
    | cons cell cells inductionHypothesis =>
        obtain ⟨front, back, rfl, same⟩ := inductionHypothesis
        cases cell with
        | gap g =>
            exact ⟨.gap g :: front, back, rfl, same⟩
        | token t =>
            simp only [tokensOf_token, peak]
            rcases Int.le_total 0 (t.weight + peak (tokensOf (front ++ back)))
              with up | down
            · refine ⟨.token t :: front, back, rfl, ?_⟩
              rw [Int.max_eq_right up, ← same]
              rfl
            · refine ⟨[], .token t :: (front ++ back), rfl, ?_⟩
              rw [Int.max_eq_left down]
              rfl
  obtain ⟨front, back, rfl, same⟩ := reached cells
  refine ⟨annotate .outside (cellsText front),
    annotate .outside (cellsText back ++ rest), ?_, ?_⟩
  · rw [cellsText_append, List.append_assoc, annotate_cells]
  · rw [net_cells, same, Int.zero_add]
    rintro ⟨_, below⟩
    exact Int.not_lt.mpr deep below

/-! ## The tokens of a value -/

mutual

/-- How deep the arrays of a value are nested. -/
def nesting : Json → Nat
  | .arr items => nestingAll items + 1
  | _ => 0

/-- How deep the arrays of a list of values are nested. -/
def nestingAll : List Json → Nat
  | [] => 0
  | item :: items => max (nesting item) (nestingAll items)

end

section Spelling

variable (scalar : Json → List Char → Prop)

mutual

/-- The tokens that a value is written with. -/
inductive Spells : Json → List Token → Prop where
  | scalar {v : Json} {a : Atom}
      (reads : scalar v a.text) :
      Spells v [.atom a]
  | arr {vs : List Json} {ts : List Token}
      (items : Items vs ts) :
      Spells (.arr vs) (.opening :: (ts ++ [.closing]))

/-- The tokens between the brackets of an array.  After the last item a comma
may stand. -/
inductive Items : List Json → List Token → Prop where
  | nil : Items [] []
  | last {v : Json} {ts : List Token}
      (item : Spells v ts) :
      Items [v] ts
  | cons {v : Json} {vs : List Json} {ts later : List Token}
      (item : Spells v ts)
      (others : Items vs later) :
      Items (v :: vs) (ts ++ .comma :: later)

end

/-- Brackets that match, nested so deep. -/
structure Balanced (depth : Nat) (outside : Int) (ts : List Token) : Prop where
  level : level ts = 0
  peak : peak ts = depth
  low : low ts = 0
  sheltered : ∀ before, outside ≤ before → Sheltered before ts

private theorem Balanced.atom (a : Atom) : Balanced 0 0 [.atom a] where
  level := rfl
  peak := rfl
  low := rfl
  sheltered := by
    intro before _
    refine ⟨?_, trivial⟩
    intro comma
    have quiet := a.quiet
    rw [show a.text = [','] from comma] at quiet
    exact absurd (quiet ',' (by decide)) (by decide)

private theorem Balanced.array
    {depth : Nat}
    {ts : List Token}
    (inner : Balanced depth 1 ts) :
    Balanced (depth + 1) 0 (.opening :: (ts ++ [.closing])) where
  level := by
    simp [Toml.level, inner.level, Token.weight]
  peak := by
    simp only [Toml.peak, peak_append, inner.level, inner.peak, Token.weight]
    omega
  low := by
    simp only [Toml.low, low_append, inner.level, inner.low, Token.weight]
    omega
  sheltered := by
    intro before nonneg
    refine ⟨by simp [Token.text], ?_⟩
    rw [sheltered_append]
    refine ⟨inner.sheltered _ ?_, by simp [Token.text], trivial⟩
    rw [Token.weight]
    omega

private theorem Balanced.none (outside : Int) : Balanced 0 outside [] where
  level := rfl
  peak := rfl
  low := rfl
  sheltered := fun _ _ => trivial

private theorem Balanced.inside
    {depth : Nat}
    {ts : List Token}
    (item : Balanced depth 0 ts) :
    Balanced depth 1 ts where
  level := item.level
  peak := item.peak
  low := item.low
  sheltered := fun before positive =>
    item.sheltered before (by omega)

private theorem Balanced.cons
    {first more : Nat}
    {ts later : List Token}
    (item : Balanced first 0 ts)
    (others : Balanced more 1 later) :
    Balanced (max first more) 1 (ts ++ .comma :: later) where
  level := by
    simp [Toml.level, item.level, others.level, Token.weight]
  peak := by
    simp only [Toml.peak, peak_append, item.level, item.peak, others.peak,
      Token.weight]
    omega
  low := by
    simp only [Toml.low, low_append, item.level, item.low, others.low,
      Token.weight]
    omega
  sheltered := by
    intro before positive
    rw [sheltered_append, item.level]
    refine ⟨item.sheltered before (by omega), ?_, ?_⟩
    · intro _
      omega
    · rw [Token.weight]
      exact others.sheltered _ (by omega)

variable {scalar}

mutual

/-- The brackets of a value match. -/
theorem Spells.balanced
    (leaf : ∀ v text, scalar v text → nesting v = 0) :
    ∀ {v : Json} {ts : List Token},
      Spells scalar v ts → Balanced (nesting v) 0 ts
  | v, _, .scalar (a := a) reads => by
      rw [leaf v a.text reads]
      exact .atom a
  | _, _, .arr items => by
      rw [nesting]
      exact .array (items.balanced leaf)

private theorem Items.balanced
    (leaf : ∀ v text, scalar v text → nesting v = 0) :
    ∀ {vs : List Json} {ts : List Token},
      Items scalar vs ts → Balanced (nestingAll vs) 1 ts
  | _, _, .nil => .none 1
  | _, _, .last item => by
      have balanced := (item.balanced leaf).inside
      simpa [nestingAll] using balanced
  | _, _, .cons item others => by
      rw [nestingAll]
      exact .cons (item.balanced leaf) (others.balanced leaf)

end

end Spelling

/-! ## Trimming -/

/-- White space around a text that has none at its ends. -/
theorem trimChars_margins
    {front middle back : List Char}
    (before : ∀ c ∈ front, isWhitespace c = true)
    (after : ∀ c ∈ back, isWhitespace c = true)
    (starts : ∃ c rest, middle = c :: rest ∧ isWhitespace c = false)
    (ends : ∃ rest c, middle = rest ++ [c] ∧ isWhitespace c = false) :
    trimChars (front ++ (middle ++ back)) = middle := by
  obtain ⟨first, rest, shape, firstStays⟩ := starts
  obtain ⟨rest', last, shape', lastStays⟩ := ends
  have left : (front ++ (middle ++ back)).dropWhile isWhitespace =
      middle ++ back := by
    rw [List.dropWhile_append_of_pos before, shape]
    simp [firstStays]
  have right : (middle ++ back).reverse.dropWhile isWhitespace =
      middle.reverse := by
    rw [List.reverse_append, List.dropWhile_append_of_pos, shape']
    · simp [lastStays]
    · intro c member
      exact after c (List.mem_reverse.mp member)
  rw [trimChars, left, right, List.reverse_reverse]

theorem trimChars_blank
    {cs : List Char}
    (blank : ∀ c ∈ cs, isWhitespace c = true) :
    trimChars cs = [] := by
  rw [trimChars, List.dropWhile_eq_nil_iff.mpr blank]
  rfl

/-- Cells without tokens are blanks. -/
theorem blank_cells
    {cells : List Cell}
    (none : tokensOf cells = []) :
    ∀ c ∈ cellsText cells, isBlank c = true := by
  induction cells with
  | nil =>
      simp
  | cons cell cells inductionHypothesis =>
      cases cell with
      | token t =>
          cases none
      | gap g =>
          intro c member
          rw [cellsText_cons] at member
          rcases List.mem_append.mp member with here | later
          · exact g.blank c here
          · exact inductionHypothesis none c later

theorem white_cells
    {cells : List Cell}
    (none : tokensOf cells = []) :
    ∀ c ∈ cellsText cells, isWhitespace c = true :=
  fun c member => isBlank_whitespace (blank_cells none c member)

/-- Where the tokens of a text can be parted, so can its cells. -/
theorem cells_split
    {cells : List Cell}
    {front back : List Token}
    {t : Token}
    (shape : tokensOf cells = front ++ t :: back) :
    ∃ before after, cells = before ++ .token t :: after ∧
      tokensOf before = front ∧ tokensOf after = back := by
  induction cells generalizing front with
  | nil =>
      simp at shape
  | cons cell cells inductionHypothesis =>
      cases cell with
      | gap g =>
          obtain ⟨before, after, rfl, left, right⟩ :=
            inductionHypothesis shape
          exact ⟨.gap g :: before, after, rfl, left, right⟩
      | token first =>
          cases front with
          | nil =>
              obtain ⟨rfl, rfl⟩ := List.cons.inj shape
              exact ⟨[], cells, rfl, rfl, rfl⟩
          | cons other front =>
              obtain ⟨rfl, rest⟩ := List.cons.inj shape
              obtain ⟨before, after, rfl, left, right⟩ :=
                inductionHypothesis rest
              exact ⟨.token first :: before, after, rfl, by simp [left],
                right⟩

theorem cells_first
    {cells : List Cell}
    {back : List Token}
    {t : Token}
    (shape : tokensOf cells = t :: back) :
    ∃ before after, cells = before ++ .token t :: after ∧
      tokensOf before = [] ∧ tokensOf after = back :=
  cells_split (show tokensOf cells = [] ++ t :: back from shape)

/-- A token is not blank at its ends. -/
theorem Token.starts (t : Token) :
    ∃ c rest, t.text = c :: rest ∧ isWhitespace c = false := by
  match t with
  | .atom a => exact a.starts
  | .opening => exact ⟨'[', [], rfl, by decide⟩
  | .closing => exact ⟨']', [], rfl, by decide⟩
  | .comma => exact ⟨',', [], rfl, by decide⟩

private theorem Token.ends (t : Token) :
    ∃ front c, t.text = front ++ [c] ∧ isWhitespace c = false := by
  match t with
  | .atom a => exact a.ends
  | .opening => exact ⟨[], '[', rfl, by decide⟩
  | .closing => exact ⟨[], ']', rfl, by decide⟩
  | .comma => exact ⟨[], ',', rfl, by decide⟩

/-- Trimming cells from one token on to another. -/
theorem trimChars_between
    {before middle after : List Cell}
    {first last : Token}
    (front : tokensOf before = [])
    (back : tokensOf after = []) :
    trimChars (cellsText (before ++ .token first ::
        (middle ++ .token last :: after))) =
      cellsText (.token first :: (middle ++ [.token last])) := by
  have shape : cellsText (before ++ .token first ::
        (middle ++ .token last :: after)) =
      cellsText before ++
        (cellsText (.token first :: (middle ++ [.token last])) ++
          cellsText after) := by
    simp
  obtain ⟨c, rest, starts, firstStays⟩ := first.starts
  obtain ⟨rest', d, ends, lastStays⟩ := last.ends
  rw [shape]
  refine trimChars_margins (white_cells front) (white_cells back) ?_ ?_
  · refine ⟨c, rest ++ cellsText (middle ++ [.token last]), ?_, firstStays⟩
    simp [Cell.text, starts]
  · refine ⟨cellsText (.token first :: middle) ++ rest', d, ?_, lastStays⟩
    simp [Cell.text, ends]

theorem trimChars_token
    {before after : List Cell}
    {t : Token}
    (front : tokensOf before = [])
    (back : tokensOf after = []) :
    trimChars (cellsText (before ++ .token t :: after)) = t.text := by
  rw [cellsText_append, cellsText_cons]
  exact trimChars_margins (white_cells front) (white_cells back) t.starts
    t.ends

/-! ## Cutting an array into its items -/

section Reading

variable {scalar : Json → List Char → Prop}

/-- The pieces of an array and the values that they spell; the last piece may
be blank. -/
inductive Segments (scalar : Json → List Char → Prop) :
    List Json → List (List Cell) → Prop where
  | blank {segment : List Cell}
      (none : tokensOf segment = []) :
      Segments scalar [] [segment]
  | last {v : Json} {segment : List Cell}
      (item : Spells scalar v (tokensOf segment)) :
      Segments scalar [v] [segment]
  | cons {v : Json} {vs : List Json} {segment : List Cell}
      {segments : List (List Cell)}
      (item : Spells scalar v (tokensOf segment))
      (others : Segments scalar vs segments) :
      Segments scalar (v :: vs) (segment :: segments)

private theorem Balanced.fits
    {depth : Nat}
    {outside before : Int}
    {ts : List Token}
    (balanced : Balanced depth outside ts)
    (nonneg : 0 ≤ before)
    (shallow : before + depth < 2 ^ 31) :
    Fits before ts where
  above := by
    rw [balanced.low]
    omega
  below := by
    rw [balanced.peak]
    exact shallow

/-- One item is passed as a whole. -/
theorem piecesFrom_item
    {cells : List Cell}
    {depth : Nat}
    (balanced : Balanced depth 0 (tokensOf cells))
    (shallow : (depth : Int) < 2 ^ 31)
    (cur : List Char)
    (rest : List Char) :
    piecesFrom cur 0 (annotate .outside (cellsText cells ++ rest)) =
      piecesFrom (cur ++ cellsText cells) 0 (annotate .outside rest) := by
  have fits : Fits 0 (tokensOf cells) :=
    balanced.fits (Int.le_refl 0) (by omega)
  rw [annotate_cells,
    piecesFrom_cells fits (balanced.sheltered 0 (Int.le_refl 0)),
    balanced.level, Int.add_zero]

/-- The last item of an array. -/
theorem piecesFrom_last
    {cells : List Cell}
    {depth : Nat}
    (balanced : Balanced depth 0 (tokensOf cells))
    (shallow : (depth : Int) < 2 ^ 31) :
    piecesFrom [] 0 (annotate .outside (cellsText cells)) =
      .ok [cellsText cells] := by
  have passed := piecesFrom_item balanced shallow [] []
  simpa [annotate, piecesFrom] using passed

/-- The commas between the items are where the text is cut. -/
theorem Items.pieces
    (leaf : ∀ v text, scalar v text → nesting v = 0)
    {vs : List Json}
    {ts : List Token}
    (items : Items scalar vs ts)
    (shallow : (nestingAll vs : Int) < 2 ^ 31)
    {cells : List Cell}
    (spelled : tokensOf cells = ts) :
    ∃ segments,
      piecesFrom [] 0 (annotate .outside (cellsText cells)) =
        .ok (segments.map cellsText) ∧
      Segments scalar vs segments := by
  induction vs generalizing ts cells with
  | nil =>
      cases items
      have blank : Balanced 0 0 (tokensOf cells) := by
        rw [spelled]
        exact .none 0
      exact ⟨[cells], piecesFrom_last blank (by decide), .blank spelled⟩
  | cons v vs inductionHypothesis =>
      simp only [nestingAll] at shallow
      cases items with
      | last item =>
          have balanced : Balanced (nesting v) 0 (tokensOf cells) := by
            rw [spelled]
            exact item.balanced leaf
          rw [← spelled] at item
          exact ⟨[cells], piecesFrom_last balanced (by omega), .last item⟩
      | cons item others =>
          obtain ⟨first, later, rfl, front, back⟩ := cells_split spelled
          have balanced : Balanced (nesting v) 0 (tokensOf first) := by
            rw [front]
            exact item.balanced leaf
          obtain ⟨segments, cut, spelling⟩ :=
            inductionHypothesis others (by omega) back
          rw [← front] at item
          refine ⟨first :: segments, ?_, .cons item spelling⟩
          rw [cellsText_append, cellsText_cons,
            piecesFrom_item balanced (by omega), Cell.text, Token.text,
            List.singleton_append, annotate_active (by decide), piecesFrom,
            if_pos ⟨rfl, rfl⟩, cut]
          rfl

/-- The text of an array without the blanks around it. -/
theorem trimChars_array
    {cells : List Cell}
    {ts : List Token}
    (spelled : tokensOf cells = .opening :: (ts ++ [.closing])) :
    ∃ inner, trimChars (cellsText cells) = '[' :: (cellsText inner ++ [']']) ∧
      tokensOf inner = ts := by
  obtain ⟨before, rest, rfl, front, tail⟩ := cells_first spelled
  obtain ⟨inner, after, rfl, middle, back⟩ := cells_split tail
  refine ⟨inner, ?_, middle⟩
  rw [trimChars_between front back]
  simp [Cell.text, Token.text]

/-- The text of a scalar without the blanks around it. -/
theorem trimChars_scalar
    {cells : List Cell}
    {a : Atom}
    (spelled : tokensOf cells = [.atom a]) :
    trimChars (cellsText cells) = a.text := by
  obtain ⟨before, after, rfl, front, back⟩ := cells_first spelled
  exact trimChars_token front back

/-- A value is not blank. -/
theorem Spells.visible
    {v : Json}
    {cells : List Cell}
    (spelled : Spells scalar v (tokensOf cells)) :
    trimChars (cellsText cells) ≠ [] := by
  generalize shape : tokensOf cells = ts at spelled
  cases spelled with
  | @scalar _ a reads =>
      obtain ⟨c, rest, starts, _⟩ := a.starts
      rw [trimChars_scalar shape, starts]
      simp
  | arr items =>
      obtain ⟨inner, trimmed, _⟩ := trimChars_array shape
      rw [trimmed]
      simp

private theorem nesting_le_nestingAll
    {v : Json}
    {vs : List Json}
    (member : v ∈ vs) :
    nesting v ≤ nestingAll vs := by
  induction vs with
  | nil =>
      cases member
  | cons first vs inductionHypothesis =>
      simp only [nestingAll]
      rcases List.mem_cons.mp member with rfl | later
      · exact Nat.le_max_left _ _
      · exact (inductionHypothesis later).trans (Nat.le_max_right _ _)

variable [F64Ops]

/-- The items of an array are read one by one. -/
theorem Segments.read
    {vs : List Json}
    {segments : List (List Cell)}
    (spelling : Segments scalar vs segments)
    (read : ∀ v ∈ vs, ∀ segment, Spells scalar v (tokensOf segment) →
      readValue (trimChars (cellsText segment)) = .ok v) :
    (itemTexts (segments.map cellsText)).mapM readValue = .ok vs := by
  induction spelling with
  | blank none =>
      have empty := trimChars_blank (white_cells none)
      simp [itemTexts, empty, pure, Except.pure]
  | @last v segment item =>
      have shown := item.visible
      have value := read v (by simp) segment item
      simp [itemTexts, shown, value, pure, Except.pure, bind, Except.bind]
  | @cons v vs segment segments item others inductionHypothesis =>
      have shown := item.visible
      have value := read v List.mem_cons_self segment item
      have later := inductionHypothesis
        (fun other member => read other (List.mem_cons_of_mem v member))
      have split : itemTexts ((segment :: segments).map cellsText) =
          trimChars (cellsText segment) ::
            itemTexts (segments.map cellsText) := by
        simp [itemTexts, shown]
      rw [split, List.mapM_cons, value, later]
      rfl

/-- A value that is spelled in tokens is read, however it is spaced. -/
theorem Spells.read
    (leaf : ∀ v text, scalar v text → nesting v = 0)
    (reading : ∀ v text, scalar v text → readValue text = .ok v)
    {v : Json}
    (shallow : (nesting v : Int) < 2 ^ 31)
    {cells : List Cell}
    (spelled : Spells scalar v (tokensOf cells)) :
    readValue (trimChars (cellsText cells)) = .ok v := by
  induction depth : nesting v using Nat.strongRecOn generalizing v cells with
  | ind depth inductionHypothesis =>
      generalize shape : tokensOf cells = ts at spelled
      cases spelled with
      | @scalar _ a reads =>
          rw [trimChars_scalar shape]
          exact reading v a.text reads
      | @arr vs ts items =>
          obtain ⟨inner, trimmed, middle⟩ := trimChars_array shape
          rw [nesting] at depth shallow
          obtain ⟨segments, cut, spelling⟩ :=
            items.pieces leaf (by omega) middle
          have values := spelling.read (fun v member segment item =>
            have smaller := nesting_le_nestingAll member
            inductionHypothesis (nesting v) (by omega) (by omega) item rfl)
          rw [trimmed, readValue_array, readArray, splitTopLevel_eq, cut]
          simp only [bind, Except.bind, values]
          rfl

end Reading

end Toml

end Myrun
