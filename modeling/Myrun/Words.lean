import Myrun.Cgroup

namespace Myrun

/-!
# Lines and words

`lines` cuts a text into its lines, `split_whitespace` cuts a line into its
words.  White space at any place cuts, so the words of a text are those of its
parts.
-/

/-! ## Lines -/

/-- A line break ends a line, whatever stands before it. -/
theorem linesFrom_append
    (text line rest : List Char) :
    linesFrom line (text ++ '\n' :: rest) =
      linesFrom line (text ++ ['\n']) ++ linesFrom [] rest := by
  induction text generalizing line with
  | nil =>
      simp [linesFrom]
  | cons c text inductionHypothesis =>
      simp only [List.cons_append, linesFrom]
      split
      · rw [inductionHypothesis, List.cons_append]
      · exact inductionHypothesis (c :: line)

/-- One line: at most a carriage return at its end is dropped. -/
theorem linesFrom_oneLine
    {cs : List Char}
    (noBreak : '\n' ∉ cs)
    (line : List Char) :
    ∃ text, linesFrom line (cs ++ ['\n']) = [text] ∧
      (text = line.reverse ++ cs ∨ text ++ ['\r'] = line.reverse ++ cs) := by
  induction cs generalizing line with
  | nil =>
      by_cases ended : line.head? = some '\r'
      · obtain ⟨rest, rfl⟩ := List.head?_eq_some_iff.mp ended
        exact ⟨rest.reverse, by simp [linesFrom], .inr (by simp)⟩
      · exact ⟨line.reverse, by simp [linesFrom, ended], .inl (by simp)⟩
  | cons c cs inductionHypothesis =>
      simp only [List.mem_cons, not_or] at noBreak
      obtain ⟨text, read, whole⟩ := inductionHypothesis noBreak.2 (c :: line)
      refine ⟨text, ?_, by simpa using whole⟩
      rw [List.cons_append, linesFrom, if_neg (Ne.symm noBreak.1), read]

/-- The lines of a text that ends each line are those lines. -/
theorem linesFrom_flatMap
    (rows : List (List Char))
    (proper : ∀ row ∈ rows, '\n' ∉ row ∧ row.getLast? ≠ some '\r') :
    linesFrom [] (rows.flatMap (· ++ ['\n'])) = rows := by
  have reads : ∀ (row done rest : List Char), '\n' ∉ row →
      (done.reverse ++ row).getLast? ≠ some '\r' →
      linesFrom done (row ++ '\n' :: rest) =
        (done.reverse ++ row) :: linesFrom [] rest := by
    intro row
    induction row with
    | nil =>
        intro done rest _ ended
        have notReturn : done.head? ≠ some '\r' := by
          simpa [List.getLast?_reverse] using ended
        simp [linesFrom, notReturn]
    | cons c row inductionHypothesis =>
        intro done rest oneLine ended
        have notBreak : c ≠ '\n' := fun same => oneLine (by simp [same])
        have rowOneLine : '\n' ∉ row :=
          fun member => oneLine (List.mem_cons_of_mem c member)
        have moved : (c :: done).reverse ++ row = done.reverse ++ c :: row := by
          simp
        rw [List.cons_append, linesFrom, if_neg notBreak,
          inductionHypothesis (c :: done) rest rowOneLine (moved ▸ ended), moved]
  induction rows with
  | nil =>
      rfl
  | cons row rows inductionHypothesis =>
      obtain ⟨oneLine, ended⟩ := proper row List.mem_cons_self
      have others := inductionHypothesis fun other member =>
        proper other (List.mem_cons_of_mem row member)
      have first := reads row [] (rows.flatMap (· ++ ['\n'])) oneLine ended
      simpa [others] using first

/-! ## Words -/

/-- A nonempty text without white space. -/
structure IsWord (cs : List Char) : Prop where
  nonempty : cs ≠ []
  solid : ∀ c ∈ cs, isWhitespace c = false

/-- The words of a text. -/
def words (cs : List Char) : List String :=
  splitWhitespaceChars [] cs

/-- What was read of a word belongs to what follows. -/
theorem splitWhitespaceChars_eq
    {word : List Char}
    (solid : ∀ c ∈ word, isWhitespace c = false)
    (cs : List Char) :
    splitWhitespaceChars word cs = words (word.reverse ++ cs) := by
  induction word generalizing cs with
  | nil =>
      rfl
  | cons c word inductionHypothesis =>
      have here := solid c List.mem_cons_self
      have before : ∀ d ∈ word, isWhitespace d = false :=
        fun d member => solid d (List.mem_cons_of_mem c member)
      have shift := inductionHypothesis before (c :: cs)
      rw [splitWhitespaceChars, here] at shift
      rw [List.reverse_cons, List.append_assoc, List.singleton_append, ← shift]
      rfl

/-- White space ends a word. -/
theorem splitWhitespaceChars_break
    {space : Char}
    (isSpace : isWhitespace space = true)
    (word front rest : List Char) :
    splitWhitespaceChars word (front ++ space :: rest) =
      splitWhitespaceChars word front ++ words rest := by
  induction front generalizing word with
  | nil =>
      cases word with
      | nil =>
          simp [splitWhitespaceChars, isSpace, words]
      | cons c word =>
          simp [splitWhitespaceChars, isSpace, words]
  | cons c front inductionHypothesis =>
      rw [List.cons_append, splitWhitespaceChars, splitWhitespaceChars]
      cases isWhitespace c with
      | false =>
          exact inductionHypothesis (c :: word)
      | true =>
          cases word with
          | nil =>
              exact inductionHypothesis []
          | cons d word =>
              simp [inductionHypothesis]

theorem words_break
    {space : Char}
    (isSpace : isWhitespace space = true)
    (front rest : List Char) :
    words (front ++ space :: rest) = words front ++ words rest :=
  splitWhitespaceChars_break isSpace [] front rest

@[simp] theorem words_nil : words [] = [] := rfl

/-- White space at the start is skipped. -/
theorem words_space
    {space : Char}
    (isSpace : isWhitespace space = true)
    (rest : List Char) :
    words (space :: rest) = words rest := by
  simpa using words_break isSpace [] rest

theorem words_of_word
    {cs : List Char}
    (word : IsWord cs) :
    words cs = [String.ofList cs] := by
  have solid : ∀ c ∈ cs.reverse, isWhitespace c = false :=
    fun c member => word.solid c (List.mem_reverse.mp member)
  have read := splitWhitespaceChars_eq solid []
  rw [List.reverse_reverse, List.append_nil] at read
  rw [← read, splitWhitespaceChars, List.reverse_reverse]
  simp [word.nonempty]

/-- A word up to the end of the text or up to white space. -/
theorem words_append
    {cs rest : List Char}
    (word : IsWord cs)
    (ends : ∀ c ∈ rest.head?, isWhitespace c = true) :
    words (cs ++ rest) = String.ofList cs :: words rest := by
  cases rest with
  | nil =>
      rw [List.append_nil]
      exact words_of_word word
  | cons c rest =>
      have isSpace : isWhitespace c = true := ends c rfl
      rw [words_break isSpace, words_of_word word, words_space isSpace]
      rfl

theorem words_blank
    {cs : List Char}
    (blank : ∀ c ∈ cs, isWhitespace c = true) :
    words cs = [] := by
  induction cs with
  | nil =>
      rfl
  | cons c cs inductionHypothesis =>
      rw [words_space (blank c List.mem_cons_self)]
      exact inductionHypothesis fun d member =>
        blank d (List.mem_cons_of_mem c member)

/-- Words behind one another, each with a space in front. -/
def spaced (tokens : List (List Char)) : List Char :=
  tokens.flatMap fun token => ' ' :: token

@[simp] theorem spaced_nil : spaced [] = [] := rfl

@[simp] theorem spaced_cons
    (token : List Char)
    (tokens : List (List Char)) :
    spaced (token :: tokens) = ' ' :: (token ++ spaced tokens) := by
  simp [spaced]

theorem words_spaced
    {tokens : List (List Char)}
    (areWords : ∀ token ∈ tokens, IsWord token)
    {rest : List Char}
    (ends : ∀ c ∈ rest.head?, isWhitespace c = true) :
    words (spaced tokens ++ rest) = tokens.map String.ofList ++ words rest := by
  induction tokens with
  | nil =>
      rfl
  | cons token tokens inductionHypothesis =>
      have word := areWords token List.mem_cons_self
      have others := inductionHypothesis fun other member =>
        areWords other (List.mem_cons_of_mem token member)
      have next : ∀ c ∈ (spaced tokens ++ rest).head?,
          isWhitespace c = true := by
        cases tokens with
        | nil =>
            exact ends
        | cons other tokens =>
            intro c first
            obtain rfl : ' ' = c := by
              simpa using first
            decide
      rw [spaced_cons, List.cons_append, words_space (by decide),
        List.append_assoc, words_append word next, others]
      rfl

end Myrun
