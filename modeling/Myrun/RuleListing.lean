import Myrun.ConfigValidate
import Myrun.PacketFilter

namespace Myrun

/-!
# Listed rules

`tagged_rules` of `src/runtime/nat.rs` works on the text that `iptables -S`
prints: it keeps the lines that contain the container's comment option, bare or
quoted, splits them into arguments and hands these to `iptables -D`.  This
module follows that text.

A printed line is a sequence of words, each bare or in double quotes with some
characters escaped by a backslash.  The main result says for which rule sets
the selected rules are exactly those of the container.
-/

/-! ## What `iptables -S` prints -/

/-- An argument of a listed rule.  A bare one has neither white space nor
double quotes; a quoted one is any text on one line. -/
inductive Word where
  | bare (text : List Char) (some : text ≠ [])
      (plain : ∀ c ∈ text, isWhitespace c = false ∧ c ≠ '"')
  | quoted (text : List Char) (oneLine : '\n' ∉ text)
  deriving DecidableEq

namespace Word

/-- The argument itself. -/
def text : Word → List Char
  | bare text _ _ => text
  | quoted text _ => text

/-- The argument as it is printed. -/
def printed (Q : Quoting) : Word → List Char
  | bare text _ _ => text
  | quoted text _ => Q.inQuotes text

/-- A bare argument. -/
def isBare : Word → Bool
  | bare .. => true
  | quoted .. => false

/-- A bare argument given by a string. -/
def ofBare (s : String) (some : s.toList ≠ [])
    (plain : ∀ c ∈ s.toList, isWhitespace c = false ∧ c ≠ '"') : Word :=
  .bare s.toList some plain

end Word

/-- The comment option. -/
def commentOption : List Char :=
  ['-', '-', 'c', 'o', 'm', 'm', 'e', 'n', 't']

/-- The command of a listed rule. -/
def appendCommand : Word :=
  .ofBare "-A" (by simp) (by simp [isWhitespace])

/-- The word before a comment. -/
def commentWord : Word :=
  .ofBare "--comment" (by simp) (by simp [isWhitespace])

/-- A listed rule: its chain, its comment if it has one, and its other
arguments before and after the comment.  The comment option occurs once, and
what follows a comment is another option. -/
structure ListedRule where
  chain : Word
  before : List Word
  comment : Option Word
  after : List Word
  chainBare : chain.isBare = true
  single : ∀ w ∈ chain :: (before ++ after), w.isBare = true →
    ¬ commentOption <:+ w.text
  option : ∀ w ∈ after.head?, ∃ rest, w.text = '-' :: rest ∨ w.text = '!' :: rest
  deriving DecidableEq

namespace ListedRule

/-- The words of the line. -/
def words (r : ListedRule) : List Word :=
  appendCommand :: r.chain :: (r.before ++
    ((r.comment.elim [] fun c => [commentWord, c]) ++ r.after))

/-- The line `iptables -S` prints. -/
def line (Q : Quoting) (r : ListedRule) : String :=
  String.ofList ([' '].intercalate (r.words.map (Word.printed Q)))

/-- The printed arguments: what `split_rule` makes of the line. -/
def args (Q : Quoting) (r : ListedRule) : List String :=
  splitRule (String.ofList ((r.line Q).toList.drop 3))

/-- The text of the comment. -/
def commentText (r : ListedRule) : Option String :=
  r.comment.map fun c => String.ofList c.text

end ListedRule

/-- A line of a listing that is not a rule: a policy or a chain. -/
structure Heading where
  text : List Char
  oneLine : '\n' ∉ text
  ended : text.getLast? ≠ some '\r'
  notRule : ¬ "-A ".toList <+: text

/-- The listing of a table. -/
def listing (Q : Quoting) (headings : List Heading) (rules : List ListedRule) :
    String :=
  String.ofList ((headings.map Heading.text ++
    rules.map fun r => (r.line Q).toList).flatMap (· ++ ['\n']))

/-! ## Searching in joined words -/

section Joined

variable {a b : List Char}

private theorem suffix_of_suffix_spaced
    (noSpace : ' ' ∉ a)
    {front back : List Char}
    (atEnd : a <:+ front ++ ' ' :: back) :
    a <:+ back := by
  have spaced : ' ' :: back <:+ front ++ ' ' :: back := List.suffix_append _ _
  rcases List.suffix_or_suffix_of_suffix atEnd spaced with short | long
  · rcases List.suffix_cons_iff.mp short with same | within
    · exact absurd (same ▸ List.mem_cons_self) noSpace
    · exact within
  · exact absurd (long.subset List.mem_cons_self) noSpace

private theorem prefix_of_prefix_spaced
    (noSpace : ' ' ∉ b)
    {front back : List Char}
    (atStart : b <+: front ++ ' ' :: back) :
    b <+: front := by
  have spaced : front ++ [' '] <+: front ++ ' ' :: back :=
    ⟨back, by simp⟩
  rcases List.prefix_or_prefix_of_prefix atStart spaced with short | long
  · rcases List.prefix_concat_iff.mp short with same | within
    · exact absurd (same ▸ by simp) noSpace
    · exact within
  · exact absurd (long.subset (by simp)) noSpace

theorem intercalate_cons_append
    (first second : List Char)
    (rest : List (List Char)) :
    [' '].intercalate (first :: second :: rest) =
      first ++ ' ' :: [' '].intercalate (second :: rest) := by
  simp [List.intercalate_cons_cons]

/-- The first of the joined words comes first. -/
theorem prefix_intercalate
    (first : List Char)
    (rest : List (List Char)) :
    ∃ more, [' '].intercalate (first :: rest) = first ++ more ∧
      (more = [] ∨ ∃ others, more = ' ' :: others) := by
  cases rest with
  | nil =>
      exact ⟨[], by simp, .inl rfl⟩
  | cons second rest =>
      exact ⟨_, intercalate_cons_append first second rest, .inr ⟨_, rfl⟩⟩

private theorem infix_intercalate_of_mem
    {word : List Char}
    {words : List (List Char)}
    (member : word ∈ words) :
    word <:+: [' '].intercalate words := by
  induction words with
  | nil =>
      cases member
  | cons first rest inductionHypothesis =>
      rcases List.mem_cons.mp member with rfl | later
      · obtain ⟨more, joined, -⟩ := prefix_intercalate word rest
        exact ⟨[], more, by simp [joined]⟩
      · cases rest with
        | nil =>
            cases later
        | cons second rest =>
            rw [intercalate_cons_append]
            exact (inductionHypothesis later).trans
              ((List.suffix_cons _ _).isInfix.trans
                (List.suffix_append _ _).isInfix)

private theorem infix_intercalate_of_pair
    {left right : List Char}
    {words : List (List Char)}
    (pair : [left, right] <:+: words) :
    left ++ ' ' :: right <:+: [' '].intercalate words := by
  obtain ⟨front, back, rfl⟩ := pair
  induction front with
  | nil =>
      obtain ⟨more, joined, -⟩ := prefix_intercalate right back
      exact ⟨[], more, by simp [joined]⟩
  | cons first front inductionHypothesis =>
      obtain ⟨second, rest, order⟩ :
          ∃ second rest, front ++ [left, right] ++ back = second :: rest := by
        cases front with
        | nil => exact ⟨left, right :: back, rfl⟩
        | cons second rest => exact ⟨second, _, rfl⟩
      rw [List.cons_append, List.cons_append, order, intercalate_cons_append,
        ← order]
      exact inductionHypothesis.trans
        ((List.suffix_cons _ _).isInfix.trans (List.suffix_append _ _).isInfix)

/-- A text with one space is found in joined words inside a word, or across
two neighbours. -/
theorem spaced_infix_intercalate
    (noSpaceLeft : ' ' ∉ a)
    (noSpaceRight : ' ' ∉ b)
    {words : List (List Char)}
    (found : a ++ ' ' :: b <:+: [' '].intercalate words) :
    (∃ word ∈ words, a ++ ' ' :: b <:+: word) ∨
      ∃ left right, [left, right] <:+: words ∧ a <:+ left ∧ b <+: right := by
  induction words with
  | nil =>
      have empty := List.infix_nil.mp found
      simp at empty
  | cons first rest inductionHypothesis =>
      cases rest with
      | nil =>
          exact .inl ⟨first, List.mem_cons_self, by simpa using found⟩
      | cons second rest =>
          rw [intercalate_cons_append] at found
          obtain ⟨front, back, occurrence⟩ := found
          have split : (front ++ a) ++ ' ' :: (b ++ back) =
              first ++ ' ' :: [' '].intercalate (second :: rest) := by
            simpa using occurrence
          have across : ∀ {joined : List Char},
              [' '].intercalate (second :: rest) = joined →
              front ++ a = first → joined = b ++ back →
              ∃ left right, [left, right] <:+: first :: second :: rest ∧
                a <:+ left ∧ b <+: right := by
            intro joined isJoined atFirst atSecond
            refine ⟨first, second, ⟨[], rest, rfl⟩, ⟨front, atFirst⟩, ?_⟩
            obtain ⟨more, made, ended⟩ := prefix_intercalate second rest
            have starts : b <+: second ++ more :=
              ⟨back, by rw [← made, isJoined, atSecond]⟩
            rcases ended with rfl | ⟨others, rfl⟩
            · simpa using starts
            · exact prefix_of_prefix_spaced noSpaceRight starts
          rcases List.append_eq_append_iff.mp split with
            ⟨between, isFirst, isRest⟩ | ⟨between, isFront, isRest⟩
          · -- the space lies in the first word, or right after it
            cases between with
            | nil =>
                simp only [List.append_nil, List.nil_append, List.cons.injEq,
                  true_and] at isFirst isRest
                exact .inr (across rfl isFirst.symm isRest.symm)
            | cons space between =>
                simp only [List.cons_append, List.cons.injEq] at isRest
                obtain ⟨rfl, isRest⟩ := isRest
                have starts : b <+: between :=
                  prefix_of_prefix_spaced noSpaceRight ⟨back, isRest⟩
                obtain ⟨more, rfl⟩ := starts
                exact .inl ⟨first, List.mem_cons_self, front, more, by
                  simp [isFirst]⟩
          · cases between with
            | nil =>
                simp only [List.append_nil, List.nil_append, List.cons.injEq,
                  true_and] at isFront isRest
                exact .inr (across rfl isFront isRest)
            | cons space between =>
                simp only [List.cons_append, List.cons.injEq] at isRest
                obtain ⟨rfl, isRest⟩ := isRest
                have ends : a <:+ between :=
                  suffix_of_suffix_spaced noSpaceLeft ⟨front, isFront⟩
                obtain ⟨more, rfl⟩ := ends
                have later : a ++ ' ' :: b <:+:
                    [' '].intercalate (second :: rest) :=
                  ⟨more, back, by simp [isRest]⟩
                rcases inductionHypothesis later with
                  ⟨word, member, inside⟩ | ⟨left, right, pair, ends, starts⟩
                · exact .inl ⟨word, List.mem_cons_of_mem first member, inside⟩
                · exact .inr ⟨left, right,
                    pair.trans (List.suffix_cons _ _).isInfix, ends, starts⟩

end Joined

/-! ## Searching in quoted texts -/

/-- A character that is printed as it is in quotes and is no backslash. -/
def Unescaped (c : Char) : Prop :=
  c ≠ '"' ∧ c ≠ '\\' ∧ c ≠ '\''

namespace Quoting

variable (Q : Quoting)

private theorem escapeChar_of_unescaped
    {c : Char}
    (plain : Unescaped c) :
    Q.escapeChar c = [c] := by
  have notEscaped : Q.escaped c = false := by
    by_contra escaped
    rcases Q.special c (by simpa using escaped) with rfl | rfl | rfl
    · exact plain.1 rfl
    · exact plain.2.1 rfl
    · exact plain.2.2 rfl
  simp [escapeChar, notEscaped]

/-- Printing a character in quotes starts with a backslash or prints it. -/
theorem escapeChar_cases
    (c : Char) :
    Q.escapeChar c = ['\\', c] ∧ ¬ Unescaped c ∨
      Q.escapeChar c = [c] ∧ c ≠ '"' := by
  by_cases escaped : Q.escaped c = true
  · refine .inl ⟨by simp [escapeChar, escaped], fun plain => ?_⟩
    rcases Q.special c escaped with rfl | rfl | rfl
    · exact plain.1 rfl
    · exact plain.2.1 rfl
    · exact plain.2.2 rfl
  · refine .inr ⟨by simp [escapeChar, escaped], ?_⟩
    rintro rfl
    exact escaped Q.quote

private theorem escape_of_unescaped
    {text : List Char}
    (plain : ∀ c ∈ text, Unescaped c) :
    Q.escape text = text := by
  induction text with
  | nil =>
      rfl
  | cons c text inductionHypothesis =>
      have rest : Q.escape text = text :=
        inductionHypothesis fun d member => plain d (List.mem_cons_of_mem c member)
      have first : Q.escapeChar c = [c] :=
        Q.escapeChar_of_unescaped (plain c List.mem_cons_self)
      simp only [escape, List.flatMap_cons, first] at rest ⊢
      rw [rest, List.singleton_append]

theorem escape_cons
    (c : Char)
    (text : List Char) :
    Q.escape (c :: text) = Q.escapeChar c ++ Q.escape text :=
  rfl

/-- A quoted text does not start with a double quote. -/
theorem escape_head
    {text rest : List Char} :
    Q.escape text ≠ '"' :: rest := by
  intro starts
  cases text with
  | nil =>
      cases starts
  | cons c text =>
      rw [escape_cons] at starts
      rcases Q.escapeChar_cases c with ⟨printed, -⟩ | ⟨printed, notQuote⟩
      · rw [printed] at starts
        simp at starts
      · rw [printed] at starts
        exact notQuote (List.cons.inj starts).1

/-- A double quote in a quoted text has a backslash before it. -/
theorem escape_quote
    {text front back : List Char}
    {c : Char}
    (occurs : Q.escape text = front ++ c :: '"' :: back) :
    c = '\\' := by
  induction text generalizing front with
  | nil =>
      have impossible : front ++ c :: '"' :: back = [] := occurs.symm
      simp at impossible
  | cons d text inductionHypothesis =>
      rw [escape_cons] at occurs
      rcases Q.escapeChar_cases d with ⟨printed, -⟩ | ⟨printed, -⟩
      · rw [printed] at occurs
        match front, occurs with
        | [], occurs =>
            simp only [List.cons_append, List.nil_append,
              List.cons.injEq] at occurs
            exact occurs.1.symm
        | [_], occurs =>
            simp only [List.cons_append, List.nil_append,
              List.cons.injEq] at occurs
            exact absurd occurs.2.2 Q.escape_head
        | _ :: _ :: front, occurs =>
            simp only [List.cons_append, List.nil_append,
              List.cons.injEq] at occurs
            exact inductionHypothesis occurs.2.2
      · rw [printed] at occurs
        match front, occurs with
        | [], occurs =>
            simp only [List.cons_append, List.nil_append,
              List.cons.injEq] at occurs
            exact absurd occurs.2 Q.escape_head
        | _ :: front, occurs =>
            simp only [List.cons_append, List.nil_append,
              List.cons.injEq] at occurs
            exact inductionHypothesis occurs.2

/-- In a quoted word no double quote stands between a space and a letter. -/
theorem no_space_quote
    (text : List Char) :
    ¬ [' ', '"', 'm'] <:+: '"' :: (Q.escape text ++ ['"']) := by
  intro found
  rcases List.infix_cons_iff.mp found with atStart | found
  · simp at atStart
  · rcases List.infix_concat_iff.mp found with atEnd | ⟨front, back, occurs⟩
    · rcases List.suffix_concat_iff.mp atEnd with empty | ⟨front, isEnd, -⟩
      · simp at empty
      · have last := congrArg List.getLast? isEnd
        simp at last
    · have backslash : ' ' = '\\' :=
        Q.escape_quote  (by
          simpa using occurs.symm)
      simp at backslash

private theorem escape_eq_nil
    {text : List Char}
    (empty : Q.escape text = []) :
    text = [] := by
  cases text with
  | nil =>
      rfl
  | cons c text =>
      rw [escape_cons] at empty
      rcases Q.escapeChar_cases c with ⟨printed, -⟩ | ⟨printed, -⟩
      · simp [printed] at empty
      · simp [printed] at empty

private theorem prefix_escape_iff
    {needle text : List Char}
    (plain : ∀ c ∈ needle, Unescaped c) :
    needle <+: Q.escape text ↔ needle <+: text := by
  induction needle generalizing text with
  | nil =>
      simp
  | cons c needle inductionHypothesis =>
      have first := plain c List.mem_cons_self
      have others := fun d member => plain d (List.mem_cons_of_mem c member)
      cases text with
      | nil =>
          simp [escape]
      | cons d text =>
          rw [escape_cons]
          rcases Q.escapeChar_cases d with ⟨printed, special⟩ | ⟨printed, -⟩
          · rw [printed, List.cons_append, List.cons_prefix_cons,
              List.cons_prefix_cons]
            constructor
            · rintro ⟨rfl, -⟩
              exact absurd rfl first.2.1
            · rintro ⟨rfl, -⟩
              exact absurd first special
          · rw [printed, List.singleton_append, List.cons_prefix_cons,
              List.cons_prefix_cons, inductionHypothesis others]

/-- A quoted word that starts with a plain text and the closing quote is that
text. -/
theorem text_of_closed
    {label text : List Char}
    (plain : ∀ c ∈ label, Unescaped c)
    (nonempty : label ≠ [])
    (closed : label ++ ['"'] <+: Q.escape text ++ ['"']) :
    text = label := by
  have same : Q.escape text = label := by
    rcases List.prefix_concat_iff.mp closed with same | ⟨back, inside⟩
    · exact (List.append_cancel_right same).symm
    · obtain ⟨front, last, rfl⟩ :=
        (List.eq_nil_or_concat' label).resolve_left nonempty
      have backslash : last = '\\' :=
        Q.escape_quote  (by
          simpa using inside.symm)
      exact absurd backslash (plain last (by simp)).2.1
  have starts : label <+: text :=
    (Q.prefix_escape_iff plain).mp (by rw [same])
  obtain ⟨more, rfl⟩ := starts
  have noMore : Q.escape more = [] := by
    have split : Q.escape (label ++ more) = label ++ Q.escape more := by
      rw [escape, List.flatMap_append]
      exact congrArg (· ++ Q.escape more) (Q.escape_of_unescaped plain)
    rw [split] at same
    simpa using same
  rw [Q.escape_eq_nil noMore, List.append_nil]

/-- A text without special characters is found in a quoted text where it is
found in the text itself. -/
theorem infix_escape_iff
    {needle text : List Char}
    (nonempty : needle ≠ [])
    (plain : ∀ c ∈ needle, Unescaped c) :
    needle <:+: Q.escape text ↔ needle <:+: text := by
  induction text with
  | nil =>
      rfl
  | cons d text inductionHypothesis =>
      rw [List.infix_cons_iff, ← inductionHypothesis,
        ← Q.prefix_escape_iff plain, escape_cons]
      rcases Q.escapeChar_cases d with ⟨printed, special⟩ | ⟨printed, -⟩
      · obtain ⟨c, rest, rfl⟩ := List.exists_cons_of_ne_nil nonempty
        have first := plain c List.mem_cons_self
        have notBackslash : ¬ (c :: rest) <+: '\\' :: d :: Q.escape text :=
          fun starts => first.2.1 (List.cons_prefix_cons.mp starts).1
        have notSpecial : ¬ (c :: rest) <+: d :: Q.escape text :=
          fun starts => special ((List.cons_prefix_cons.mp starts).1 ▸ first)
        rw [printed, List.cons_append, List.cons_append, List.nil_append,
          List.infix_cons_iff, List.infix_cons_iff]
        simp only [notBackslash, notSpecial, false_or]
      · rw [printed, List.singleton_append, List.infix_cons_iff]

end Quoting

/-! ## Which lines carry a tag -/

namespace Word

variable {Q : Quoting}

private theorem printed_of_bare
    {w : Word}
    (isBare : w.isBare = true) :
    w.printed Q = w.text := by
  cases w with
  | bare text _ _ => rfl
  | quoted text _ => cases isBare

/-- Only a bare word is printed with the comment option at its end. -/
theorem isBare_of_option
    {w : Word}
    (atEnd : commentOption <:+ w.printed Q) :
    w.isBare = true ∧ commentOption <:+ w.text := by
  cases w with
  | bare text _ _ =>
      exact ⟨rfl, atEnd⟩
  | quoted text _ =>
      obtain ⟨front, printed⟩ := atEnd
      have spelled :
          commentOption = ['-', '-', 'c', 'o', 'm', 'm', 'e', 'n'] ++ ['t'] :=
        rfl
      rw [spelled, Word.printed, Quoting.inQuotes, ← List.append_assoc, ← List.cons_append]
        at printed
      have last := List.append_inj_right' printed rfl
      simp at last

end Word

namespace ListedRule

variable {Q : Quoting}

/-- Two neighbours of which the first ends in the comment option are the option
and the comment, or the comment and an option. -/
theorem pair_of_option
    {r : ListedRule}
    {first second : Word}
    (pair : [first, second] <:+: r.words)
    (atEnd : commentOption <:+ first.printed Q) :
    r.comment = some second ∨ second ∈ r.after.head? := by
  obtain ⟨isBare, option⟩ := Word.isBare_of_option atEnd
  have notOther : first ∉ appendCommand :: r.chain :: r.before := by
    intro member
    rcases List.mem_cons.mp member with rfl | member
    · revert option
      decide +kernel
    · refine r.single first ?_ isBare option
      rcases List.mem_cons.mp member with rfl | member
      · exact List.mem_cons_self
      · exact List.mem_cons_of_mem _ (List.mem_append_left _ member)
  have notAfter : first ∉ r.after := fun member =>
    r.single first
      (List.mem_cons_of_mem _ (List.mem_append_right _ member)) isBare option
  obtain ⟨front, back, order⟩ := pair
  have split : front ++ first :: second :: back =
      (appendCommand :: r.chain :: r.before) ++
        ((r.comment.elim [] fun c => [commentWord, c]) ++ r.after) := by
    simpa [words] using order
  rcases List.append_eq_append_iff.mp split with
    ⟨between, isBefore, isRest⟩ | ⟨between, isFront, isRest⟩
  · cases between with
    | nil =>
        cases isComment : r.comment with
        | none =>
            rw [isComment] at isRest
            simp only [List.nil_append, Option.elim_none] at isRest
            exact absurd (isRest ▸ List.mem_cons_self) notAfter
        | some c =>
            rw [isComment] at isRest
            simp only [List.nil_append, Option.elim_some, List.cons_append,
              List.cons.injEq] at isRest
            exact .inl (congrArg some isRest.2.1.symm)
    | cons w between =>
        simp only [List.cons_append, List.cons.injEq] at isRest
        refine absurd ?_ notOther
        rw [isBefore, ← isRest.1]
        simp
  · cases isComment : r.comment with
    | none =>
        rw [isComment] at isRest
        simp only [Option.elim_none, List.nil_append] at isRest
        exact absurd (by simp [isRest]) notAfter
    | some c =>
        rw [isComment] at isRest
        simp only [Option.elim_some, List.cons_append,
          List.nil_append] at isRest
        match between, isRest with
        | [], isRest =>
            simp only [List.nil_append, List.cons.injEq] at isRest
            exact .inl (congrArg some isRest.2.1)
        | [_], isRest =>
            simp only [List.cons_append, List.nil_append,
              List.cons.injEq] at isRest
            exact .inr (by simp [isRest.2.2])
        | _ :: _ :: between, isRest =>
            simp only [List.cons_append, List.cons.injEq] at isRest
            exact absurd (by simp [isRest.2.2]) notAfter

/-- The option and the comment are neighbours. -/
theorem comment_pair
    {r : ListedRule}
    {c : Word}
    (isComment : r.comment = some c) :
    [commentWord, c] <:+: r.words :=
  ⟨appendCommand :: r.chain :: r.before, r.after, by
    simp [words, isComment]⟩

theorem line_toList
    (r : ListedRule) :
    (r.line Q).toList = [' '].intercalate (r.words.map (Word.printed Q)) := by
  simp [line]

end ListedRule

/-- A text a tag may be: it starts with a letter and has no character that is
white space or special in quotes. -/
structure TagText (text : List Char) : Prop where
  letter : ∃ rest, text = 'm' :: rest
  plain : ∀ c ∈ text, Unescaped c
  noSpace : ' ' ∉ text

namespace ListedRule

variable {Q : Quoting} {label : List Char}

/-- What `pair_of_option` says of the second word. -/
theorem comment_of_pair
    {r : ListedRule}
    {left right start : List Char}
    (pair : [left, right] <:+: r.words.map (Word.printed Q))
    (atEnd : commentOption <:+ left)
    (starts : start <+: right)
    (letter : ∃ rest, start = 'm' :: rest ∨ start = '"' :: 'm' :: rest) :
    ∃ c, r.comment = some c ∧ start <+: c.printed Q := by
  obtain ⟨front, back, order⟩ := pair
  obtain ⟨wordsFront, wordsBack, isWords, isFront, -⟩ :=
    List.map_eq_append_iff.mp order.symm
  obtain ⟨wordsBefore, pairWords, rfl, -, isPair⟩ :=
    List.map_eq_append_iff.mp isFront
  match pairWords, isPair with
  | [first, second], isPair =>
      simp only [List.map_cons, List.map_nil, List.cons.injEq,
        and_true] at isPair
      obtain ⟨rfl, rfl⟩ := isPair
      have neighbours : [first, second] <:+: r.words :=
        ⟨wordsBefore, wordsBack, isWords.symm⟩
      rcases r.pair_of_option neighbours atEnd with isComment | isAfter
      · exact ⟨second, isComment, starts⟩
      · -- what follows the comment starts with a dash or an exclamation mark
        exfalso
        obtain ⟨rest, isOption⟩ := r.option second isAfter
        obtain ⟨more, isStart⟩ := letter
        cases second with
        | bare text _ plain =>
            obtain ⟨tail, printed⟩ := starts
            simp only [Word.printed, Word.text] at printed isOption
            rcases isStart with rfl | rfl <;> rcases isOption with rfl | rfl <;>
              simp at printed
        | quoted text _ =>
            simp only [Word.printed, Quoting.inQuotes, Word.text] at starts isOption
            rcases isStart with rfl | rfl
            · simp at starts
            · rw [List.cons_prefix_cons] at starts
              have first : ['m'] <+: Q.escape text ++ ['"'] :=
                List.IsPrefix.trans ⟨more, rfl⟩ starts.2
              have short : ['m'] <+: Q.escape text := by
                rcases List.prefix_concat_iff.mp first with same | within
                · have empty := congrArg List.length same
                  simp only [List.length_cons, List.length_nil, zero_add,
                    List.length_append, Nat.right_eq_add,
                    List.length_eq_zero_iff] at empty
                  rw [empty] at same
                  simp at same
                · exact within
              have unescaped : ∀ c ∈ ['m'], Unescaped c := by
                simp [Unescaped]
              rw [Q.prefix_escape_iff unescaped] at short
              rcases isOption with rfl | rfl <;> simp at short

end ListedRule

private theorem commentOption_noSpace : ' ' ∉ commentOption := by
  decide +kernel

private theorem commentOption_unescaped :
    ∀ c ∈ commentOption, Unescaped c := by
  simp [commentOption, Unescaped]

namespace ListedRule

variable {Q : Quoting} {label : List Char}

/-- Some text in quotes mentions the comment option with the given text. -/
def Mentions (label : List Char) (r : ListedRule) : Prop :=
  ∃ w ∈ r.words, w.isBare = false ∧ commentOption ++ ' ' :: label <:+: w.text

/-- The comment is printed bare and starts with the given text. -/
def StartsBare (label : List Char) (r : ListedRule) : Prop :=
  ∃ c, r.comment = some c ∧ c.isBare = true ∧ label <+: c.text

/-- The comment is printed in quotes and is the given text. -/
def IsQuoted (label : List Char) (r : ListedRule) : Prop :=
  ∃ c, r.comment = some c ∧ c.isBare = false ∧ c.text = label

private theorem needle_unescaped
    (tagText : TagText label) :
    ∀ c ∈ commentOption ++ ' ' :: label, Unescaped c := by
  intro c member
  rcases List.mem_append.mp member with inOption | inLabel
  · exact commentOption_unescaped c inOption
  · rcases List.mem_cons.mp inLabel with rfl | inLabel
    · simp [Unescaped]
    · exact tagText.plain c inLabel

/-- A text without double quotes is found in a quoted word inside the quotes. -/
theorem infix_quoted
    {needle body : List Char}
    (nonempty : needle ≠ [])
    (noQuote : '"' ∉ needle)
    (found : needle <:+: '"' :: (body ++ ['"'])) :
    needle <:+: body := by
  have afterFirst : needle <:+: body ++ ['"'] := by
    rcases List.infix_cons_iff.mp found with atStart | later
    · obtain ⟨c, rest, rfl⟩ := List.exists_cons_of_ne_nil nonempty
      obtain ⟨rfl, -⟩ := List.cons_prefix_cons.mp atStart
      exact absurd List.mem_cons_self noQuote
    · exact later
  rcases List.infix_concat_iff.mp afterFirst with atEnd | earlier
  · rcases List.suffix_concat_iff.mp atEnd with empty | ⟨front, rfl, -⟩
    · exact absurd empty nonempty
    · exact absurd (by simp) noQuote
  · exact earlier

/-- Where the bare needle of a tag is found in a listed line. -/
theorem bare_found_iff
    (tagText : TagText label)
    (r : ListedRule) :
    commentOption ++ ' ' :: label <:+: (r.line Q).toList ↔
      r.Mentions label ∨ r.StartsBare label := by
  have plain := needle_unescaped tagText
  have nonempty : commentOption ++ ' ' :: label ≠ [] := by
    simp
  rw [line_toList]
  constructor
  · intro found
    rcases spaced_infix_intercalate commentOption_noSpace tagText.noSpace found
      with ⟨printed, member, inside⟩ | ⟨left, right, pair, atEnd, starts⟩
    · obtain ⟨w, inWords, rfl⟩ := List.mem_map.mp member
      cases w with
      | bare text _ bareText =>
          have space : ' ' ∈ text := inside.subset (by simp)
          have noSpace := (bareText ' ' space).1
          simp [isWhitespace] at noSpace
      | quoted text oneLine =>
          refine .inl ⟨_, inWords, rfl, ?_⟩
          have noQuote : '"' ∉ commentOption ++ ' ' :: label :=
            fun quote => (plain '"' quote).1 rfl
          exact (Q.infix_escape_iff nonempty plain).mp
            (infix_quoted nonempty noQuote inside)
    · obtain ⟨rest, isLabel⟩ := tagText.letter
      obtain ⟨c, isComment, starts⟩ :=
        comment_of_pair pair atEnd starts ⟨rest, .inl isLabel⟩
      cases c with
      | bare text _ _ =>
          exact .inr ⟨_, isComment, rfl, starts⟩
      | quoted text _ =>
          rw [isLabel] at starts
          simp [Word.printed, Quoting.inQuotes] at starts
  · rintro (⟨w, member, notBare, inside⟩ | ⟨c, isComment, isBare, starts⟩)
    · cases w with
      | bare text _ _ =>
          cases notBare
      | quoted text oneLine =>
          have escaped : commentOption ++ ' ' :: label <:+: Q.escape text :=
            (Q.infix_escape_iff nonempty plain).mpr inside
          have inWord : commentOption ++ ' ' :: label <:+:
              (Word.quoted text oneLine).printed Q := by
            obtain ⟨front, back, isEscaped⟩ := escaped
            exact ⟨'"' :: front, back ++ ['"'], by
              simp [Word.printed, Quoting.inQuotes, ← isEscaped]⟩
          exact inWord.trans
            (infix_intercalate_of_mem (List.mem_map_of_mem member))
    · have pair := (comment_pair isComment).map (Word.printed Q)
      have joined := infix_intercalate_of_pair pair
      obtain ⟨rest, isText⟩ := starts
      refine List.IsInfix.trans ⟨[], rest, ?_⟩ joined
      rw [Word.printed_of_bare isBare, ← isText]
      simp [commentWord, Word.ofBare, Word.printed, commentOption]

/-- Where the quoted needle of a tag is found in a listed line. -/
theorem quoted_found_iff
    (tagText : TagText label)
    (r : ListedRule) :
    commentOption ++ ' ' :: ('"' :: (label ++ ['"'])) <:+: (r.line Q).toList ↔
      r.IsQuoted label := by
  have noSpace : ' ' ∉ '"' :: (label ++ ['"']) := by
    simp [tagText.noSpace]
  obtain ⟨rest, isLabel⟩ := tagText.letter
  rw [line_toList]
  constructor
  · intro found
    rcases spaced_infix_intercalate commentOption_noSpace noSpace found
      with ⟨printed, member, inside⟩ | ⟨left, right, pair, atEnd, starts⟩
    · exfalso
      obtain ⟨w, -, rfl⟩ := List.mem_map.mp member
      cases w with
      | bare text _ bareText =>
          have quote : '"' ∈ text := inside.subset (by simp)
          exact (bareText '"' quote).2 rfl
      | quoted text oneLine =>
          refine Q.no_space_quote text (List.IsInfix.trans ?_ inside)
          exact ⟨commentOption, rest ++ ['"'], by simp [isLabel]⟩
    · obtain ⟨c, isComment, starts⟩ :=
        comment_of_pair pair atEnd starts
          ⟨rest ++ ['"'], .inr (by simp [isLabel])⟩
      cases c with
      | bare text _ bareText =>
          have quote : '"' ∈ text := starts.subset List.mem_cons_self
          exact absurd rfl (bareText '"' quote).2
      | quoted text _ =>
          refine ⟨_, isComment, rfl, ?_⟩
          have body : label ++ ['"'] <+: Q.escape text ++ ['"'] :=
            (List.cons_prefix_cons.mp starts).2
          exact Q.text_of_closed tagText.plain (by simp [isLabel]) body
  · rintro ⟨c, isComment, notBare, isText⟩
    cases c with
    | bare text _ _ =>
        cases notBare
    | quoted text oneLine =>
        have pair := (comment_pair isComment).map (Word.printed Q)
        have joined := infix_intercalate_of_pair pair
        have same : Q.escape text = label := by
          rw [← isText]
          exact Q.escape_of_unescaped fun c member =>
            tagText.plain c (isText ▸ member)
        refine List.IsInfix.trans ⟨[], [], ?_⟩ joined
        simp [commentWord, Word.ofBare, Word.printed, Quoting.inQuotes,
          commentOption, same]

end ListedRule


end Myrun
