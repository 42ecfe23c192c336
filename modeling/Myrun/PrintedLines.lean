import Myrun.PacketFilter
import Myrun.Words

namespace Myrun

namespace PacketFilter

/-!
# Printed lines and what is read of them

A rule without line breaks is printed on one line, `str::lines` gives that line
back, and `split_rule` finds the chain as its first argument.  Together these
say which rules the search of `tagged_rules` can come up with.
-/

/-! ## One line for each rule -/

private theorem mem_intercalate_space
    {words : List (List Char)}
    {c : Char}
    (member : c ∈ [' '].intercalate words) :
    c = ' ' ∨ ∃ w ∈ words, c ∈ w := by
  induction words with
  | nil =>
      simp at member
  | cons first rest inductionHypothesis =>
      cases rest with
      | nil =>
          exact .inr ⟨first, List.mem_cons_self, by simpa using member⟩
      | cons second rest =>
          rw [List.intercalate_cons_cons] at member
          simp only [List.mem_append, List.mem_singleton] at member
          rcases member with (inFirst | space) | later
          · exact .inr ⟨first, List.mem_cons_self, inFirst⟩
          · exact .inl space
          · obtain space | ⟨w, inRest, inWord⟩ := inductionHypothesis later
            · exact .inl space
            · exact .inr ⟨w, List.mem_cons_of_mem first inRest, inWord⟩

/-- A rule whose chain and arguments have no line break is printed on one
line. -/
theorem oneLine_of_args
    {r : Rule}
    (chain : '\n' ∉ r.chain.toList)
    (args : ∀ arg ∈ r.args, '\n' ∉ arg.toList) :
    '\n' ∉ r.printed := by
  intro member
  rcases mem_intercalate_space member with space | ⟨word, inWords, inWord⟩
  · simp at space
  · rcases List.mem_cons.mp inWords with rfl | inWords
    · simp at inWord
    · rcases List.mem_cons.mp inWords with rfl | inArgs
      · exact chain inWord
      · rcases mem_printedArgs inArgs inWord with quote | backslash | inArg
        · simp at quote
        · simp at backslash
        · obtain ⟨arg, isArg, inArg⟩ := inArg
          exact args arg isArg inArg

private theorem newline_not_mem_toDigits (n : Nat) :
    '\n' ∉ Nat.toDigits 10 n := by
  intro member
  have digit := List.all_eq_true.mp (toDigits_all_isDigit n) _ member
  revert digit
  decide

theorem newline_not_mem_portText (port : UInt16) :
    '\n' ∉ (portText port).toList := by
  have digits := newline_not_mem_toDigits port.toNat
  simpa [portText, Nat.repr] using digits

theorem newline_not_mem_formatIpv4 (ip : Ipv4) :
    '\n' ∉ (formatIpv4 ip).toList := by
  simp [formatIpv4, octetText, newline_not_mem_toDigits]

/-- The lines that are read of a printed rule. -/
def shown (r : Rule) : List String :=
  (linesFrom [] (r.printed ++ ['\n'])).map String.ofList

/-- The lines of a listing are those of its rules. -/
theorem lines_dump
    (w : World)
    (table : Table) :
    lines (w.dump table) =
      (w.rules.filter (·.table = table)).flatMap shown := by
  rw [World.dump]
  generalize w.rules.filter (·.table = table) = rules
  induction rules with
  | nil =>
      rfl
  | cons r rules inductionHypothesis =>
      rw [lines, String.toList_ofList] at inductionHypothesis ⊢
      rw [List.flatMap_cons, List.flatMap_cons, List.append_assoc,
        List.singleton_append, linesFrom_append, List.map_append,
        inductionHypothesis, shown]

/-- A rule printed on one line is read as that line, less a carriage return at
its end. -/
theorem shown_of_oneLine
    {r : Rule}
    (oneLine : '\n' ∉ r.printed) :
    ∃ text, shown r = [String.ofList text] ∧
      (text = r.printed ∨ text ++ ['\r'] = r.printed) := by
  obtain ⟨text, read, whole⟩ := linesFrom_oneLine oneLine []
  refine ⟨text, ?_, by simpa using whole⟩
  rw [shown, read, List.map_singleton]

/-! ## Cutting a line -/

private theorem splitRuleFrom_bare
    {word : List Char}
    (plain : ∀ c ∈ word, isWhitespace c = false ∧ c ≠ '"')
    (cur rest : List Char) :
    splitRuleFrom cur false (word ++ rest) =
      splitRuleFrom (word.reverse ++ cur) false rest := by
  induction word generalizing cur with
  | nil =>
      rfl
  | cons c word inductionHypothesis =>
      obtain ⟨solid, notQuote⟩ := plain c List.mem_cons_self
      rw [List.cons_append, splitRuleFrom, if_neg notQuote, solid,
        Bool.false_and, if_neg Bool.false_ne_true,
        inductionHypothesis fun d member => plain d (List.mem_cons_of_mem c member),
        List.reverse_cons, List.append_assoc, List.singleton_append]

/-- The first word of a line is its first argument. -/
theorem splitRule_head
    {word tail : List Char}
    (nonempty : word ≠ [])
    (plain : ∀ c ∈ word, isWhitespace c = false ∧ c ≠ '"')
    (ends : tail = [] ∨ ∃ rest, tail = ' ' :: rest) :
    (splitRule (String.ofList (word ++ tail))).headD "" = String.ofList word := by
  have read : word.reverse.isEmpty = false := by
    simpa using nonempty
  rw [splitRule, String.toList_ofList, splitRuleFrom_bare plain, List.append_nil]
  rcases ends with rfl | ⟨rest, rfl⟩
  · simp [splitRuleFrom, read]
  · have space : isWhitespace ' ' = true := by
      decide
    have notQuote : ¬ ' ' = '"' := by
      decide
    simp [splitRuleFrom, read, space, notQuote]

/-- The arguments of a line are its text behind `-A`. -/
theorem args_of_taggedLine
    {id line : String}
    {args : List String}
    (isTagged : taggedLine? id line = some args) :
    args = splitRule (String.ofList (line.toList.drop 3)) := by
  unfold taggedLine? at isTagged
  split at isTagged
  · cases isTagged
  · split at isTagged
    · cases isTagged
    · simp only [Option.ite_none_left_eq_some, Option.some.injEq] at isTagged
      exact isTagged.2.symm

/-- A rule is printed with its chain as it is. -/
theorem line_chain (r : Rule) :
    ∃ tail, r.printed = ['-', 'A', ' '] ++ (r.chain.toList ++ tail) ∧
      (tail = [] ∨ ∃ rest, tail = ' ' :: rest) := by
  unfold Rule.printed
  cases printedArgs false r.args with
  | nil =>
      exact ⟨[], by simp [List.intercalate_cons_cons], .inl rfl⟩
  | cons first rest =>
      exact ⟨' ' :: [' '].intercalate (first :: rest),
        by simp [List.intercalate_cons_cons], .inr ⟨_, rfl⟩⟩

end PacketFilter

end Myrun
