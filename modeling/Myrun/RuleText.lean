import Myrun.Text

namespace Myrun

/-!
# Printed rules

`iptables -S` prints an argument as it is or in double quotes, with a backslash
before some characters.  Which characters these are depends on the extension
that prints the argument.
-/

/-- How texts are put in double quotes: which characters get a backslash. -/
structure Quoting where
  escaped : Char → Bool
  quote : escaped '"' = true
  special : ∀ c, escaped c = true → c = '"' ∨ c = '\\' ∨ c = '\''

namespace Quoting

variable (Q : Quoting)

/-- One character of a quoted text. -/
def escapeChar (c : Char) : List Char :=
  if Q.escaped c then ['\\', c] else [c]

/-- A text between double quotes. -/
def escape (text : List Char) : List Char :=
  text.flatMap Q.escapeChar

/-- A text in double quotes. -/
def inQuotes (text : List Char) : List Char :=
  '"' :: (Q.escape text ++ ['"'])

private theorem mem_escape
    {text : List Char}
    {c : Char}
    (member : c ∈ Q.escape text) :
    c = '\\' ∨ c ∈ text := by
  obtain ⟨d, inText, inChar⟩ := List.mem_flatMap.mp member
  unfold escapeChar at inChar
  split at inChar
  · rcases List.mem_cons.mp inChar with backslash | same
    · exact .inl backslash
    · exact .inr (List.mem_singleton.mp same ▸ inText)
  · exact .inr (List.mem_singleton.mp inChar ▸ inText)

end Quoting

/-- Double quotes, backslashes and apostrophes get a backslash. -/
def backslashQuoting : Quoting where
  escaped c := c = '"' || c = '\\' || c = '\''
  quote := rfl
  special := by
    intro c escaped
    simpa [or_assoc] using escaped

/-- Is a text printed without quotes?  A comment only if it has nothing but
letters, digits, underscores and dashes. -/
def printedBare (isComment : Bool) (text : List Char) : Bool :=
  !text.isEmpty && text.all fun c =>
    if isComment then c.isAlphanum || c = '_' || c = '-'
    else !isWhitespace c && c ≠ '"' && c ≠ '\\' && c ≠ '\''

/-- The printed arguments of a rule. -/
def printedArgs (isComment : Bool) : List String → List (List Char)
  | [] => []
  | arg :: rest =>
      (if printedBare isComment arg.toList then arg.toList
        else backslashQuoting.inQuotes arg.toList) ::
          printedArgs (arg = "--comment") rest

/-- A printed argument has no character that the argument does not have, quotes
and backslashes apart. -/
theorem mem_printedArgs
    {args : List String}
    {isComment : Bool}
    {printed : List Char}
    (member : printed ∈ printedArgs isComment args)
    {c : Char}
    (inPrinted : c ∈ printed) :
    c = '"' ∨ c = '\\' ∨ ∃ arg ∈ args, c ∈ arg.toList := by
  induction args generalizing isComment with
  | nil =>
      cases member
  | cons arg rest inductionHypothesis =>
      rcases List.mem_cons.mp member with rfl | later
      · split at inPrinted
        · exact .inr (.inr ⟨arg, List.mem_cons_self, inPrinted⟩)
        · simp only [Quoting.inQuotes, List.mem_cons, List.mem_append,
            List.not_mem_nil, or_false] at inPrinted
          rcases inPrinted with quote | escaped | quote
          · exact .inl quote
          · rcases Quoting.mem_escape _ escaped with backslash | inArg
            · exact .inr (.inl backslash)
            · exact .inr (.inr ⟨arg, List.mem_cons_self, inArg⟩)
          · exact .inl quote
      · rcases inductionHypothesis later with quote | backslash | inRest
        · exact .inl quote
        · exact .inr (.inl backslash)
        · obtain ⟨other, inArgs, inArg⟩ := inRest
          exact .inr (.inr ⟨other, List.mem_cons_of_mem arg inArgs, inArg⟩)

end Myrun
