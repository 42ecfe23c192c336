import Myrun.RuleListing
import Myrun.Words

namespace Myrun

/-!
# Cleaning up a container's rules

`cleanup` of `src/runtime/nat.rs` deletes the rules `tagged_rules` selects.  On
a listed rule set this deletes exactly the rules whose comment is the
container's tag when no other rule mentions that tag in a way the substring
search takes for it, and when the container does not bear the name of the
shared rules.
-/

/-! ## Listings line by line -/

namespace Word

variable {Q : Quoting}

private theorem printed_proper
    (w : Word) :
    w.printed Q ≠ [] ∧ '\n' ∉ w.printed Q ∧
      (w.printed Q).getLast? ≠ some '\r' := by
  cases w with
  | bare text nonempty plain =>
      refine ⟨nonempty, fun member => ?_, fun last => ?_⟩
      · have notWhite := (plain _ member).1
        simp [isWhitespace] at notWhite
      · have notWhite := (plain _ (List.mem_of_getLast? last)).1
        simp [isWhitespace] at notWhite
  | quoted text oneLine =>
      refine ⟨by simp [printed, Quoting.inQuotes], ?_,
        by simp [printed, Quoting.inQuotes, List.getLast?_cons]⟩
      have noBreak : '\n' ∉ Q.escape text := by
        intro member
        obtain ⟨c, inText, inChar⟩ := List.mem_flatMap.mp member
        rcases Q.escapeChar_cases c with ⟨shown, -⟩ | ⟨shown, -⟩
        · simp only [shown, List.mem_cons, List.not_mem_nil, or_false] at inChar
          rcases inChar with backslash | rfl
          · simp at backslash
          · exact oneLine inText
        · simp only [shown, List.mem_singleton] at inChar
          exact oneLine (inChar ▸ inText)
      simp [printed, Quoting.inQuotes, noBreak]

end Word

/-- Words joined by spaces are one line if each of them is. -/
theorem intercalate_proper
    {words : List (List Char)}
    (nonempty : words ≠ [])
    (proper : ∀ w ∈ words, w ≠ [] ∧ '\n' ∉ w ∧ w.getLast? ≠ some '\r') :
    [' '].intercalate words ≠ [] ∧ '\n' ∉ [' '].intercalate words ∧
      ([' '].intercalate words).getLast? ≠ some '\r' := by
  induction words with
  | nil =>
      exact absurd rfl nonempty
  | cons first rest inductionHypothesis =>
      obtain ⟨firstSome, oneLine, ended⟩ := proper first List.mem_cons_self
      cases rest with
      | nil =>
          simpa using ⟨firstSome, oneLine, ended⟩
      | cons second rest =>
          obtain ⟨restSome, restLine, restEnded⟩ :=
            inductionHypothesis (by simp) fun w member =>
              proper w (List.mem_cons_of_mem first member)
          rw [intercalate_cons_append]
          refine ⟨by simp, by simp [oneLine, restLine], ?_⟩
          rw [List.getLast?_append_of_ne_nil _ (by simp)]
          rw [List.getLast?_cons_of_ne_nil restSome]
          exact restEnded

private theorem ListedRule.line_proper
    (Q : Quoting)
    (r : ListedRule) :
    '\n' ∉ (r.line Q).toList ∧ (r.line Q).toList.getLast? ≠ some '\r' := by
  have words : r.words.map (Word.printed Q) ≠ [] := by
    simp [ListedRule.words]
  have proper := intercalate_proper words (by
    intro printed member
    obtain ⟨w, -, rfl⟩ := List.mem_map.mp member
    exact w.printed_proper)
  rw [ListedRule.line_toList]
  exact proper.2

/-- The lines of a listing are its headings and its rules. -/
theorem lines_listing
    (Q : Quoting)
    (headings : List Heading)
    (rules : List ListedRule) :
    lines (listing Q headings rules) =
      headings.map (fun h => String.ofList h.text) ++
        rules.map (ListedRule.line Q) := by
  rw [lines, listing, String.toList_ofList, linesFrom_flatMap]
  · simp [Function.comp_def]
  · intro row member
    rcases List.mem_append.mp member with heading | rule
    · obtain ⟨h, -, rfl⟩ := List.mem_map.mp heading
      exact ⟨h.oneLine, h.ended⟩
    · obtain ⟨r, -, rfl⟩ := List.mem_map.mp rule
      exact r.line_proper Q

/-! ## Selection -/

/-- The tag of a valid id. -/
theorem tagText_of_valid
    {id : String}
    (valid : validateId id = .ok ()) :
    TagText (PacketFilter.tag id).toList := by
  unfold validateId at valid
  simp only [Result.bind_eq_ok, requireConfig_eq_ok] at valid
  obtain ⟨_, -, _, allowed, -⟩ := valid
  rw [requireConfig_eq_ok] at allowed
  have idChars : ∀ c ∈ id.toList, isIdChar c = true := by
    simpa using allowed
  have spelled : (PacketFilter.tag id).toList =
      ['m', 'y', 'r', 'u', 'n', ':'] ++ id.toList := by
    simp [PacketFilter.tag]
  have plain : ∀ c ∈ id.toList, Unescaped c ∧ c ≠ ' ' := by
    intro c member
    have isId := idChars c member
    refine ⟨⟨?_, ?_, ?_⟩, ?_⟩
    all_goals
      rintro rfl
      revert isId
      decide
  rw [spelled]
  refine ⟨⟨_, rfl⟩, ?_, ?_⟩
  · intro c member
    rcases List.mem_append.mp member with inTag | inId
    · have letters : ∀ c ∈ ['m', 'y', 'r', 'u', 'n', ':'], Unescaped c := by
        simp [Unescaped]
      exact letters c inTag
    · exact (plain c inId).1
  · intro member
    rcases List.mem_append.mp member with inTag | inId
    · simp at inTag
    · exact (plain ' ' inId).2 rfl

/-- A rule that has been begun gives at least one argument. -/
theorem splitRuleFrom_ne_nil
    {cur : List Char}
    (begun : cur ≠ [])
    (inQuotes : Bool)
    (cs : List Char) :
    splitRuleFrom cur inQuotes cs ≠ [] := by
  induction cs generalizing cur inQuotes with
  | nil =>
      simp [splitRuleFrom, begun]
  | cons c cs inductionHypothesis =>
      by_cases quote : c = '"'
      · rw [splitRuleFrom, if_pos quote]
        exact inductionHypothesis begun _
      · rw [splitRuleFrom, if_neg quote]
        by_cases ends : (isWhitespace c && !inQuotes) = true
        · simp [ends, begun]
        · rw [if_neg ends]
          exact inductionHypothesis (by simp) _

namespace ListedRule

variable {Q : Quoting}

/-- The line of a rule starts with the command and the chain. -/
theorem line_head
    (r : ListedRule) :
    ∃ c rest, isWhitespace c = false ∧ c ≠ '"' ∧
      (r.line Q).toList = '-' :: 'A' :: ' ' :: c :: rest := by
  cases isChain : r.chain with
  | quoted text _ =>
      have bare := r.chainBare
      rw [isChain] at bare
      cases bare
  | bare text nonempty plain =>
      obtain ⟨c, more, rfl⟩ := List.exists_cons_of_ne_nil nonempty
      obtain ⟨notWhite, notQuote⟩ := plain c List.mem_cons_self
      rw [line_toList, words, isChain, List.map_cons, List.map_cons,
        intercalate_cons_append]
      obtain ⟨others, joined, -⟩ := prefix_intercalate (c :: more)
        ((r.before ++ ((r.comment.elim [] fun c => [commentWord, c]) ++
          r.after)).map (Word.printed Q))
      have shown : Word.printed Q (.bare (c :: more) nonempty plain) =
          c :: more := rfl
      rw [shown, joined]
      exact ⟨c, more ++ others, notWhite, notQuote, rfl⟩

private theorem args_ne_nil
    (r : ListedRule) :
    r.args Q ≠ [] := by
  obtain ⟨c, rest, notWhite, notQuote, starts⟩ := r.line_head (Q := Q)
  have begun : splitRuleFrom [c] false rest ≠ [] :=
    splitRuleFrom_ne_nil (by simp) false rest
  simpa [args, splitRule, starts, splitRuleFrom, notWhite, notQuote] using begun

/-- The line contains the comment option with the tag, bare or in quotes. -/
def Selected (id : String) (r : ListedRule) : Prop :=
  (r.Mentions (PacketFilter.tag id).toList ∨
    r.StartsBare (PacketFilter.tag id).toList) ∨
      r.IsQuoted (PacketFilter.tag id).toList

/-- The rules that are a container's own: their whole comment is its tag. -/
def own (id : String) (r : ListedRule) : Bool :=
  r.commentText = some (PacketFilter.tag id)

private theorem own_iff
    {id : String}
    {r : ListedRule} :
    r.own id = true ↔
      ∃ c, r.comment = some c ∧ c.text = (PacketFilter.tag id).toList := by
  simp only [own, commentText, decide_eq_true_eq, Option.map_eq_some_iff]
  constructor
  · rintro ⟨c, isComment, isTag⟩
    exact ⟨c, isComment, by rw [← isTag, String.toList_ofList]⟩
  · rintro ⟨c, isComment, isTag⟩
    exact ⟨c, isComment, by rw [isTag, String.ofList_toList]⟩

private theorem selected_of_own
    {id : String}
    {r : ListedRule}
    (isOwn : r.own id = true) :
    r.Selected id := by
  obtain ⟨c, isComment, isTag⟩ := own_iff.mp isOwn
  cases bare : c.isBare with
  | true => exact .inl (.inr ⟨c, isComment, bare, by rw [isTag]⟩)
  | false => exact .inr ⟨c, isComment, bare, isTag⟩

/-- `tagged_rules` keeps the line of a selected rule, and no other. -/
theorem taggedLine_of_selected
    {id : String}
    (valid : validateId id = .ok ())
    {r : ListedRule}
    (selected : r.Selected id) :
    PacketFilter.taggedLine? id (r.line Q) = some (r.args Q) := by
  have tagText := tagText_of_valid valid
  obtain ⟨c, rest, -, -, starts⟩ := r.line_head (Q := Q)
  have isRule : startsWith "-A " (r.line Q) = true := by
    simp [startsWith, starts]
  have nonempty : (splitRule (String.ofList ((r.line Q).toList.drop 3))).isEmpty
      = false := by
    simpa [args] using r.args_ne_nil (Q := Q)
  have bare := r.bare_found_iff (Q := Q) tagText
  have quoted := r.quoted_found_iff (Q := Q) tagText
  have found : ¬ (containsText (r.line Q)
        ("--comment " ++ PacketFilter.tag id) = false ∧
      containsText (r.line Q)
        ("--comment \"" ++ PacketFilter.tag id ++ "\"") = false) := by
    rintro ⟨noBare, noQuoted⟩
    simp only [containsText, String.toList_append, decide_eq_false_iff_not]
      at noBare noQuoted
    rcases selected with shown | shown
    · exact noBare (by simpa [commentOption] using bare.mpr shown)
    · exact noQuoted (by simpa [commentOption] using quoted.mpr shown)
  simp only [PacketFilter.taggedLine?, isRule, Bool.true_eq_false, ↓reduceIte,
    found, nonempty, Bool.false_eq_true]
  rfl

private theorem taggedLine_of_not_selected
    {id : String}
    (valid : validateId id = .ok ())
    {r : ListedRule}
    (other : ¬ r.Selected id) :
    PacketFilter.taggedLine? id (r.line Q) = none := by
  have tagText := tagText_of_valid valid
  have bare := r.bare_found_iff (Q := Q) tagText
  have quoted := r.quoted_found_iff (Q := Q) tagText
  have noBare : containsText (r.line Q)
      ("--comment " ++ PacketFilter.tag id) = false := by
    simp only [containsText, String.toList_append, decide_eq_false_iff_not]
    intro found
    exact other (.inl (bare.mp (by simpa [commentOption] using found)))
  have noQuoted : containsText (r.line Q)
      ("--comment \"" ++ PacketFilter.tag id ++ "\"") = false := by
    simp only [containsText, String.toList_append, decide_eq_false_iff_not]
    intro found
    exact other (.inr (quoted.mp (by simpa [commentOption] using found)))
  simp [PacketFilter.taggedLine?, noBare, noQuoted]

end ListedRule

/-! ## Deletion -/

/-- The rules of the two tables. -/
abbrev RuleTables := Table → List ListedRule

/-- The deletions of `cleanup` for the selected arguments: how many succeeded
and what is left.  `remove` is `iptables -D`, `none` its failure. -/
def deleteSelected
    (remove : List String → List ListedRule → Option (List ListedRule)) :
    List (Table × List String) → RuleTables → Nat × RuleTables
  | [], tables => (0, tables)
  | (table, args) :: rest, tables =>
      match remove args (tables table) with
      | none => deleteSelected remove rest tables
      | some left =>
          let others :=
            deleteSelected remove rest (Function.update tables table left)
          (others.1 + 1, others.2)

section Cleanup

variable (Q : Quoting) (headings : Table → List Heading)
  (remove : List String → List ListedRule → Option (List ListedRule))

/-- What `iptables -S` prints for each table. -/
def dumpOf (tables : RuleTables) (table : Table) : Option String :=
  some (listing Q (headings table) (tables table))

/-- `cleanup`, on listed rules. -/
def cleanupListed (id : String) (tables : RuleTables) : Nat × RuleTables :=
  deleteSelected remove
    (PacketFilter.taggedArgs id (dumpOf Q headings tables)) tables

/-- Teardown touches exactly the container's own rules. -/
structure TouchesOwn (id : String) (tables : RuleTables) : Prop where
  selected : PacketFilter.taggedArgs id (dumpOf Q headings tables) =
    [Table.nat, Table.filter].flatMap fun table =>
      ((tables table).filter (·.own id)).map fun r => (table, r.args Q)
  left : (cleanupListed Q headings remove id tables).2 =
    fun table => (tables table).filter fun r => !r.own id
  unshared : ∀ table, ∀ r ∈ tables table,
    r.own id = true → r.own "base" = false

/-- Deleting printed arguments deletes the printed rule. -/
def DeletesPrinted (tables : RuleTables) : Prop :=
  ∀ table present, present.Sublist (tables table) →
    ∀ r ∈ present, remove (r.args Q) present = some (present.erase r)

end Cleanup

/-- No other rule is mistaken for one of the container. -/
structure ToldApart (id : String) (tables : RuleTables) : Prop where
  reserved : id = "base" → ∀ table, ∀ r ∈ tables table, r.own "base" = false
  extension : ∀ table, ∀ r ∈ tables table,
    r.StartsBare (PacketFilter.tag id).toList → r.own id = true
  mention : ∀ table, ∀ r ∈ tables table,
    r.Mentions (PacketFilter.tag id).toList → r.own id = true

section Exactness

variable {Q : Quoting} {headings : Table → List Heading}
  {remove : List String → List ListedRule → Option (List ListedRule)}
  {id : String} {tables : RuleTables}

private theorem taggedLine_heading
    (id : String)
    (h : Heading) :
    PacketFilter.taggedLine? id (String.ofList h.text) = none := by
  have notRule : startsWith "-A " (String.ofList h.text) = false := by
    rw [Bool.eq_false_iff]
    intro starts
    rw [startsWith, List.isPrefixOf_iff_prefix] at starts
    exact h.notRule (by simpa using starts)
  simp [PacketFilter.taggedLine?, notRule]

open Classical in
/-- What `tagged_rules` returns for a listed rule set. -/
theorem taggedArgs_listed
    (valid : validateId id = .ok ()) :
    PacketFilter.taggedArgs id (dumpOf Q headings tables) =
      [Table.nat, Table.filter].flatMap fun table =>
        ((tables table).filter fun r => decide (r.Selected id)).map
          fun r => (table, r.args Q) := by
  have keeps : ∀ rules : List ListedRule,
      (rules.map (ListedRule.line Q)).filterMap (PacketFilter.taggedLine? id) =
        (rules.filter fun r => decide (r.Selected id)).map
          (ListedRule.args Q) := by
    intro rules
    induction rules with
    | nil =>
        rfl
    | cons r rules inductionHypothesis =>
        by_cases selected : r.Selected id
        · simp [ListedRule.taggedLine_of_selected valid selected, selected,
            inductionHypothesis]
        · simp [ListedRule.taggedLine_of_not_selected valid selected, selected,
            inductionHypothesis]
  have noHeading : ∀ table, ((headings table).map fun h =>
      String.ofList h.text).filterMap (PacketFilter.taggedLine? id) = [] := by
    intro table
    simp [List.filterMap_map, taggedLine_heading]
  simp [PacketFilter.taggedArgs, PacketFilter.taggedInText, dumpOf,
    lines_listing, noHeading, keeps, Function.comp_def]

/-- When the search is exact, the deletions leave the other rules. -/
theorem deleteSelected_own
    (id : String)
    (deletes : DeletesPrinted Q remove tables)
    (table : Table)
    (rest : List (Table × List String))
    (now : RuleTables)
    (present : (now table).Sublist (tables table)) :
    ∃ count,
      deleteSelected remove
          (((now table).filter (·.own id)).map (fun r => (table, r.args Q)) ++
            rest) now =
        let others := deleteSelected remove rest
          (Function.update now table
            ((now table).filter fun r => !r.own id))
        (others.1 + count, others.2) := by
  generalize owned : (now table).filter (·.own id) = mine
  induction mine generalizing now with
  | nil =>
      have none : (now table).filter (fun r => !r.own id) = now table := by
        rw [List.filter_eq_self]
        intro r member
        have notOwn := List.filter_eq_nil_iff.mp owned r member
        simpa using notOwn
      exact ⟨0, by simp [none]⟩
  | cons r mine inductionHypothesis =>
      have ofMine : r ∈ (now table).filter (·.own id) := by
        simp [owned]
      obtain ⟨member, isOwn⟩ := List.mem_filter.mp ofMine
      let next := Function.update now table ((now table).erase r)
      have nextTable : next table = (now table).erase r := by
        simp [next]
      have mineLeft : (next table).filter (·.own id) = mine := by
        rw [nextTable, ← List.erase_filter, owned, List.erase_cons_head]
      have othersLeft : (next table).filter (fun r => !r.own id) =
          (now table).filter fun r => !r.own id := by
        rw [nextTable, ← List.erase_filter]
        refine List.erase_of_not_mem fun again => ?_
        simp [isOwn] at again
      obtain ⟨count, done⟩ := inductionHypothesis next
        (nextTable ▸ (List.erase_sublist).trans present) mineLeft
      refine ⟨count + 1, ?_⟩
      have removed := deletes table (now table) present r member
      rw [List.map_cons, List.cons_append, deleteSelected, removed]
      simp only
      rw [done, othersLeft]
      simp [next, Nat.add_assoc]

open Classical in
/-- Where as many rules are selected as the container has, they are its own. -/
private theorem own_of_selected
    (same :
      ([Table.nat, Table.filter].flatMap fun table =>
        ((tables table).filter fun r => decide (r.Selected id)).map
          fun r => (table, r.args Q)) =
      [Table.nat, Table.filter].flatMap fun table =>
        ((tables table).filter (·.own id)).map fun r => (table, r.args Q))
    {table : Table}
    {r : ListedRule}
    (member : r ∈ tables table)
    (selected : r.Selected id) :
    r.own id = true := by
  have sublist : ∀ table, ((tables table).filter (·.own id)).Sublist
      ((tables table).filter fun r => decide (r.Selected id)) := by
    intro table
    refine List.monotone_filter_right _ fun r isOwn => ?_
    simpa using ListedRule.selected_of_own isOwn
  have lengths := congrArg List.length same
  simp only [List.flatMap_cons, List.flatMap_nil, List.append_nil,
    List.length_append, List.length_map] at lengths
  have natShort := (sublist .nat).length_le
  have filterShort := (sublist .filter).length_le
  have whole : (tables table).filter (·.own id) =
      (tables table).filter fun r => decide (r.Selected id) := by
    refine (sublist table).eq_of_length ?_
    cases table with
    | nat => omega
    | filter => omega
  have kept : r ∈ (tables table).filter (·.own id) := by
    rw [whole]
    exact List.mem_filter.mpr ⟨member, by simpa using selected⟩
  exact (List.mem_filter.mp kept).2

open Classical in
/-- Where the rules are told apart, exactly the container's own are selected. -/
private theorem ToldApart.selected_eq_own
    (apart : ToldApart id tables)
    {table : Table}
    {r : ListedRule}
    (member : r ∈ tables table) :
    decide (r.Selected id) = r.own id := by
  by_cases isOwn : r.own id = true
  · rw [isOwn]
    simpa using ListedRule.selected_of_own isOwn
  · rw [Bool.eq_false_iff.mpr isOwn, decide_eq_false_iff_not]
    rintro ((mentions | starts) | quoted)
    · exact isOwn (apart.mention table r member mentions)
    · exact isOwn (apart.extension table r member starts)
    · obtain ⟨c, isComment, -, isTag⟩ := quoted
      exact isOwn (ListedRule.own_iff.mpr ⟨c, isComment, isTag⟩)

/-- Deleting what was selected in both tables leaves the rules of others. -/
private theorem deleteSelected_both
    (deletes : DeletesPrinted Q remove tables) :
    (deleteSelected remove
      ([Table.nat, Table.filter].flatMap fun table =>
        ((tables table).filter (·.own id)).map fun r => (table, r.args Q))
      tables).2 = fun table => (tables table).filter fun r => !r.own id := by
  rw [List.flatMap_cons]
  obtain ⟨natCount, natDone⟩ :=
    deleteSelected_own id deletes .nat
      (((tables .filter).filter (·.own id)).map fun r =>
        (Table.filter, r.args Q)) tables (List.Sublist.refl _)
  let next := Function.update tables .nat
    ((tables .nat).filter fun r => !r.own id)
  have nextFilter : next .filter = tables .filter := by
    simp [next]
  obtain ⟨filterCount, filterDone⟩ :=
    deleteSelected_own id deletes .filter [] next (by
      rw [nextFilter])
  rw [nextFilter, List.append_nil] at filterDone
  simp only [List.flatMap_cons, List.flatMap_nil, List.append_nil]
  rw [natDone]
  simp only
  rw [filterDone]
  simp only [deleteSelected]
  funext table
  cases table with
  | nat => simp [next]
  | filter => simp

/-- A rule has one comment, and so the tag of one id. -/
private theorem ListedRule.not_own_base
    {r : ListedRule}
    (notBase : id ≠ "base")
    (isOwn : r.own id = true) :
    r.own "base" = false := by
  rw [Bool.eq_false_iff]
  intro shared
  obtain ⟨c, isComment, isTag⟩ := ListedRule.own_iff.mp isOwn
  obtain ⟨d, isComment', isBaseTag⟩ := ListedRule.own_iff.mp shared
  obtain rfl : c = d := Option.some.inj (isComment ▸ isComment')
  rw [isTag] at isBaseTag
  refine notBase (String.toList_inj.mp ?_)
  simpa [PacketFilter.tag] using isBaseTag

/-- `cleanup` touches exactly the container's own rules if and only if no other
rule is mistaken for one of them. -/
theorem cleanup_exact_iff
    (Q : Quoting)
    (headings : Table → List Heading)
    (remove : List String → List ListedRule → Option (List ListedRule))
    (id : String)
    (tables : RuleTables)
    (valid : validateId id = .ok ())
    (deletes : DeletesPrinted Q remove tables) :
    TouchesOwn Q headings remove id tables ↔ ToldApart id tables := by
  classical
  have listed : PacketFilter.taggedArgs id (dumpOf Q headings tables) =
      [Table.nat, Table.filter].flatMap fun table =>
        ((tables table).filter fun r => decide (r.Selected id)).map
          fun r => (table, r.args Q) :=
    taggedArgs_listed valid
  constructor
  · intro touches
    have same := touches.selected
    rw [listed] at same
    refine ⟨?_, ?_, ?_⟩
    · rintro rfl table r member
      by_contra shared
      have isBase : r.own "base" = true := by
        simpa using shared
      rw [touches.unshared table r member isBase] at isBase
      cases isBase
    · intro table r member starts
      exact own_of_selected same member (.inl (.inr starts))
    · intro table r member mentions
      exact own_of_selected same member (.inl (.inl mentions))
  · intro apart
    have selected : PacketFilter.taggedArgs id (dumpOf Q headings tables) =
        [Table.nat, Table.filter].flatMap fun table =>
          ((tables table).filter (·.own id)).map fun r => (table, r.args Q) := by
      rw [listed]
      refine List.flatMap_congr fun table _ => ?_
      rw [List.filter_congr fun r => apart.selected_eq_own]
    refine ⟨selected, ?_, ?_⟩
    · rw [cleanupListed, selected]
      exact deleteSelected_both deletes
    · intro table r member isOwn
      by_cases isBase : id = "base"
      · exact apart.reserved isBase table r member
      · exact ListedRule.not_own_base isBase isOwn

end Exactness

/-- `iptables -D`: delete the first rule with the given printed arguments. -/
def removeFirst (args : List String) (present : List ListedRule) :
    Option (List ListedRule) :=
  (present.find? fun r => r.args backslashQuoting = args).map present.erase

/-- Rules with different printed arguments are told apart by them. -/
theorem removeFirst_eq
    {rules present : List ListedRule}
    (distinct : ∀ r ∈ rules, ∀ s ∈ rules,
      s.args backslashQuoting = r.args backslashQuoting → s = r)
    (part : present.Sublist rules)
    {r : ListedRule}
    (member : r ∈ present) :
    removeFirst (r.args backslashQuoting) present = some (present.erase r) := by
  obtain ⟨s, found⟩ : ∃ s, present.find? (fun s =>
      s.args backslashQuoting = r.args backslashQuoting) = some s := by
    rw [← Option.isSome_iff_exists, List.find?_isSome]
    exact ⟨r, member, by simp⟩
  have isMember := List.mem_of_find?_eq_some found
  have sameArgs : s.args backslashQuoting = r.args backslashQuoting := by
    simpa using List.find?_some found
  obtain rfl : s = r :=
    distinct r (part.subset member) s (part.subset isMember) sameArgs
  rw [removeFirst, found, Option.map_some]

/-- The rule that forwards a port of container `web`. -/
def webRule : ListedRule where
  chain := .ofBare "MYRUN-PRE" (by simp) (by simp [isWhitespace])
  before := []
  comment := some (.quoted "myrun:web".toList (by decide))
  after := [.ofBare "-j" (by simp) (by simp [isWhitespace]),
    .ofBare "DNAT" (by simp) (by simp [isWhitespace])]
  chainBare := rfl
  single := by decide +kernel
  option := by simp [Word.ofBare, Word.text]

/-- A rule of another tool whose comment explains the tag. -/
def notesRule : ListedRule where
  chain := .ofBare "INPUT" (by simp) (by simp [isWhitespace])
  before := []
  comment := some (.quoted "not --comment myrun:web but ours".toList (by decide))
  after := [.ofBare "-j" (by simp) (by simp [isWhitespace]),
    .ofBare "DROP" (by simp) (by simp [isWhitespace])]
  chainBare := rfl
  single := by decide +kernel
  option := by simp [Word.ofBare, Word.text]

/-- The rule that forwards a port of container `web2`. -/
def web2Rule : ListedRule where
  chain := .ofBare "MYRUN-PRE" (by simp) (by simp [isWhitespace])
  before := []
  comment := some (.quoted "myrun:web2".toList (by decide))
  after := [.ofBare "-j" (by simp) (by simp [isWhitespace]),
    .ofBare "DNAT" (by simp) (by simp [isWhitespace])]
  chainBare := rfl
  single := by decide +kernel
  option := by simp [Word.ofBare, Word.text]

/-- A rule of another tool whose comment names the tag. -/
def hintRule : ListedRule where
  chain := .ofBare "INPUT" (by simp) (by simp [isWhitespace])
  before := [.ofBare "-s" (by simp) (by simp [isWhitespace]),
    .ofBare "10.87.0.2/32" (by simp) (by simp [isWhitespace])]
  comment := some (.quoted "see myrun:web".toList (by decide))
  after := [.ofBare "-j" (by simp) (by simp [isWhitespace]),
    .ofBare "ACCEPT" (by simp) (by simp [isWhitespace])]
  chainBare := rfl
  single := by decide +kernel
  option := by simp [Word.ofBare, Word.text]

/-- The rules of two containers and of another tool. -/
def sharedTables : RuleTables
  | .nat => [web2Rule, webRule]
  | .filter => [hintRule]

/-- The rule of a container is deleted, those of another container and of
another tool stay. -/
theorem web_cleaned_up :
    TouchesOwn backslashQuoting (fun _ => []) removeFirst "web" sharedTables ∧
      (cleanupListed backslashQuoting (fun _ => []) removeFirst "web"
        sharedTables).2 .nat = [web2Rule] ∧
      (cleanupListed backslashQuoting (fun _ => []) removeFirst "web"
        sharedTables).2 .filter = [hintRule] := by
  have valid : validateId "web" = .ok () := by
    decide +kernel
  have distinct : ∀ table, ∀ r ∈ sharedTables table, ∀ s ∈ sharedTables table,
      s.args backslashQuoting = r.args backslashQuoting → s = r := by
    rintro (_ | _)
    · decide +kernel
    · decide +kernel
  have deletes : DeletesPrinted backslashQuoting removeFirst sharedTables :=
    fun table _ part _ member => removeFirst_eq (distinct table) part member
  have extension : ∀ table, ∀ r ∈ sharedTables table,
      r.StartsBare (PacketFilter.tag "web").toList → r.own "web" = true := by
    rintro table r member ⟨c, isComment, isBare, -⟩
    have quoted : ∀ table, ∀ r ∈ sharedTables table,
        r.comment.all (fun c => !c.isBare) = true := by
      rintro (_ | _)
      · decide +kernel
      · decide +kernel
    have isQuoted := quoted table r member
    rw [isComment, Option.all_some, isBare] at isQuoted
    cases isQuoted
  have mention : ∀ table, ∀ r ∈ sharedTables table,
      r.Mentions (PacketFilter.tag "web").toList → r.own "web" = true := by
    rintro table r member ⟨w, inWords, -, inside⟩
    have short : ∀ table, ∀ r ∈ sharedTables table, ∀ w ∈ r.words,
        w.text.length < 19 := by
      rintro (_ | _)
      · decide +kernel
      · decide +kernel
    have length := inside.length_le
    have tooShort := short table r member w inWords
    have needle : (commentOption ++ ' ' :: (PacketFilter.tag "web").toList).length
        = 19 := by
      decide +kernel
    omega
  have touches : TouchesOwn backslashQuoting (fun _ => []) removeFirst "web"
      sharedTables :=
    (cleanup_exact_iff backslashQuoting (fun _ => []) removeFirst "web"
      sharedTables valid deletes).mpr
        ⟨fun isBase => by simp at isBase, extension, mention⟩
  refine ⟨touches, ?_, ?_⟩
  · rw [touches.left]
    decide +kernel
  · rw [touches.left]
    decide +kernel

/-- A rule of another tool whose comment mentions the option is selected and
deleted. -/
theorem notes_deleted :
    let tables : RuleTables := fun table =>
      match table with
      | .nat => []
      | .filter => [notesRule]
    validateId "web" = .ok () ∧
      DeletesPrinted backslashQuoting removeFirst tables ∧
        ¬ TouchesOwn backslashQuoting (fun _ => []) removeFirst "web" tables := by
  intro tables
  have distinct : ∀ table, ∀ r ∈ tables table, ∀ s ∈ tables table,
      s.args backslashQuoting = r.args backslashQuoting → s = r := by
    rintro (_ | _)
    · decide +kernel
    · decide +kernel
  refine ⟨by decide +kernel, ?_, ?_⟩
  · exact fun table _ part _ member => removeFirst_eq (distinct table) part member
  · intro touches
    have selected := touches.selected
    revert selected
    decide +kernel

end Myrun
