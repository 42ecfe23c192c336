import Myrun.TomlValue

namespace Myrun

/-!
# When the TOML reader panics

Three things can stop the reader without a result: a `\u` escape whose four
bytes end inside a character, a negated number with a radix and a sign of its
own that is the smallest of all, and brackets that no `i32` counts.  Nothing
else can: the predicates of this module say where in the text one of the three
is reached, and a text is read to a value or an error exactly when none is.
-/

namespace Toml

/-- A run that ends in a panic. -/
def Panics {α : Type} (run : Guarded α) : Prop :=
  ∃ p, run = .error (.panicked p)

section Runs

variable {α β : Type}

@[simp] theorem panics_ok (a : α) : ¬ Panics (.ok a : Guarded α) := by
  rintro ⟨p, same⟩
  cases same

@[simp] theorem panics_refused (e : Error) :
    ¬ Panics (.error (.refused e) : Guarded α) := by
  rintro ⟨p, same⟩
  cases same

@[simp] theorem panics_refuse (message : String) :
    ¬ Panics (refuse message : Guarded α) :=
  panics_refused _

@[simp] theorem panics_crash (p : Panic) : Panics (crash p : Guarded α) :=
  ⟨p, rfl⟩

@[simp] theorem panics_map
    (f : α → β)
    (run : Guarded α) :
    Panics (run.map f) ↔ Panics run := by
  cases run with
  | error fault => simp [Panics, Except.map]
  | ok a => simp [Except.map]

/-- A run in two parts panics in one of them. -/
theorem panics_bind
    (run : Guarded α)
    (next : α → Guarded β) :
    Panics (run >>= next) ↔
      Panics run ∨ ∃ a, run = .ok a ∧ Panics (next a) := by
  cases run with
  | error fault => simp [Panics, bind, Except.bind]
  | ok a => simp [bind, Except.bind]

/-- A list of runs panics at the first that does, if the others succeed. -/
theorem panics_mapM
    (f : α → Guarded β)
    (items : List α) :
    Panics (items.mapM f) ↔
      ∃ earlier item later, items = earlier ++ item :: later ∧
        (∀ other ∈ earlier, ∃ b, f other = .ok b) ∧ Panics (f item) := by
  induction items with
  | nil =>
      constructor
      · intro panics
        exact (panics_ok _ panics).elim
      · rintro ⟨earlier, item, later, shape, _⟩
        simp at shape
  | cons first items inductionHypothesis =>
      rw [List.mapM_cons, panics_bind]
      constructor
      · rintro (here | ⟨b, read, later⟩)
        · exact ⟨[], first, items, rfl, by simp, here⟩
        · rw [panics_bind] at later
          rcases later with later | ⟨bs, _, never⟩
          · obtain ⟨earlier, item, rest, rfl, fine, panics⟩ :=
              inductionHypothesis.mp later
            refine ⟨first :: earlier, item, rest, rfl, ?_, panics⟩
            intro other member
            rcases List.mem_cons.mp member with rfl | inEarlier
            · exact ⟨b, read⟩
            · exact fine other inEarlier
          · exact (panics_ok _ never).elim
      · rintro ⟨earlier, item, later, shape, fine, panics⟩
        cases earlier with
        | nil =>
            obtain ⟨rfl, rfl⟩ := List.cons.inj shape
            exact Or.inl panics
        | cons other earlier =>
            obtain ⟨rfl, rfl⟩ := List.cons.inj shape
            obtain ⟨b, read⟩ := fine first List.mem_cons_self
            refine Or.inr ⟨b, read, ?_⟩
            rw [panics_bind]
            refine Or.inl (inductionHypothesis.mpr
              ⟨earlier, item, later, rfl, ?_, panics⟩)
            intro other member
            exact fine other (List.mem_cons_of_mem first member)

private theorem panics_locate
    (lineno : Nat)
    (run : Guarded α) :
    Panics (locate lineno run) ↔ Panics run := by
  match run with
  | .ok a => simp [locate]
  | .error (.refused e) => simp [locate]
  | .error (.panicked p) => rfl

private theorem panics_locateChange
    (lineno : Nat)
    (change : Except String α) :
    ¬ Panics (locateChange lineno change) := by
  cases change with
  | ok a => exact panics_ok a
  | error message => exact panics_refused _

end Runs

/-! ## Brackets -/

/-- What an active bracket adds to the depth. -/
def bracket : Char × Bool → Int
  | (c, isActive) =>
      if isActive = true then
        if c = '[' then 1 else if c = ']' then -1 else 0
      else 0

/-- The depth that a text is at in the end. -/
def net (annotated : List (Char × Bool)) : Int :=
  (annotated.map bracket).sum

/-- A number that is an `i32`. -/
def InI32 (depth : Int) : Prop :=
  -2 ^ 31 ≤ depth ∧ depth < 2 ^ 31

instance (depth : Int) : Decidable (InI32 depth) :=
  inferInstanceAs (Decidable (_ ∧ _))

/-- Somewhere the depth is not an `i32`. -/
def LeavesI32 (depth : Int) (annotated : List (Char × Bool)) : Prop :=
  ∃ front back, annotated = front ++ back ∧ ¬ InI32 (depth + net front)

/-- Somewhere in the text more brackets are open, or closed too often, than
an `i32` counts. -/
def Overdeep (s : List Char) : Prop :=
  LeavesI32 0 (annotate .outside s)

@[simp] theorem net_nil : net [] = 0 := rfl

@[simp] theorem net_cons
    (entry : Char × Bool)
    (annotated : List (Char × Bool)) :
    net (entry :: annotated) = bracket entry + net annotated := by
  simp [net]

private theorem leavesI32_cons
    {depth : Int}
    (inside : InI32 depth)
    (entry : Char × Bool)
    (annotated : List (Char × Bool)) :
    LeavesI32 depth (entry :: annotated) ↔
      ¬ InI32 (depth + bracket entry) ∨
        LeavesI32 (depth + bracket entry) annotated := by
  constructor
  · rintro ⟨front, back, shape, outside⟩
    cases front with
    | nil =>
        rw [net_nil, Int.add_zero] at outside
        exact (outside inside).elim
    | cons other front =>
        obtain ⟨rfl, rfl⟩ := List.cons.inj shape
        refine Or.inr ⟨front, back, rfl, ?_⟩
        rwa [net_cons, ← Int.add_assoc] at outside
  · rintro (outside | ⟨front, back, rfl, outside⟩)
    · exact ⟨[entry], annotated, rfl, by simpa using outside⟩
    · refine ⟨entry :: front, back, rfl, ?_⟩
      rwa [net_cons, ← Int.add_assoc]

private theorem leavesI32_nil
    {depth : Int}
    (inside : InI32 depth) :
    ¬ LeavesI32 depth [] := by
  rintro ⟨front, back, shape, outside⟩
  obtain ⟨rfl, rfl⟩ := List.nil_eq_append_iff.mp shape
  exact outside (by simpa using inside)

/-- One active character either moves the depth or panics. -/
theorem depthChar_eq
    {depth : Int}
    (inside : InI32 depth)
    (c : Char) :
    depthChar depth c =
      if InI32 (depth + bracket (c, true)) then
        .ok (depth + bracket (c, true))
      else crash .overflow := by
  unfold depthChar bracket addI32 InI32 at *
  by_cases opens : c = '['
  · simp [opens]
  · by_cases closes : c = ']'
    · simp [closes]
    · simp only [opens, closes, ↓reduceIte, Int.add_zero]
      rw [if_pos inside]

private theorem panics_depthFrom
    {depth : Int}
    (inside : InI32 depth)
    (annotated : List (Char × Bool)) :
    Panics (depthFrom depth annotated) ↔ LeavesI32 depth annotated := by
  induction annotated generalizing depth with
  | nil =>
      exact iff_of_false (panics_ok _) (leavesI32_nil inside)
  | cons entry annotated inductionHypothesis =>
      rw [leavesI32_cons inside]
      obtain ⟨c, isActive⟩ := entry
      cases isActive with
      | false =>
          have still : depth + bracket (c, false) = depth := by
            simp [bracket]
          rw [depthFrom, still]
          simp [inside, inductionHypothesis inside]
      | true =>
          rw [depthFrom, panics_bind, depthChar_eq inside]
          by_cases stays : InI32 (depth + bracket (c, true))
          · simp [stays, inductionHypothesis stays]
          · simp [stays]

private theorem panics_piecesFrom
    {depth : Int}
    (inside : InI32 depth)
    (cur : List Char)
    (annotated : List (Char × Bool)) :
    Panics (piecesFrom cur depth annotated) ↔ LeavesI32 depth annotated := by
  induction annotated generalizing depth cur with
  | nil =>
      exact iff_of_false (panics_ok _) (leavesI32_nil inside)
  | cons entry annotated inductionHypothesis =>
      rw [leavesI32_cons inside]
      obtain ⟨c, isActive⟩ := entry
      cases isActive with
      | false =>
          have still : depth + bracket (c, false) = depth := by
            simp [bracket]
          rw [piecesFrom, still]
          simp [inside, inductionHypothesis inside]
      | true =>
          rw [piecesFrom]
          by_cases comma : c = ',' ∧ depth = 0
          · have still : depth + bracket (c, true) = depth := by
              simp [bracket, comma.1]
            rw [if_pos comma, panics_bind, still,
              inductionHypothesis inside]
            simp [inside, pure, Except.pure]
          · rw [if_neg comma, panics_bind, depthChar_eq inside]
            by_cases stays : InI32 (depth + bracket (c, true))
            · simp [stays, inductionHypothesis stays]
            · simp [stays]

private theorem inI32_zero : InI32 0 := by
  constructor <;> decide

private theorem panics_bracketDepth (s : List Char) :
    Panics (bracketDepth s) ↔ Overdeep s := by
  rw [bracketDepth_eq]
  exact panics_depthFrom inI32_zero _

private theorem panics_splitTopLevel (s : List Char) :
    Panics (splitTopLevel s) ↔ Overdeep s := by
  rw [splitTopLevel_eq]
  exact panics_piecesFrom inI32_zero [] _

/-! ## Strings -/

/-- What follows the `u` of an escape has four bytes, but no four bytes of
whole characters. -/
def CutsCharacter (rest : List Char) : Prop :=
  4 ≤ utf8Len rest ∧ ∀ front later, rest = front ++ later → utf8Len front ≠ 4

/-- In what follows the opening quote, the decoder comes to an escape that
cuts a character. -/
inductive StringTrouble : List Char → Prop where
  | here {rest : List Char}
      (cuts : CutsCharacter rest) :
      StringTrouble ('\\' :: 'u' :: rest)
  | escaped {rest later : List Char} {d : Char}
      (decoded : escapeChars rest = .ok (d, later))
      (trouble : StringTrouble later) :
      StringTrouble ('\\' :: rest)
  | plain {c : Char} {rest : List Char}
      (notQuote : c ≠ '"')
      (notBackslash : c ≠ '\\')
      (trouble : StringTrouble rest) :
      StringTrouble (c :: rest)

private theorem takeBytes_none_iff
    (count : Nat)
    (rest : List Char) :
    JsonParser.takeBytes count rest = none ↔
      ∀ front later, rest = front ++ later → utf8Len front ≠ count := by
  constructor
  · rintro missing front later rfl rfl
    rw [takeBytes_append] at missing
    cases missing
  · intro never
    cases taken : JsonParser.takeBytes count rest with
    | none =>
        rfl
    | some parts =>
        obtain ⟨shape, size⟩ := takeBytes_some taken
        exact (never parts.1 parts.2 shape size).elim

/-- An escape panics where it cuts a character. -/
theorem panics_escapeChars (rest : List Char) :
    Panics (escapeChars rest) ↔
      ∃ later, rest = 'u' :: later ∧ CutsCharacter later := by
  cases rest with
  | nil =>
      simp [escapeChars]
  | cons e rest =>
      rw [escapeChars]
      cases escape : simpleEscape (firstByte e) with
      | some d =>
          refine iff_of_false (panics_ok _) ?_
          rintro ⟨later, shape, _⟩
          obtain ⟨rfl, _⟩ := List.cons.inj shape
          have none : simpleEscape (firstByte 'u') = none := by
            decide
          rw [none] at escape
          cases escape
      | none =>
          simp only
          by_cases unicode : e = 'u'
          · subst unicode
            rw [if_pos rfl]
            simp only [List.cons.injEq, true_and, exists_eq_left', CutsCharacter,
              ← takeBytes_none_iff]
            by_cases short : utf8Len rest < 4
            · rw [if_pos short]
              exact iff_of_false (panics_refuse _)
                (fun both => Nat.not_lt.mpr both.1 short)
            · rw [if_neg short]
              have long : 4 ≤ utf8Len rest := Nat.not_lt.mp short
              cases JsonParser.takeBytes 4 rest with
              | none =>
                  simp [long]
              | some parts =>
                  obtain ⟨hex, later⟩ := parts
                  refine iff_of_false ?_ (by simp)
                  simp only
                  split
                  · exact panics_refuse _
                  · exact panics_ok _
          · rw [if_neg unicode]
            refine iff_of_false (panics_refuse _) ?_
            rintro ⟨later, shape, _⟩
            exact unicode (List.cons.inj shape).1

/-- The decoder panics exactly at such an escape. -/
theorem panics_basicChars
    {fuel : Nat}
    {rest : List Char}
    (enough : rest.length < fuel) :
    Panics (basicChars fuel rest) ↔ StringTrouble rest := by
  induction fuel generalizing rest with
  | zero =>
      exact (Nat.not_lt_zero _ enough).elim
  | succ fuel inductionHypothesis =>
      cases rest with
      | nil =>
          refine iff_of_false (panics_refuse _) ?_
          intro trouble
          cases trouble
      | cons c rest =>
          rw [List.length_cons] at enough
          rw [basicChars]
          by_cases quote : c = '"'
          · subst quote
            refine iff_of_false ?_ ?_
            · rw [if_pos rfl]
              split
              · exact panics_refuse _
              · exact panics_ok _
            · rintro (⟨cuts⟩ | ⟨decoded, trouble⟩ | ⟨notQuote, _, _⟩)
              exact notQuote rfl
          · rw [if_neg quote]
            by_cases backslash : c = '\\'
            · subst backslash
              rw [if_pos rfl, panics_bind, panics_escapeChars]
              constructor
              · rintro (⟨later, rfl, cuts⟩ | ⟨⟨d, later⟩, decoded, panics⟩)
                · exact .here cuts
                · have shorter := escapeChars_shorter decoded
                  rw [panics_map, inductionHypothesis (by omega)] at panics
                  exact .escaped decoded panics
              · rintro (⟨cuts⟩ | ⟨decoded, trouble⟩ | ⟨_, notBackslash, _⟩)
                · exact Or.inl ⟨_, rfl, cuts⟩
                · have shorter := escapeChars_shorter decoded
                  refine Or.inr ⟨_, decoded, ?_⟩
                  rw [panics_map, inductionHypothesis (by omega)]
                  exact trouble
                · exact (notBackslash rfl).elim
            · rw [if_neg backslash, panics_map,
                inductionHypothesis (by omega)]
              constructor
              · intro trouble
                exact .plain quote backslash trouble
              · rintro (⟨cuts⟩ | ⟨decoded, trouble⟩ | ⟨_, _, trouble⟩)
                · exact (backslash rfl).elim
                · exact (backslash rfl).elim
                · exact trouble

/-! ## Numbers -/

/-- A negated number with a radix whose digits stand for the smallest
`i64`. -/
def NumberTrouble (s : List Char) : Prop :=
  ∃ body radix digits, s.filter (· ≠ '_') = '-' :: body ∧
    radixOf body = some (radix, digits) ∧
    fromStrRadix radix digits = .ok Int64.minValue

private theorem panics_mulI64_one (v : Int64) : ¬ Panics (mulI64 1 v) := by
  have low := v.le_toInt
  have high := v.toInt_lt
  have one : (1 : Int64).toInt = 1 := by
    decide
  have fits : -2 ^ 63 ≤ (1 : Int64).toInt * v.toInt ∧
      (1 : Int64).toInt * v.toInt < 2 ^ 63 := by
    rw [one, Int.one_mul]
    exact ⟨low, high⟩
  rw [mulI64, if_pos fits]
  exact panics_ok _

private theorem panics_mulI64_neg (v : Int64) :
    Panics (mulI64 (-1) v) ↔ v = Int64.minValue := by
  have low := v.le_toInt
  have high := v.toInt_lt
  have minus : (-1 : Int64).toInt = -1 := by
    decide
  have smallest : v = Int64.minValue ↔ v.toInt = -2 ^ 63 := by
    constructor
    · rintro rfl
      decide
    · intro same
      apply Int64.toInt_inj.mp
      rw [same]
      decide
  rw [mulI64, minus, smallest]
  split
  · rename_i fits
    refine iff_of_false (panics_ok _) ?_
    omega
  · rename_i outside
    refine iff_of_true (panics_crash _) ?_
    omega

private theorem splitSign_minus
    {cleaned body : List Char}
    {sign : Int64}
    (split : splitSign cleaned = (sign, body)) :
    sign = -1 ∧ cleaned = '-' :: body ∨
      sign = 1 ∧ ∀ other, cleaned ≠ '-' :: other := by
  unfold splitSign at split
  split at split
  · obtain ⟨rfl, rfl⟩ := Prod.mk.inj split
    exact Or.inl ⟨rfl, rfl⟩
  · obtain ⟨rfl, rfl⟩ := Prod.mk.inj split
    exact Or.inr ⟨rfl, by simp⟩
  · rename_i noMinus noPlus
    obtain ⟨rfl, rfl⟩ := Prod.mk.inj split
    exact Or.inr ⟨rfl, noMinus⟩

/-- A number with a radix is a sign times an `i64`. -/
theorem panics_signed
    {sign : Int64}
    {radix : Nat}
    {digits : List Char}
    {message : IntError → String}
    (signs : sign = -1 ∨ sign = 1) :
    Panics
        (match fromStrRadix radix digits with
        | .ok v => (mulI64 sign v).map Json.int
        | .error e => refuse (message e)) ↔
      sign = -1 ∧ fromStrRadix radix digits = .ok Int64.minValue := by
  cases value : fromStrRadix radix digits with
  | error e =>
      simp
  | ok v =>
      rw [panics_map, Except.ok.injEq]
      rcases signs with rfl | rfl
      · simp [panics_mulI64_neg]
      · refine iff_of_false (panics_mulI64_one v) ?_
        rintro ⟨impossible, _⟩
        revert impossible
        decide

private theorem panics_parseNumber
    [F64Ops]
    (s : List Char) :
    Panics (parseNumber s) ↔ NumberTrouble s := by
  obtain ⟨sign, body, split⟩ : ∃ sign body,
      splitSign (s.filter (· ≠ '_')) = (sign, body) :=
    ⟨_, _, rfl⟩
  have signs := splitSign_minus split
  have exact_iff : NumberTrouble s ↔ sign = -1 ∧ ∃ radix digits,
      radixOf body = some (radix, digits) ∧
        fromStrRadix radix digits = .ok Int64.minValue := by
    constructor
    · rintro ⟨other, radix, digits, minus, found⟩
      rcases signs with ⟨isMinus, shape⟩ | ⟨_, never⟩
      · rw [shape] at minus
        obtain ⟨_, rfl⟩ := List.cons.inj minus
        exact ⟨isMinus, radix, digits, found⟩
      · exact (never other minus).elim
    · rintro ⟨isMinus, radix, digits, found⟩
      rcases signs with ⟨_, shape⟩ | ⟨isOne, _⟩
      · exact ⟨body, radix, digits, shape, found⟩
      · exact absurd (isMinus.symm.trans isOne) (by decide)
  rw [exact_iff]
  unfold parseNumber
  simp only [split]
  cases radixOf body with
  | none =>
      simp only [reduceCtorEq, false_and, exists_false, and_false, iff_false]
      cases parseI64Chars (s.filter (· ≠ '_')) with
      | some i => exact panics_ok _
      | none =>
          simp only
          cases F64Ops.parse (s.filter (· ≠ '_')) with
          | some f => exact panics_ok _
          | none => exact panics_refuse _
  | some parts =>
      obtain ⟨radix, digits⟩ := parts
      refine Iff.trans (panics_signed (signs.imp And.left And.left)) ?_
      simp

/-! ## Values -/

section Values

variable [F64Ops]

/-- In the text of a value the reader comes to one of the three. -/
inductive ValueTrouble : List Char → Prop where
  | string {s rest : List Char}
      (shape : s = '"' :: rest)
      (trouble : StringTrouble rest) :
      ValueTrouble s
  | number {s : List Char}
      (trouble : NumberTrouble s) :
      ValueTrouble s
  | brackets {s inner : List Char}
      (shape : s = '[' :: (inner ++ [']']))
      (trouble : Overdeep inner) :
      ValueTrouble s
  | item {s inner t : List Char} {pieces earlier later : List (List Char)}
      (shape : s = '[' :: (inner ++ [']']))
      (cut : splitTopLevel inner = .ok pieces)
      (items : itemTexts pieces = earlier ++ t :: later)
      (accepted : ∀ other ∈ earlier, ∃ v, readValue other = .ok v)
      (trouble : ValueTrouble t) :
      ValueTrouble s

omit [F64Ops] in
/-- The characters that such a number can start with. -/
theorem NumberTrouble.head
    {s : List Char}
    (trouble : NumberTrouble s) :
    s.head? = some '-' ∨ s.head? = some '_' := by
  obtain ⟨body, radix, digits, cleaned, _⟩ := trouble
  cases s with
  | nil =>
      simp at cleaned
  | cons c s =>
      by_cases underscore : c = '_'
      · simp [underscore]
      · rw [List.filter_cons_of_pos (by simpa using underscore)] at cleaned
        obtain ⟨rfl, _⟩ := List.cons.inj cleaned
        exact Or.inl rfl

omit [F64Ops] in
private theorem NumberTrouble.head_ne
    {s : List Char}
    (trouble : NumberTrouble s)
    {c : Char}
    (other : c ≠ '-' ∧ c ≠ '_') :
    s.head? ≠ some c := by
  intro starts
  rcases trouble.head with minus | underscore
  · rw [starts] at minus
    exact other.1 (Option.some.inj minus)
  · rw [starts] at underscore
    exact other.2 (Option.some.inj underscore)

omit [F64Ops] in
/-- The inside of a literal string is cut off without a panic. -/
theorem slice_literal
    {s : List Char}
    (starts : s.head? = some '\'')
    (closed : ¬ (s.getLast? ≠ some '\'' ∨ utf8Len s < 2)) :
    ∃ inner, slice s 1 (utf8Len s - 1) = .ok inner := by
  rw [not_or, ne_eq, not_not, Nat.not_lt] at closed
  have quoted : quotedBy '\'' s = true := by
    simp [quotedBy, starts, closed.1, closed.2]
  obtain ⟨inner, rfl⟩ := (quotedBy_iff (by decide) s).mp quoted
  exact ⟨inner, slice_between (by decide) (by decide) inner⟩

omit [F64Ops] in
/-- A string that starts with a second quote is decoded no further. -/
theorem StringTrouble.head_ne
    {rest : List Char}
    (trouble : StringTrouble rest) :
    rest.head? ≠ some '"' := by
  cases trouble with
  | here cuts => simp
  | escaped decoded trouble => simp
  | plain notQuote notBackslash trouble => simpa using notQuote

/-- A value that is not an array. -/
theorem panics_scalar
    {s : List Char}
    (scalar : s.head? ≠ some '[') :
    Panics (readValue s) ↔ ValueTrouble s := by
  have shapes : ValueTrouble s ↔
      (∃ rest, s = '"' :: rest ∧ StringTrouble rest) ∨ NumberTrouble s := by
    constructor
    · rintro (⟨shape, trouble⟩ | ⟨trouble⟩ | ⟨rfl, _⟩ | ⟨rfl, _, _, _, _⟩)
      · exact Or.inl ⟨_, shape, trouble⟩
      · exact Or.inr trouble
      · exact (scalar rfl).elim
      · exact (scalar rfl).elim
    · rintro (⟨rest, shape, trouble⟩ | trouble)
      · exact .string shape trouble
      · exact .number trouble
  rw [shapes, readValue, parseValue]
  simp only [scalar, ↓reduceIte]
  split_ifs with blank triple inline basic literal closed yes no
  · rw [List.isEmpty_iff] at blank
    subst blank
    refine iff_of_false (panics_refuse _) ?_
    rintro (⟨rest, shape, _⟩ | trouble)
    · cases shape
    · simpa using trouble.head
  · refine iff_of_false (panics_refuse _) ?_
    rintro (⟨rest, rfl, trouble⟩ | trouble)
    · rcases triple with ⟨later, shape⟩ | ⟨later, shape⟩
      · obtain ⟨_, rfl⟩ := List.cons.inj shape
        exact trouble.head_ne rfl
      · cases shape
    · rcases triple with ⟨later, rfl⟩ | ⟨later, rfl⟩
      · exact trouble.head_ne (by decide) rfl
      · exact trouble.head_ne (by decide) rfl
  · refine iff_of_false (panics_refuse _) ?_
    rintro (⟨rest, rfl, _⟩ | trouble)
    · simp at inline
    · exact trouble.head_ne (by decide) inline
  · cases s with
    | nil =>
        cases basic
    | cons c rest =>
        simp only [List.head?_cons, Option.some.injEq] at basic
        subst basic
        rw [panics_map, parseBasicString_eq, panics_map,
          panics_basicChars (Nat.lt_succ_self _)]
        constructor
        · intro trouble
          exact Or.inl ⟨rest, rfl, trouble⟩
        · rintro (⟨rest', shape, trouble⟩ | trouble)
          · obtain ⟨_, rfl⟩ := List.cons.inj shape
            exact trouble
          · exact (trouble.head_ne (by decide) rfl).elim
  · refine iff_of_false (panics_refuse _) ?_
    rintro (⟨rest, rfl, _⟩ | trouble)
    · simp at literal
    · exact trouble.head_ne (by decide) literal
  · obtain ⟨inner, cut⟩ := slice_literal literal closed
    rw [cut]
    refine iff_of_false (panics_ok _) ?_
    rintro (⟨rest, rfl, _⟩ | trouble)
    · simp at literal
    · exact trouble.head_ne (by decide) literal
  · subst yes
    refine iff_of_false (panics_ok _) ?_
    rintro (⟨rest, shape, _⟩ | trouble)
    · cases shape
    · exact trouble.head_ne (by decide) rfl
  · subst no
    refine iff_of_false (panics_ok _) ?_
    rintro (⟨rest, shape, _⟩ | trouble)
    · cases shape
    · exact trouble.head_ne (by decide) rfl
  · rw [panics_parseNumber]
    constructor
    · intro trouble
      exact Or.inr trouble
    · rintro (⟨rest, rfl, _⟩ | trouble)
      · exact (basic rfl).elim
      · exact trouble

/-- `parse_value` panics exactly where it comes to one of the three. -/
theorem panics_readValue (s : List Char) :
    Panics (readValue s) ↔ ValueTrouble s := by
  induction size : s.length using Nat.strongRecOn generalizing s with
  | ind size inductionHypothesis =>
      subst size
      by_cases starts : s.head? = some '['
      · by_cases ends : s.getLast? = some ']'
        · obtain ⟨inner, rfl⟩ := bracketed_of_ends starts ends
          have further (t : List Char) (short : t.length ≤ inner.length) :
              Panics (readValue t) ↔ ValueTrouble t := by
            refine inductionHypothesis _ ?_ t rfl
            simp only [List.length_cons, List.length_append]
            omega
          rw [readValue_array, readArray, panics_bind, panics_splitTopLevel]
          constructor
          · rintro (overdeep | ⟨pieces, cut, panics⟩)
            · exact .brackets rfl overdeep
            · rw [panics_bind, panics_mapM] at panics
              rcases panics with
                ⟨earlier, t, later, items, accepted, panics⟩ | ⟨_, _, never⟩
              · have short := itemTexts_shorter cut t (by simp [items])
                exact .item rfl cut items accepted
                  ((further t short).mp panics)
              · exact (panics_ok _ never).elim
          · rintro (⟨shape, _⟩ | ⟨trouble⟩ | ⟨shape, trouble⟩ |
              ⟨shape, cut, items, accepted, trouble⟩)
            · cases shape
            · exact (trouble.head_ne (by decide) rfl).elim
            · obtain rfl := List.append_cancel_right (List.cons.inj shape).2
              exact Or.inl trouble
            · obtain rfl := List.append_cancel_right (List.cons.inj shape).2
              refine Or.inr ⟨_, cut, ?_⟩
              rw [panics_bind, panics_mapM]
              have short := itemTexts_shorter cut _
                (items ▸ List.mem_append_right _ List.mem_cons_self)
              exact Or.inl ⟨_, _, _, items, accepted,
                (further _ short).mpr trouble⟩
        · have refused : readValue s =
              refuse "unterminated array: the brackets do not balance" := by
            cases s with
            | nil =>
                cases starts
            | cons c rest =>
                simp only [List.head?_cons, Option.some.injEq] at starts
                subst starts
                rw [readValue, parseValue]
                simp [ends]
          rw [refused]
          refine iff_of_false (panics_refuse _) ?_
          rintro (⟨rfl, _⟩ | ⟨trouble⟩ | ⟨rfl, _⟩ | ⟨rfl, _, _, _, _⟩)
          · simp at starts
          · exact trouble.head_ne (by decide) starts
          · exact ends (getLast_brackets _)
          · exact ends (getLast_brackets _)
      · exact panics_scalar starts

/-! ## Lines -/

omit [F64Ops] in
/-- A key is refused only if there is none. -/
theorem unquoteKey_cases (k : List Char) :
    (k = [] ∧ unquoteKey k = refuse "empty key") ∨
      k ≠ [] ∧ ∃ key, unquoteKey k = .ok key := by
  by_cases basic : ∃ inner, k = '"' :: (inner ++ ['"'])
  · obtain ⟨inner, rfl⟩ := basic
    exact Or.inr ⟨by simp, _, unquoteKey_quoted (Or.inl rfl) inner⟩
  · by_cases literal : ∃ inner, k = '\'' :: (inner ++ ['\''])
    · obtain ⟨inner, rfl⟩ := literal
      exact Or.inr ⟨by simp, _, unquoteKey_quoted (Or.inr rfl) inner⟩
    · rw [unquoteKey_plain (fun inner shape => basic ⟨inner, shape⟩)
        (fun inner shape => literal ⟨inner, shape⟩)]
      by_cases blank : k = []
      · simp [blank]
      · simp [blank]

omit [F64Ops] in
private theorem panics_unquoteKey (k : List Char) : ¬ Panics (unquoteKey k) := by
  rcases unquoteKey_cases k with ⟨_, refused⟩ | ⟨_, key, read⟩
  · rw [refused]
    exact panics_refuse _
  · rw [read]
    exact panics_ok _

omit [F64Ops] in
private theorem panics_splitKeyPath (s : List Char) : ¬ Panics (splitKeyPath s) := by
  rw [splitKeyPath, panics_mapM]
  rintro ⟨earlier, part, later, _, _, panics⟩
  rw [keySegment] at panics
  split at panics
  · exact panics_refuse _ panics
  · exact panics_unquoteKey _ panics

/-- A line that sets a key to a value in which the reader panics. -/
def LineTrouble (line : List Char) : Prop :=
  line.head? ≠ some '[' ∧
    ∃ before after, splitOnceChars '=' line = some (before, after) ∧
      trimChars before ≠ [] ∧ ValueTrouble (trimChars after)

/-- A header is read without a panic. -/
theorem panics_header
    {line : List Char}
    (starts : line.head? = some '[')
    (doc : Document)
    (lineno : Nat) :
    ¬ Panics (readLine doc lineno line) := by
  have steps
      (path : Guarded (List String))
      (noPanic : ¬ Panics path)
      (change : List String → Except String Json) :
      ¬ Panics (do
        let path ← path
        let root ← locateChange lineno (change path)
        return (⟨root, path⟩ : Document)) := by
    rw [panics_bind]
    rintro (panics | ⟨segments, _, panics⟩)
    · exact noPanic panics
    · rw [panics_bind] at panics
      rcases panics with panics | ⟨root, _, panics⟩
      · exact panics_locateChange _ _ panics
      · exact panics_ok _ panics
  by_cases double : "[[".toList <+: line
  · by_cases ends : "]]".toList <:+ line
    · obtain ⟨inner, rfl⟩ := double_brackets double ends
      rw [readLine_tables]
      exact steps _ (panics_splitKeyPath inner) _
    · rw [readLine, if_pos double, if_pos ends]
      exact panics_refused _
  · by_cases ends : line.getLast? = some ']'
    · obtain ⟨inner, rfl⟩ := bracketed_of_ends starts ends
      have single : inner.head? ≠ some '[' := by
        cases inner with
        | nil =>
            simp
        | cons c inner =>
            simp only [List.head?_cons, ne_eq, Option.some.injEq]
            rintro rfl
            exact double ⟨inner ++ [']'], rfl⟩
      rw [readLine_table single]
      exact steps _ (panics_splitKeyPath inner) _
    · rw [readLine, if_neg double, if_pos starts, if_pos ends]
      exact panics_refused _

private theorem panics_readLine
    (doc : Document)
    (lineno : Nat)
    (line : List Char) :
    Panics (readLine doc lineno line) ↔ LineTrouble line := by
  by_cases starts : line.head? = some '['
  · exact iff_of_false (panics_header starts doc lineno)
      (fun trouble => trouble.1 starts)
  · cases cut : splitOnceChars '=' line with
    | none =>
        have notDouble : ¬ "[[".toList <+: line := by
          rintro ⟨rest, rfl⟩
          exact starts rfl
        have missing : findChar '=' line = none := by
          rw [findChar_eq, cut]
          rfl
        rw [readLine, if_neg notDouble, if_neg starts, missing]
        refine iff_of_false (panics_refused _) ?_
        rintro ⟨_, before, after, found, _⟩
        rw [cut] at found
        cases found
    | some parts =>
        obtain ⟨before, after⟩ := parts
        rw [readLine_assignment starts cut, panics_bind]
        constructor
        · rintro (panics | ⟨key, read, panics⟩)
          · exact (panics_unquoteKey _ panics).elim
          · refine ⟨starts, before, after, cut, ?_, ?_⟩
            · intro blank
              rw [blank] at read
              cases read
            · rw [panics_bind, panics_locate, panics_readValue] at panics
              rcases panics with trouble | ⟨value, _, panics⟩
              · exact trouble
              · rw [panics_bind] at panics
                rcases panics with panics | ⟨root, _, panics⟩
                · exact (panics_locateChange _ _ panics).elim
                · exact (panics_ok _ panics).elim
        · rintro ⟨_, before', after', same, named, trouble⟩
          rw [cut] at same
          obtain ⟨rfl, rfl⟩ := Prod.mk.inj (Option.some.inj same)
          rcases unquoteKey_cases (trimChars before) with
            ⟨blank, _⟩ | ⟨_, key, read⟩
          · exact (named blank).elim
          · refine Or.inr ⟨key, read, ?_⟩
            rw [panics_bind, panics_locate, panics_readValue]
            exact Or.inl trouble

private theorem panics_readLines
    (doc : Document)
    (numbered : List (Nat × List Char)) :
    Panics (readLines doc numbered) ↔
      ∃ earlier lineno line later now,
        numbered = earlier ++ (lineno, line) :: later ∧
        readLines doc earlier = .ok now ∧ LineTrouble line := by
  induction numbered generalizing doc with
  | nil =>
      refine iff_of_false (panics_ok _) ?_
      rintro ⟨earlier, lineno, line, later, now, shape, _⟩
      simp at shape
  | cons entry numbered inductionHypothesis =>
      obtain ⟨first, text⟩ := entry
      rw [readLines, panics_bind, panics_readLine]
      constructor
      · rintro (trouble | ⟨next, read, panics⟩)
        · exact ⟨[], first, text, numbered, doc, rfl, rfl, trouble⟩
        · obtain ⟨earlier, lineno, line, later, now, rfl, accepted, trouble⟩ :=
            (inductionHypothesis next).mp panics
          refine ⟨(first, text) :: earlier, lineno, line, later, now, rfl, ?_,
            trouble⟩
          rw [readLines, read]
          exact accepted
      · rintro ⟨earlier, lineno, line, later, now, shape, accepted, trouble⟩
        cases earlier with
        | nil =>
            obtain ⟨same, rfl⟩ := List.cons.inj shape
            obtain ⟨rfl, rfl⟩ := Prod.mk.inj same
            exact Or.inl trouble
        | cons other earlier =>
            obtain ⟨rfl, rfl⟩ := List.cons.inj shape
            rw [readLines] at accepted
            cases read : readLine doc first text with
            | error fault =>
                rw [read] at accepted
                cases accepted
            | ok next =>
                rw [read] at accepted
                exact Or.inr ⟨next, rfl, (inductionHypothesis next).mpr
                  ⟨earlier, lineno, line, later, now, rfl, accepted, trouble⟩⟩

end Values

/-! ## Joining lines -/

private theorem panics_close (joined : Pending) :
    Panics (close joined) ↔ Overdeep joined.joined := by
  rw [close, panics_bind, panics_bracketDepth]
  constructor
  · rintro (overdeep | ⟨depth, _, panics⟩)
    · exact overdeep
    · split at panics
      · exact (panics_ok _ panics).elim
      · exact (panics_ok _ panics).elim
  · exact Or.inl

/-- While physical lines are joined, a text whose brackets are counted has
more of them than an `i32` counts. -/
inductive JoinTrouble : Option Pending → Nat → List (List Char) → Prop where
  | here {pending : Option Pending} {i : Nat} {line : List Char}
      {rest : List (List Char)} {joined : Pending}
      (counted : measured pending i line = some joined)
      (overdeep : Overdeep joined.joined) :
      JoinTrouble pending i (line :: rest)
  | later {pending next : Option Pending} {i : Nat} {line : List Char}
      {rest : List (List Char)} {out : List (Nat × List Char)}
      (folded : foldLine pending i line = .ok (next, out))
      (trouble : JoinTrouble next (i + 1) rest) :
      JoinTrouble pending i (line :: rest)

private theorem panics_foldLine
    (pending : Option Pending)
    (i : Nat)
    (line : List Char) :
    Panics (foldLine pending i line) ↔
      ∃ joined, measured pending i line = some joined ∧
        Overdeep joined.joined := by
  rw [foldLine_eq]
  cases measured pending i line with
  | none => simp
  | some joined => simp [panics_close]

theorem panics_foldLines
    (pending : Option Pending)
    (i : Nat)
    (physical : List (List Char)) :
    Panics (foldLines pending i physical) ↔
      JoinTrouble pending i physical := by
  induction physical generalizing pending i with
  | nil =>
      refine iff_of_false ?_ ?_
      · cases pending with
        | none => exact panics_ok _
        | some p => exact panics_refuse _
      · intro trouble
        cases trouble
  | cons line rest inductionHypothesis =>
      rw [foldLines, panics_bind, panics_foldLine]
      constructor
      · rintro (⟨joined, counted, overdeep⟩ | ⟨⟨next, out⟩, folded, panics⟩)
        · exact .here counted overdeep
        · rw [panics_bind, inductionHypothesis] at panics
          rcases panics with trouble | ⟨more, _, panics⟩
          · exact .later folded trouble
          · exact (panics_ok _ panics).elim
      · rintro (⟨counted, overdeep⟩ | ⟨folded, trouble⟩)
        · exact Or.inl ⟨_, counted, overdeep⟩
        · refine Or.inr ⟨_, folded, ?_⟩
          rw [panics_bind, inductionHypothesis]
          exact Or.inl trouble

/-! ## Texts -/

/-- Reading the text comes to a `\u` escape that cuts a character, to a
negated smallest `i64`, or to brackets that no `i32` counts. -/
def Trouble [F64Ops] (text : List Char) : Prop :=
  JoinTrouble none 0 (linesFrom [] text) ∨
    ∃ earlier lineno line later now,
      logicalLines text = .ok (earlier ++ (lineno, line) :: later) ∧
      readLines ⟨.obj [], []⟩ earlier = .ok now ∧ LineTrouble line

private theorem panics_parse
    [F64Ops]
    (text : List Char) :
    Panics (parse text) ↔ Trouble text := by
  rw [parse, panics_bind, logicalLines, panics_foldLines, Trouble]
  refine or_congr Iff.rfl ?_
  constructor
  · rintro ⟨numbered, joined, panics⟩
    rw [panics_bind, panics_readLines] at panics
    rcases panics with
      ⟨earlier, lineno, line, later, now, rfl, accepted, trouble⟩ |
      ⟨doc, _, panics⟩
    · exact ⟨earlier, lineno, line, later, now, joined, accepted, trouble⟩
    · exact (panics_ok _ panics).elim
  · rintro ⟨earlier, lineno, line, later, now, joined, accepted, trouble⟩
    refine ⟨_, joined, ?_⟩
    rw [panics_bind, panics_readLines]
    exact Or.inl
      ⟨earlier, lineno, line, later, now, rfl, accepted, trouble⟩

/-- The reader returns: a value or an error. -/
def Returns {α : Type} (run : Guarded α) : Prop :=
  (∃ a, run = .ok a) ∨ ∃ e, run = .error (.refused e)

instance {α : Type} (run : Guarded α) : Decidable (Returns run) :=
  match run with
  | .ok a => .isTrue (.inl ⟨a, rfl⟩)
  | .error (.refused e) => .isTrue (.inr ⟨e, rfl⟩)
  | .error (.panicked _) => .isFalse (by simp [Returns])

private theorem returns_iff
    {α : Type}
    (run : Guarded α) :
    Returns run ↔ ¬ Panics run := by
  match run with
  | .ok a => simp [Returns]
  | .error (.refused e) => simp [Returns]
  | .error (.panicked p) => simp [Returns, Panics]

/--
The reader returns a value or an error for a text exactly when reading it does
not come to one of the three places where it panics.
-/
theorem parse_returns_iff
    [F64Ops]
    (text : List Char) :
    Returns (parse text) ↔ ¬ Trouble text := by
  rw [returns_iff, panics_parse]

example : ¬ Returns (@parse unitOps "k = -0x-8000000000000000".toList) := by
  decide +kernel

/-- A `\u` escape of which only three digits are there. -/
def cutEscape : List Char :=
  "k = \"\\u123é\"".toList

theorem escape_inside_character_panics :
    ¬ ∀ [F64Ops] (text : List Char), Returns (parse text) := by
  intro always
  have returns := @always unitOps cutEscape
  revert returns
  decide +kernel

end Toml

end Myrun
