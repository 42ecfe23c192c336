import Myrun.Json

namespace Myrun

/-!
# Numerals of a document

A number that is not an integer of 64 bits stands in the tree as a binary64
number.  Every one that the parser returns was read from a numeral, with
`numberValue`.
-/

namespace Json

mutual

/-- The numbers of a document that are not integers of 64 bits. -/
def floats : Json → List F64
  | float f => [f]
  | arr items => itemFloats items
  | obj members => memberFloats members
  | _ => []

/-- Those of the items of an array. -/
def itemFloats : List Json → List F64
  | [] => []
  | item :: rest => item.floats ++ itemFloats rest

/-- Those of the members of an object. -/
def memberFloats : List (String × Json) → List F64
  | [] => []
  | (_, v) :: rest => v.floats ++ memberFloats rest

end

private theorem mem_floats_of_findMember
    {key : String}
    {members : List (String × Json)}
    {v : Json}
    (found : findMember key members = some v)
    {f : F64}
    (member : f ∈ v.floats) :
    f ∈ memberFloats members := by
  induction members with
  | nil =>
      cases found
  | cons first rest inductionHypothesis =>
      obtain ⟨k, value⟩ := first
      rw [findMember] at found
      rw [memberFloats, List.mem_append]
      split at found
      · cases found
        exact .inl member
      · exact .inr (inductionHypothesis found)

/-- The numbers of a member are numbers of the object. -/
theorem mem_floats_of_get
    {v part : Json}
    {key : String}
    (found : v.get key = some part)
    {f : F64}
    (member : f ∈ part.floats) :
    f ∈ v.floats := by
  cases v with
  | obj members =>
      exact mem_floats_of_findMember found member
  | null | bool | int | float | str | arr =>
      cases found

end Json

namespace JsonParser

private theorem floats_of_literal
    {input rest rest' : List Char}
    {word : String}
    {expected v : Json}
    (noFloats : expected.floats = [])
    (parsed : literal input word expected rest = .ok (v, rest')) :
    v.floats = [] := by
  unfold literal at parsed
  split at parsed
  · cases parsed
    exact noFloats
  · cases parsed

section Read

variable [F64Ops]

/-- A number that was read from a numeral. -/
def IsRead (f : F64) : Prop :=
  ∃ numeral, numberValue numeral = .ok (.float f)

private theorem isRead_of_number
    {input rest rest' : List Char}
    {v : Json}
    (parsed : number input rest = .ok (v, rest')) :
    ∀ f ∈ v.floats, IsRead f := by
  unfold number at parsed
  simp only at parsed
  split at parsed
  · cases parsed
  · obtain ⟨value, isValue, same⟩ := Result.bind_eq_ok.mp parsed
    cases same
    intro f member
    refine ⟨numberText rest, ?_⟩
    cases v with
    | float g =>
        rw [List.mem_singleton.mp member]
        exact isValue
    | null | bool | int | str =>
        simp [Json.floats] at member
    | arr | obj =>
        unfold numberValue at isValue
        grind

/-- Every number that the functions of the parser return was read. -/
structure FloatsRead (input : List Char) (fuel : Nat) : Prop where
  ofValue : ∀ rest v rest', value input fuel rest = .ok (v, rest') →
    ∀ f ∈ v.floats, IsRead f
  ofObject : ∀ rest members rest',
    objectLoop input fuel rest = .ok (members, rest') →
      ∀ f ∈ Json.memberFloats members, IsRead f
  ofArray : ∀ rest items rest', arrayLoop input fuel rest = .ok (items, rest') →
    ∀ f ∈ Json.itemFloats items, IsRead f

private theorem FloatsRead.value
    {input rest rest' : List Char}
    {fuel : Nat}
    (read : FloatsRead input fuel)
    {v : Json}
    (parsed : JsonParser.value input (fuel + 1) rest = .ok (v, rest')) :
    ∀ f ∈ v.floats, IsRead f := by
  unfold JsonParser.value at parsed
  split at parsed
  · cases parsed
  · split at parsed
    · cases parsed
      simp [Json.floats, Json.memberFloats]
    · obtain ⟨⟨members, rest''⟩, isObject, same⟩ :=
        Result.bind_eq_ok.mp parsed
      cases same
      exact read.ofObject _ _ _ isObject
  · split at parsed
    · cases parsed
      simp [Json.floats, Json.itemFloats]
    · obtain ⟨⟨items, rest''⟩, isArray, same⟩ := Result.bind_eq_ok.mp parsed
      cases same
      exact read.ofArray _ _ _ isArray
  · obtain ⟨⟨s, rest''⟩, _, same⟩ := Result.bind_eq_ok.mp parsed
    cases same
    simp [Json.floats]
  · simp [floats_of_literal rfl parsed]
  · simp [floats_of_literal rfl parsed]
  · simp [floats_of_literal rfl parsed]
  · exact isRead_of_number parsed

private theorem FloatsRead.object
    {input rest rest' : List Char}
    {fuel : Nat}
    (read : FloatsRead input fuel)
    {members : List (String × Json)}
    (parsed : objectLoop input (fuel + 1) rest = .ok (members, rest')) :
    ∀ f ∈ Json.memberFloats members, IsRead f := by
  rw [objectLoop] at parsed
  split at parsed
  · obtain ⟨⟨key, afterKey⟩, _, parsed⟩ := Result.bind_eq_ok.mp parsed
    simp only at parsed
    split at parsed
    · obtain ⟨⟨v, afterValue⟩, isValue, parsed⟩ := Result.bind_eq_ok.mp parsed
      have here := read.ofValue _ _ _ isValue
      simp only at parsed
      split at parsed
      · obtain ⟨⟨others, rest''⟩, isObject, same⟩ :=
          Result.bind_eq_ok.mp parsed
        cases same
        intro f member
        rcases List.mem_append.mp member with first | later
        · exact here f first
        · exact read.ofObject _ _ _ isObject f later
      · cases parsed
        simpa [Json.memberFloats] using here
      · cases parsed
    · cases parsed
  · cases parsed

private theorem FloatsRead.array
    {input rest rest' : List Char}
    {fuel : Nat}
    (read : FloatsRead input fuel)
    {items : List Json}
    (parsed : arrayLoop input (fuel + 1) rest = .ok (items, rest')) :
    ∀ f ∈ Json.itemFloats items, IsRead f := by
  rw [arrayLoop] at parsed
  obtain ⟨⟨v, afterValue⟩, isValue, parsed⟩ := Result.bind_eq_ok.mp parsed
  have here := read.ofValue _ _ _ isValue
  simp only at parsed
  split at parsed
  · obtain ⟨⟨others, rest''⟩, isArray, same⟩ := Result.bind_eq_ok.mp parsed
    cases same
    intro f member
    rcases List.mem_append.mp member with first | later
    · exact here f first
    · exact read.ofArray _ _ _ isArray f later
  · cases parsed
    simpa [Json.itemFloats] using here
  · cases parsed

/-- The parser invents no number. -/
theorem floatsRead
    (input : List Char)
    (fuel : Nat) :
    FloatsRead input fuel := by
  induction fuel with
  | zero =>
      refine ⟨?_, ?_, ?_⟩
      · intro rest v rest' parsed
        rw [value] at parsed
        cases parsed
      · intro rest members rest' parsed
        rw [objectLoop] at parsed
        cases parsed
      · intro rest items rest' parsed
        rw [arrayLoop] at parsed
        cases parsed
  | succ fuel inductionHypothesis =>
      exact ⟨fun _ _ _ => inductionHypothesis.value,
        fun _ _ _ => inductionHypothesis.object,
        fun _ _ _ => inductionHypothesis.array⟩

end Read

end JsonParser

/-- Every number that the parser returns was read from a numeral. -/
theorem isRead_of_parseJson [F64Ops]
    {text : String}
    {doc : Json}
    (parsed : parseJson text = .ok doc)
    {f : F64}
    (member : f ∈ doc.floats) :
    JsonParser.IsRead f := by
  unfold parseJson at parsed
  simp only at parsed
  obtain ⟨⟨v, rest⟩, isValue, parsed⟩ := Result.bind_eq_ok.mp parsed
  simp only at parsed
  split at parsed
  · cases parsed
    exact (JsonParser.floatsRead _ _).ofValue _ _ _ isValue f member
  · cases parsed

end Myrun
