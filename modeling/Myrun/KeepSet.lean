import Mathlib.Data.List.Nodup
import Myrun.Capability

namespace Myrun

/-!
# What a keep set keeps

A mask stands for the set of capabilities whose bits are set. The loops of
`resolve_keep_set` then add and remove the capabilities their entries name,
and what is left of the order of the entries is nothing. A dropped `all` skips
two of the loops, and with them the check of the names they read.
-/

/-! ## Masks as sets -/

/-- Bit `v` of a mask is set. -/
def holds (mask : UInt64) (v : Nat) : Bool :=
  mask.toBitVec.getLsbD v

@[simp] theorem holds_zero (v : Nat) : holds 0 v = false := by
  simp [holds]

@[simp] theorem holds_or (mask other : UInt64) (v : Nat) :
    holds (mask ||| other) v = (holds mask v || holds other v) := by
  simp [holds]

@[simp] theorem holds_andNot (mask other : UInt64) (v : Nat) :
    holds (mask &&& ~~~other) v = (holds mask v && !holds other v) := by
  rcases Nat.lt_or_ge v 64 with inside | outside
  · simp [holds, inside]
  · simp [holds, outside]

/-- Two masks with the same bits are equal. -/
theorem eq_of_holds_eq
    {mask other : UInt64}
    (same : ∀ v, holds mask v = holds other v) :
    mask = other := by
  apply UInt64.toBitVec_inj.mp
  apply BitVec.eq_of_getLsbD_eq
  intro v _
  exact same v

/-- The bit of a capability below 64. -/
theorem holds_capBit
    {v : Nat}
    (small : v < 64)
    (w : Nat) :
    holds (capBit (UInt64.ofNat v)) w = decide (w = v) := by
  have shifted :
      (capBit (UInt64.ofNat v)).toBitVec = BitVec.twoPow 64 v := by
    apply BitVec.eq_of_toNat_eq
    have inside : v % 18446744073709551616 = v := by omega
    simp [capBit, BitVec.toNat_twoPow, Nat.shiftLeft_eq, inside,
      Nat.mod_eq_of_lt small]
  unfold holds
  rw [shifted, BitVec.getLsbD_twoPow]
  rcases Nat.lt_trichotomy w v with lower | rfl | higher
  · simp [show ¬ v = w by omega, show ¬ w = v by omega]
  · simp [small]
  · simp [show ¬ v = w by omega, show ¬ w = v by omega]

/-- The mask of the whole table holds its 41 capabilities. -/
theorem holds_allCaps (v : Nat) :
    holds allCaps v = decide (v < capNames.length) := by
  rcases Nat.lt_or_ge v 64 with inside | outside
  · have each :
        ∀ w < 64, holds allCaps w = decide (w < capNames.length) := by
      decide +kernel
    exact each v inside
  · have large : ¬ v < capNames.length := by
      have size : capNames.length = 41 := rfl
      omega
    simp [holds, outside, large]

/-! ## Names -/

/--
A string names a capability: in any case, with blanks around it, with or
without `CAP_`.
-/
def NamesCap (s : String) (v : Nat) : Prop :=
  ∃ name,
    capNames[v]? = some name ∧
      (toAsciiUppercase (trim s) = name ∨
        toAsciiUppercase (trim s) = "CAP_" ++ name)

/-- The word that stands for every capability in `--cap-add` and `--cap-drop`. -/
def IsAll (s : String) : Prop :=
  eqIgnoreAsciiCase s "all" = true

instance (s : String) : Decidable (IsAll s) :=
  inferInstanceAs (Decidable (_ = true))

/-- A string names some capability. -/
def KnownCap (s : String) : Prop :=
  ∃ v, NamesCap s v

/-- Some entry of a list names the capability. -/
def ListNames (entries : List String) (v : Nat) : Prop :=
  ∃ s ∈ entries, NamesCap s v

/-- Some entry of a list is the word `all`. -/
def ListAll (entries : List String) : Prop :=
  ∃ s ∈ entries, IsAll s

/-- A named capability is one of the table. -/
theorem NamesCap.lt
    {s : String}
    {v : Nat}
    (named : NamesCap s v) :
    v < capNames.length := by
  obtain ⟨name, found, _⟩ := named
  exact (List.getElem?_eq_some_iff.mp found).1

/-- Looking up a key in a list of pairs without repeated keys. -/
theorem find?_key_eq_some_iff
    {α : Type}
    {entries : List (String × α)}
    (distinct : (entries.map Prod.fst).Nodup)
    {key : String}
    {entry : String × α} :
    (entries.find? fun e => e.1 = key) = some entry ↔
      entry ∈ entries ∧ entry.1 = key := by
  induction entries with
  | nil => simp
  | cons head rest inductionHypothesis =>
      rw [List.map_cons, List.nodup_cons] at distinct
      rw [List.find?_cons]
      by_cases hit : head.1 = key
      · simp only [hit, decide_true, Option.some.injEq]
        constructor
        · rintro rfl
          exact ⟨List.mem_cons_self, hit⟩
        · rintro ⟨member, same⟩
          rcases List.mem_cons.mp member with rfl | later
          · rfl
          · have repeated : head.1 ∈ rest.map Prod.fst := by
              rw [hit, ← same]
              exact List.mem_map_of_mem later
            exact absurd repeated distinct.1
      · simp only [hit, decide_false]
        rw [inductionHypothesis distinct.2]
        constructor
        · rintro ⟨member, same⟩
          exact ⟨List.mem_cons_of_mem _ member, same⟩
        · rintro ⟨member, same⟩
          rcases List.mem_cons.mp member with rfl | later
          · exact absurd same hit
          · exact ⟨later, same⟩

/-- An entry of the table is a name with its place. -/
theorem mem_capTable_iff
    {name : String}
    {value : UInt64} :
    (name, value) ∈ capTable ↔
      ∃ v, capNames[v]? = some name ∧ value = UInt64.ofNat v := by
  unfold capTable
  simp only [List.mem_map, Prod.mk.injEq, Prod.exists]
  constructor
  · rintro ⟨name', v, member, rfl, rfl⟩
    exact ⟨v, List.mem_zipIdx_iff_getElem?.mp member, rfl⟩
  · rintro ⟨v, found, rfl⟩
    exact ⟨name, v, List.mem_zipIdx_iff_getElem?.mpr found, rfl, rfl⟩

theorem stripPrefixChars_eq_some_iff
    {leading cs rest : List Char} :
    stripPrefixChars leading cs = some rest ↔ cs = leading ++ rest := by
  induction leading generalizing cs with
  | nil => simp [stripPrefixChars, eq_comm]
  | cons p ps inductionHypothesis =>
      cases cs with
      | nil => simp [stripPrefixChars]
      | cons c cs =>
          by_cases same : p = c
          · simp [stripPrefixChars, same, inductionHypothesis]
          · simp [stripPrefixChars, same, Ne.symm same]

/-- No name of the table begins with `CAP_`. -/
theorem strip_capNames :
    ∀ name ∈ capNames, stripLeading "CAP_" name = none := by
  decide +kernel

/-- What is left after an optional `CAP_` is a name of the table. -/
theorem bare_eq_iff
    {name upper : String}
    (member : name ∈ capNames) :
    (stripLeading "CAP_" upper).getD upper = name ↔
      upper = name ∨ upper = "CAP_" ++ name := by
  have whole :
      ∀ rest,
        stripLeading "CAP_" upper = some rest ↔ upper = "CAP_" ++ rest := by
    intro rest
    unfold stripLeading
    rw [Option.map_eq_some_iff]
    constructor
    · rintro ⟨chars, stripped, rfl⟩
      rw [stripPrefixChars_eq_some_iff] at stripped
      rw [← String.ofList_toList (s := upper), stripped,
        ← String.ofList_toList (s := "CAP_"), String.ofList_append]
      simp
    · rintro rfl
      exact ⟨rest.toList, stripPrefixChars_eq_some_iff.mpr (by simp), by simp⟩
  cases stripped : stripLeading "CAP_" upper with
  | some rest =>
      have shape := (whole rest).mp stripped
      simp only [Option.getD_some]
      constructor
      · rintro rfl
        exact Or.inr shape
      · rintro (rfl | same)
        · rw [strip_capNames _ member] at stripped
          cases stripped
        · rw [(whole name).mpr same] at stripped
          injection stripped with same
          exact same.symm
  | none =>
      simp only [Option.getD_none]
      constructor
      · exact Or.inl
      · rintro (same | same)
        · exact same
        · rw [(whole name).mpr same] at stripped
          cases stripped

/-- What `parse_cap` looks up: the name without its blanks and `CAP_`. -/
def bareName (s : String) : String :=
  (stripLeading "CAP_" (toAsciiUppercase (trim s))).getD
    (toAsciiUppercase (trim s))

theorem parseCap_found
    {s : String}
    {entry : String × UInt64}
    (found : (capTable.find? fun e => e.1 = bareName s) = some entry) :
    parseCap s = .ok entry.2 := by
  unfold parseCap
  extract_lets upper bare
  have same : (capTable.find? fun e => e.1 = bare) = some entry := found
  rw [same]

theorem parseCap_missing
    {s : String}
    (missing : (capTable.find? fun e => e.1 = bareName s) = none) :
    parseCap s = .error (.config ("unknown capability " ++ debugStr s)) := by
  unfold parseCap
  extract_lets upper bare
  have same : (capTable.find? fun e => e.1 = bare) = none := missing
  rw [same]

/-- The table is searched with success exactly for the names it has. -/
theorem capTable_find?_eq_some_iff
    {s name : String}
    {value : UInt64} :
    (capTable.find? fun e => e.1 = bareName s) = some (name, value) ↔
      ∃ v,
        capNames[v]? = some name ∧ value = UInt64.ofNat v ∧
          (toAsciiUppercase (trim s) = name ∨
            toAsciiUppercase (trim s) = "CAP_" ++ name) := by
  have distinct : (capTable.map Prod.fst).Nodup := by decide +kernel
  rw [find?_key_eq_some_iff distinct, mem_capTable_iff]
  constructor
  · rintro ⟨⟨v, place, rfl⟩, bare⟩
    have known := List.mem_of_getElem? place
    exact ⟨v, place, rfl, (bare_eq_iff known).mp bare.symm⟩
  · rintro ⟨v, place, rfl, spelled⟩
    have known := List.mem_of_getElem? place
    exact ⟨⟨v, place, rfl⟩, ((bare_eq_iff known).mpr spelled).symm⟩

/-- `parse_cap` reads exactly the names of the table. -/
theorem parseCap_eq_ok_iff
    {s : String}
    {value : UInt64} :
    parseCap s = .ok value ↔ ∃ v, NamesCap s v ∧ value = UInt64.ofNat v := by
  constructor
  · intro read
    rcases search : capTable.find? (fun e => e.1 = bareName s) with
      _ | ⟨name, other⟩
    · rw [parseCap_missing search] at read
      cases read
    · obtain ⟨v, place, rfl, spelled⟩ := capTable_find?_eq_some_iff.mp search
      rw [parseCap_found search] at read
      exact ⟨v, ⟨name, place, spelled⟩, (Except.ok.inj read).symm⟩
  · rintro ⟨v, ⟨name, place, spelled⟩, rfl⟩
    exact parseCap_found
      (capTable_find?_eq_some_iff.mpr ⟨v, place, rfl, spelled⟩)

/-- A name that is not known is refused. -/
theorem parseCap_ok_or_unknown (s : String) :
    (∃ v, NamesCap s v ∧ parseCap s = .ok (UInt64.ofNat v)) ∨
      (¬ KnownCap s ∧ ∃ e, parseCap s = .error e) := by
  cases read : parseCap s with
  | ok value =>
      obtain ⟨v, named, rfl⟩ := parseCap_eq_ok_iff.mp read
      exact Or.inl ⟨v, named, rfl⟩
  | error e =>
      refine Or.inr ⟨?_, e, rfl⟩
      rintro ⟨v, named⟩
      rw [parseCap_eq_ok_iff.mpr ⟨v, named, rfl⟩] at read
      cases read

/-- A string names at most one capability. -/
theorem NamesCap.unique
    {s : String}
    {v w : Nat}
    (one : NamesCap s v)
    (other : NamesCap s w) :
    v = w := by
  have first := parseCap_eq_ok_iff.mpr ⟨v, one, rfl⟩
  have second := parseCap_eq_ok_iff.mpr ⟨w, other, rfl⟩
  have words : UInt64.ofNat v = UInt64.ofNat w :=
    Except.ok.inj (first.symm.trans second)
  have small : capNames.length = 41 := rfl
  have low := one.lt
  have high := other.lt
  have numbers := congrArg UInt64.toNat words
  rw [UInt64.toNat_ofNat', UInt64.toNat_ofNat'] at numbers
  omega

/-! ## The three loops -/

/--
A loop that sets to `good`, one entry after another, the bits an entry stands
for, and fails at the first entry that is bad.
-/
theorem foldlM_spec
    {good : Bool}
    {Bad : String → Prop}
    {Means : String → Nat → Prop}
    {f : UInt64 → String → Result UInt64}
    (each :
      ∀ mask s,
        (Bad s ∧ ∃ e, f mask s = .error e) ∨
          (¬ Bad s ∧
            ∃ result, f mask s = .ok result ∧
              ∀ v, holds result v = good ↔ holds mask v = good ∨ Means s v))
    (entries : List String)
    (mask : UInt64) :
    ((∃ s ∈ entries, Bad s) ∧ ∃ e, entries.foldlM f mask = .error e) ∨
      ((∀ s ∈ entries, ¬ Bad s) ∧
        ∃ result, entries.foldlM f mask = .ok result ∧
          ∀ v, holds result v = good ↔
            holds mask v = good ∨ ∃ s ∈ entries, Means s v) := by
  induction entries generalizing mask with
  | nil => exact Or.inr ⟨by simp, mask, rfl, by simp⟩
  | cons s rest inductionHypothesis =>
      simp only [List.foldlM_cons]
      rcases each mask s with ⟨bad, e, failed⟩ | ⟨fine, next, stepped, bits⟩
      · refine Or.inl ⟨⟨s, List.mem_cons_self, bad⟩, e, ?_⟩
        simp [failed, bind, Except.bind]
      · simp only [stepped, bind, Except.bind]
        rcases inductionHypothesis next with
          ⟨⟨other, member, bad⟩, e, failed⟩ | ⟨allFine, result, kept, later⟩
        · exact Or.inl
            ⟨⟨other, List.mem_cons_of_mem _ member, bad⟩, e, failed⟩
        · refine Or.inr
            ⟨List.forall_mem_cons.mpr ⟨fine, allFine⟩, result, kept, ?_⟩
          intro v
          rw [later v, bits v, or_assoc, List.exists_mem_cons_iff]

theorem keepBase_eq_foldlM (entries : List String) (mask : UInt64) :
    keepBase entries mask =
      entries.foldlM
        (fun mask c => (parseCap c).map fun value => mask ||| capBit value)
        mask := by
  induction entries generalizing mask with
  | nil => rfl
  | cons c rest inductionHypothesis =>
      simp only [keepBase, List.foldlM_cons, inductionHypothesis]
      cases parseCap c <;> rfl

theorem keepDrop_eq_foldlM (entries : List String) (mask : UInt64) :
    keepDrop entries mask =
      entries.foldlM
        (fun mask c => (parseCap c).map fun value => mask &&& ~~~capBit value)
        mask := by
  induction entries generalizing mask with
  | nil => rfl
  | cons c rest inductionHypothesis =>
      simp only [keepDrop, List.foldlM_cons, inductionHypothesis]
      cases parseCap c <;> rfl

theorem keepAdd_eq_foldlM (entries : List String) (mask : UInt64) :
    keepAdd entries mask =
      entries.foldlM
        (fun mask c =>
          if eqIgnoreAsciiCase c "all" then .ok (mask ||| allCaps)
          else (parseCap c).map fun value => mask ||| capBit value)
        mask := by
  induction entries generalizing mask with
  | nil => rfl
  | cons c rest inductionHypothesis =>
      simp only [keepAdd, List.foldlM_cons, inductionHypothesis]
      by_cases all : eqIgnoreAsciiCase c "all" = true
      · simp [all, bind, Except.bind]
      · simp only [all, Bool.false_eq_true, if_false]
        cases parseCap c <;> rfl

/-- The loop over the base list adds what its entries name. -/
theorem keepBase_spec (entries : List String) (mask : UInt64) :
    ((∃ s ∈ entries, ¬ KnownCap s) ∧ ∃ e, keepBase entries mask = .error e) ∨
      ((∀ s ∈ entries, ¬ ¬ KnownCap s) ∧
        ∃ result, keepBase entries mask = .ok result ∧
          ∀ v, holds result v = true ↔
            holds mask v = true ∨ ListNames entries v) := by
  rw [keepBase_eq_foldlM]
  refine @foldlM_spec true (fun s => ¬ KnownCap s) NamesCap _ ?_ entries mask
  intro mask s
  rcases parseCap_ok_or_unknown s with ⟨v, named, read⟩ | ⟨unknown, e, read⟩
  · have small : v < 64 := Nat.lt_trans named.lt (by decide)
    refine Or.inr ⟨not_not_intro ⟨v, named⟩, _, by rw [read]; rfl, ?_⟩
    intro w
    simp only [holds_or, holds_capBit small, Bool.or_eq_true,
      decide_eq_true_eq]
    exact or_congr Iff.rfl
      ⟨fun same => same ▸ named, fun other => other.unique named⟩
  · exact Or.inl ⟨unknown, e, by rw [read]; rfl⟩

/-- The loop over the dropped names removes what its entries name. -/
theorem keepDrop_spec (entries : List String) (mask : UInt64) :
    ((∃ s ∈ entries, ¬ KnownCap s) ∧ ∃ e, keepDrop entries mask = .error e) ∨
      ((∀ s ∈ entries, ¬ ¬ KnownCap s) ∧
        ∃ result, keepDrop entries mask = .ok result ∧
          ∀ v, holds result v = false ↔
            holds mask v = false ∨ ListNames entries v) := by
  rw [keepDrop_eq_foldlM]
  refine @foldlM_spec false (fun s => ¬ KnownCap s) NamesCap _ ?_ entries mask
  intro mask s
  rcases parseCap_ok_or_unknown s with ⟨v, named, read⟩ | ⟨unknown, e, read⟩
  · have small : v < 64 := Nat.lt_trans named.lt (by decide)
    refine Or.inr ⟨not_not_intro ⟨v, named⟩, _, by rw [read]; rfl, ?_⟩
    intro w
    simp only [holds_andNot, holds_capBit small, Bool.and_eq_false_iff,
      Bool.not_eq_false', decide_eq_true_eq]
    exact or_congr Iff.rfl
      ⟨fun same => same ▸ named, fun other => other.unique named⟩
  · exact Or.inl ⟨unknown, e, by rw [read]; rfl⟩

/-- What an entry of `--cap-add` stands for. -/
def Adds (s : String) (v : Nat) : Prop :=
  NamesCap s v ∨ IsAll s ∧ v < capNames.length

/-- The loop over the added names adds what its entries name, or everything. -/
theorem keepAdd_spec (entries : List String) (mask : UInt64) :
    ((∃ s ∈ entries, ¬ KnownCap s ∧ ¬ IsAll s) ∧
        ∃ e, keepAdd entries mask = .error e) ∨
      ((∀ s ∈ entries, ¬ (¬ KnownCap s ∧ ¬ IsAll s)) ∧
        ∃ result, keepAdd entries mask = .ok result ∧
          ∀ v, holds result v = true ↔
            holds mask v = true ∨ ∃ s ∈ entries, Adds s v) := by
  rw [keepAdd_eq_foldlM]
  apply foldlM_spec
  intro mask s
  by_cases all : IsAll s
  · refine Or.inr ⟨fun both => both.2 all, _, if_pos all, ?_⟩
    intro w
    rw [holds_or, holds_allCaps, Bool.or_eq_true, decide_eq_true_eq]
    apply or_congr Iff.rfl
    constructor
    · intro inside
      exact Or.inr ⟨all, inside⟩
    · rintro (named | ⟨_, inside⟩)
      · exact named.lt
      · exact inside
  · simp only [show ¬ eqIgnoreAsciiCase s "all" = true from all,
      Bool.false_eq_true, if_false]
    rcases parseCap_ok_or_unknown s with ⟨v, named, read⟩ | ⟨unknown, e, read⟩
    · have small : v < 64 := Nat.lt_trans named.lt (by decide)
      refine Or.inr ⟨fun both => both.1 ⟨v, named⟩, _, by rw [read]; rfl, ?_⟩
      intro w
      simp only [holds_or, holds_capBit small, Bool.or_eq_true,
        decide_eq_true_eq]
      apply or_congr Iff.rfl
      constructor
      · rintro rfl
        exact Or.inl named
      · rintro (other | ⟨word, _⟩)
        · exact other.unique named
        · exact absurd word all
    · exact Or.inl ⟨⟨unknown, all⟩, e, by rw [read]; rfl⟩

/-! ## Resolution -/

/-- An entry that is neither a known name nor, where it may be, the word `all`. -/
def Misspelled (base add drop : List String) : Prop :=
  (∃ s ∈ base, ¬ KnownCap s) ∨
    (∃ s ∈ add, ¬ KnownCap s ∧ ¬ IsAll s) ∨
    ∃ s ∈ drop, ¬ KnownCap s ∧ ¬ IsAll s

/-- The capabilities three lists ask to keep. -/
def Kept (base add drop : List String) (v : Nat) : Prop :=
  (∃ s ∈ add, Adds s v) ∨
    ¬ ListAll drop ∧ ListNames base v ∧ ¬ ListNames drop v

/-- What `resolve_keep_set` refuses. -/
def Refused (base add drop : List String) : Prop :=
  ¬ ListAll drop ∧
      ((∃ s ∈ base, ¬ KnownCap s) ∨ ∃ s ∈ drop, ¬ KnownCap s) ∨
    ∃ s ∈ add, ¬ KnownCap s ∧ ¬ IsAll s

theorem any_isAll_iff (entries : List String) :
    (entries.any fun d => eqIgnoreAsciiCase d "all") = true ↔
      ListAll entries := by
  simp [List.any_eq_true, ListAll, IsAll]

/-- The mask before the additions. -/
theorem resolve_base_spec
    (base drop : List String) :
    (((∃ s ∈ base, ¬ KnownCap s) ∨ ∃ s ∈ drop, ¬ KnownCap s) ∧
        ∃ e, (keepBase base 0 >>= fun kept => keepDrop drop kept) =
          .error e) ∨
      (¬ ((∃ s ∈ base, ¬ KnownCap s) ∨ ∃ s ∈ drop, ¬ KnownCap s) ∧
        ∃ mask,
          (keepBase base 0 >>= fun kept => keepDrop drop kept) = .ok mask ∧
            ∀ v, holds mask v = true ↔
              ListNames base v ∧ ¬ ListNames drop v) := by
  rcases keepBase_spec base 0 with ⟨bad, e, failed⟩ | ⟨fine, kept, hkept, bits⟩
  · exact Or.inl ⟨Or.inl bad, e, by simp [failed, bind, Except.bind]⟩
  · simp only [hkept, bind, Except.bind]
    rcases keepDrop_spec drop kept with
      ⟨bad, e, failed⟩ | ⟨alsoFine, mask, hmask, left⟩
    · exact Or.inl ⟨Or.inr bad, e, failed⟩
    · refine Or.inr ⟨?_, mask, hmask, ?_⟩
      · rintro (⟨s, member, unknown⟩ | ⟨s, member, unknown⟩)
        · exact fine s member unknown
        · exact alsoFine s member unknown
      · intro v
        have gone := left v
        have was := bits v
        rw [holds_zero] at was
        cases now : holds mask v <;> cases before : holds kept v <;>
          simp_all

/-- What `resolve_keep_set` does, for all lists. -/
theorem resolveKeepSet_spec (base add drop : List String) :
    (Refused base add drop ∧
        ∃ e, resolveKeepSet base add drop = .error e) ∨
      (¬ Refused base add drop ∧
        ∃ mask, resolveKeepSet base add drop = .ok mask ∧
          ∀ v, holds mask v = true ↔ Kept base add drop v) := by
  unfold resolveKeepSet Refused Kept
  by_cases all : ListAll drop
  · simp only [(any_isAll_iff drop).mpr all, if_true, bind, Except.bind]
    rcases keepAdd_spec add 0 with ⟨bad, e, failed⟩ | ⟨fine, mask, hmask, bits⟩
    · exact Or.inl ⟨Or.inr bad, e, failed⟩
    · refine Or.inr ⟨?_, mask, hmask, ?_⟩
      · rintro (⟨noAll, _⟩ | ⟨s, member, bad⟩)
        · exact noAll all
        · exact fine s member bad
      · intro v
        rw [bits v, holds_zero]
        simp [all]
  · have noAll : ¬ (drop.any fun d => eqIgnoreAsciiCase d "all") = true :=
      fun some => all ((any_isAll_iff drop).mp some)
    simp only [if_neg noAll, ← bind_assoc]
    rcases resolve_base_spec base drop with
      ⟨bad, e, failed⟩ | ⟨fine, kept, hkept, before⟩
    · refine Or.inl ⟨Or.inl ⟨all, bad⟩, e, ?_⟩
      rw [failed]
      rfl
    · rw [hkept]
      simp only [bind, Except.bind]
      rcases keepAdd_spec add kept with
        ⟨bad, e, failed⟩ | ⟨alsoFine, mask, hmask, bits⟩
      · exact Or.inl ⟨Or.inr bad, e, failed⟩
      · refine Or.inr ⟨?_, mask, hmask, ?_⟩
        · rintro (⟨_, bad⟩ | ⟨s, member, bad⟩)
          · exact fine bad
          · exact alsoFine s member bad
        · intro v
          rw [bits v, before v, or_comm]
          exact or_congr Iff.rfl ⟨fun kept => ⟨all, kept⟩, fun kept => kept.2⟩

/-- Lists with the same entries, in any order and any number. -/
def SameEntries (entries others : List String) : Prop :=
  ∀ s, s ∈ entries ↔ s ∈ others

theorem SameEntries.exists_iff
    {entries others : List String}
    (same : SameEntries entries others)
    (P : String → Prop) :
    (∃ s ∈ entries, P s) ↔ ∃ s ∈ others, P s :=
  exists_congr fun s => and_congr_left' (same s)

/--
What is asked of a keep set: a misspelled entry is refused; otherwise the mask
has the bits the lists ask to keep; and neither depends on the order or the
repetition of entries.
-/
structure Resolves (base add drop : List String) : Prop where
  refuses :
    Misspelled base add drop → ∃ e, resolveKeepSet base add drop = .error e
  keeps :
    ¬ Misspelled base add drop →
      ∃ mask, resolveKeepSet base add drop = .ok mask ∧
        ∀ v, holds mask v = true ↔ Kept base add drop v
  unordered :
    ∀ base' add' drop',
      SameEntries base base' → SameEntries add add' → SameEntries drop drop' →
        (resolveKeepSet base' add' drop').toOption =
          (resolveKeepSet base add drop).toOption

/-- Lists with the same entries give the same mask or fail together. -/
theorem resolveKeepSet_congr
    {base add drop base' add' drop' : List String}
    (sameBase : SameEntries base base')
    (sameAdd : SameEntries add add')
    (sameDrop : SameEntries drop drop') :
    (resolveKeepSet base' add' drop').toOption =
      (resolveKeepSet base add drop).toOption := by
  have refused : Refused base add drop ↔ Refused base' add' drop' := by
    unfold Refused ListAll
    rw [sameBase.exists_iff, sameAdd.exists_iff, sameDrop.exists_iff,
      sameDrop.exists_iff]
  have kept : ∀ v, Kept base add drop v ↔ Kept base' add' drop' v := by
    intro v
    unfold Kept ListAll ListNames
    rw [sameBase.exists_iff, sameAdd.exists_iff, sameDrop.exists_iff,
      sameDrop.exists_iff]
  rcases resolveKeepSet_spec base add drop with
    ⟨bad, e, failed⟩ | ⟨fine, mask, hmask, bits⟩
  · rcases resolveKeepSet_spec base' add' drop' with
      ⟨_, e', failed'⟩ | ⟨fine, _⟩
    · rw [failed, failed']
      rfl
    · exact absurd (refused.mp bad) fine
  · rcases resolveKeepSet_spec base' add' drop' with
      ⟨bad, _⟩ | ⟨_, mask', hmask', bits'⟩
    · exact absurd (refused.mpr bad) fine
    · rw [hmask, hmask']
      have same : mask' = mask := by
        apply eq_of_holds_eq
        intro v
        rw [Bool.eq_iff_iff, bits v, bits' v, kept v]
      rw [same]

/-- The capabilities of lists that are refused or spelled right. -/
theorem refused_imp_misspelled
    {base add drop : List String}
    (refused : Refused base add drop) :
    Misspelled base add drop := by
  rcases refused with ⟨noAll, bad | ⟨s, member, unknown⟩⟩ | bad
  · exact Or.inl bad
  · exact Or.inr (Or.inr
      ⟨s, member, unknown, fun all => noAll ⟨s, member, all⟩⟩)
  · exact Or.inr (Or.inl bad)

/--
`resolve_keep_set` does what is asked of it exactly when no dropped `all`
skips a misspelled entry of the base list or of the dropped names, unless an
added name is misspelled as well.
-/
theorem resolves_iff (base add drop : List String) :
    Resolves base add drop ↔
      (ListAll drop →
        ((∀ s ∈ base, KnownCap s) ∧ ∀ s ∈ drop, KnownCap s ∨ IsAll s) ∨
          ∃ s ∈ add, ¬ KnownCap s ∧ ¬ IsAll s) := by
  constructor
  · intro resolves all
    by_cases misspelled : Misspelled base add drop
    · obtain ⟨e, failed⟩ := resolves.refuses misspelled
      rcases resolveKeepSet_spec base add drop with
        ⟨⟨noAll, _⟩ | bad, _⟩ | ⟨_, mask, hmask, _⟩
      · exact absurd all noAll
      · exact Or.inr bad
      · rw [failed] at hmask
        cases hmask
    · left
      constructor
      · intro s member
        by_contra unknown
        exact misspelled (Or.inl ⟨s, member, unknown⟩)
      · intro s member
        by_contra bad
        rw [not_or] at bad
        exact misspelled (Or.inr (Or.inr ⟨s, member, bad⟩))
  · intro condition
    refine ⟨?_, ?_, fun _ _ _ => resolveKeepSet_congr⟩
    · intro misspelled
      have refused : Refused base add drop := by
        by_cases all : ListAll drop
        · rcases condition all with ⟨known, dropped⟩ | bad
          · rcases misspelled with
              ⟨s, member, unknown⟩ | bad | ⟨s, member, unknown, notAll⟩
            · exact absurd (known s member) unknown
            · exact Or.inr bad
            · exact absurd (dropped s member) (not_or.mpr ⟨unknown, notAll⟩)
          · exact Or.inr bad
        · rcases misspelled with bad | bad | ⟨s, member, unknown, _⟩
          · exact Or.inl ⟨all, Or.inl bad⟩
          · exact Or.inr bad
          · exact Or.inl ⟨all, Or.inr ⟨s, member, unknown⟩⟩
      rcases resolveKeepSet_spec base add drop with ⟨_, failed⟩ | ⟨fine, _⟩
      · exact failed
      · exact absurd refused fine
    · intro spelled
      rcases resolveKeepSet_spec base add drop with ⟨bad, _⟩ | ⟨_, kept⟩
      · exact absurd (refused_imp_misspelled bad) spelled
      · exact kept

/-- A made up name next to a dropped `all` is accepted. -/
theorem dropped_all_hides_misspelling :
    ¬ Resolves defaultKeep [] ["all", "CAP_MADE_UP"] := by
  intro resolves
  have unknown : ¬ KnownCap "CAP_MADE_UP" ∧ ¬ IsAll "CAP_MADE_UP" := by
    constructor
    · rintro ⟨v, named⟩
      have read := parseCap_eq_ok_iff.mpr ⟨v, named, rfl⟩
      rw [parseCap_missing (by decide +kernel)] at read
      cases read
    · decide +kernel
  have misspelled :
      Misspelled defaultKeep [] ["all", "CAP_MADE_UP"] :=
    Or.inr (Or.inr ⟨"CAP_MADE_UP", by simp, unknown⟩)
  obtain ⟨e, failed⟩ := resolves.refuses misspelled
  have accepted :
      resolveKeepSet defaultKeep [] ["all", "CAP_MADE_UP"] = .ok 0 := by
    have all : (["all", "CAP_MADE_UP"].any fun d =>
        eqIgnoreAsciiCase d "all") = true := by
      decide +kernel
    simp [resolveKeepSet, all, keepAdd, bind, Except.bind]
  rw [failed] at accepted
  cases accepted

end Myrun
