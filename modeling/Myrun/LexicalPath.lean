import Mathlib.Data.List.Induction
import Mathlib.Tactic.Common

namespace LexicalPath

/-!
# Walking up and down a path

A path read without looking at the file system: a list of components, each a
name or a step up. Walking them from a place gives a place, which is the
normal form of the path: how often it leaves the place it starts from, and the
names it then goes down. A place is inside another when it only goes down from
there.
-/

/-- One component of a path. -/
inductive Component (α : Type) where
  | up
  | name (n : α)
  deriving Repr, DecidableEq

/-- Where a walk has come to; `absolute` when it started at the root. -/
structure Place (α : Type) where
  absolute : Bool
  ups : Nat
  names : List α
  deriving Repr, DecidableEq

section Walk

variable {α : Type}

/-- One component further. The parent of the root is the root. -/
def Place.enter (place : Place α) : Component α → Place α
  | .name n => { place with names := place.names ++ [n] }
  | .up =>
      if place.names.isEmpty then
        if place.absolute then place
        else { place with ups := place.ups + 1 }
      else { place with names := place.names.dropLast }

/-- All components of a path, one after another. -/
def Place.walk (place : Place α) (path : List (Component α)) : Place α :=
  path.foldl Place.enter place

/-- The place a path leads to from nowhere in particular. -/
def relative (path : List (Component α)) : Place α :=
  (⟨false, 0, []⟩ : Place α).walk path

/-- Going up `k` times and then down. -/
def Place.climb (place : Place α) (k : Nat) (down : List α) : Place α where
  absolute := place.absolute
  ups :=
    if place.absolute then place.ups
    else place.ups + (k - place.names.length)
  names := place.names.take (place.names.length - k) ++ down

/-- Reached from `base` by going down only. -/
structure Place.Inside (place base : Place α) : Prop where
  absolute : place.absolute = base.absolute
  ups : place.ups = base.ups
  names : base.names <+: place.names

@[simp] theorem walk_nil (place : Place α) : place.walk [] = place :=
  rfl

theorem walk_append (place : Place α) (path more : List (Component α)) :
    place.walk (path ++ more) = (place.walk path).walk more := by
  unfold Place.walk
  rw [List.foldl_append]

theorem walk_concat
    (place : Place α)
    (path : List (Component α))
    (component : Component α) :
    place.walk (path ++ [component]) = (place.walk path).enter component := by
  rw [walk_append]
  rfl

theorem climb_zero (place : Place α) : place.climb 0 [] = place := by
  cases place
  simp [Place.climb]

theorem enter_absolute (place : Place α) (component : Component α) :
    (place.enter component).absolute = place.absolute := by
  cases component with
  | name n => rfl
  | up =>
      simp only [Place.enter]
      split_ifs <;> rfl

/-- A relative place stays relative. -/
theorem relative_absolute (path : List (Component α)) :
    (relative path).absolute = false := by
  induction path using List.reverseRecOn with
  | nil => rfl
  | append_singleton path component inductionHypothesis =>
      unfold relative at *
      rw [walk_concat, enter_absolute, inductionHypothesis]

/-- A path of names never goes up. -/
theorem relative_ups_of_names
    {path : List (Component α)}
    (names : ∀ component ∈ path, ∃ n, component = .name n) :
    (relative path).ups = 0 := by
  induction path using List.reverseRecOn with
  | nil => rfl
  | append_singleton path component inductionHypothesis =>
      obtain ⟨n, rfl⟩ := names component (by simp)
      unfold relative at *
      rw [walk_concat]
      exact inductionHypothesis
        fun other member => names other (by simp [member])

/-- Entering a component of the climb is entering it after the climb. -/
theorem enter_climb
    (place : Place α)
    (k : Nat)
    (down : List α)
    (component : Component α) :
    (place.climb k down).enter component =
      place.climb ((⟨false, k, down⟩ : Place α).enter component).ups
        ((⟨false, k, down⟩ : Place α).enter component).names := by
  cases component with
  | name n => simp [Place.enter, Place.climb]
  | up =>
      rcases List.eq_nil_or_concat down with rfl | ⟨front, last, rfl⟩
      · -- The climb goes one level further, as far as there are levels.
        rcases Nat.lt_or_ge k place.names.length with above | atTop
        · have nonempty :
              place.names.take (place.names.length - k) ≠ [] := by
            rw [Ne, ← List.length_eq_zero_iff, List.length_take]
            omega
          have shorter :
              (place.names.take (place.names.length - k)).dropLast =
                place.names.take (place.names.length - (k + 1)) := by
            rw [List.dropLast_eq_take, List.take_take, List.length_take]
            congr 1
            omega
          have stays : k + 1 - place.names.length = 0 := by omega
          have stayed : k - place.names.length = 0 := by omega
          simp [Place.enter, Place.climb, nonempty, shorter, stays, stayed]
        · have gone : place.names.length - k = 0 := by omega
          have further : place.names.length - (k + 1) = 0 := by omega
          have more :
              k + 1 - place.names.length = k - place.names.length + 1 := by
            omega
          cases absolute : place.absolute <;>
            simp [Place.enter, Place.climb, absolute, gone, further, more,
              Nat.add_assoc]
      · simp [Place.enter, Place.climb]

/-- A walk climbs as its own normal form says. -/
theorem walk_eq_climb
    (place : Place α)
    (path : List (Component α)) :
    place.walk path =
      place.climb (relative path).ups (relative path).names := by
  induction path using List.reverseRecOn with
  | nil => exact (climb_zero place).symm
  | append_singleton path component inductionHypothesis =>
      have shape :
          relative path =
            ⟨false, (relative path).ups, (relative path).names⟩ := by
        rw [← relative_absolute path]
      rw [walk_concat, inductionHypothesis, enter_climb, ← shape]
      unfold relative
      rw [walk_concat]

/--
A walk ends inside the place it starts from exactly when it goes down again
through the names it went up.
-/
theorem inside_walk_iff
    (place : Place α)
    (path : List (Component α)) :
    (place.walk path).Inside place ↔
      (place.absolute = true ∨ (relative path).ups ≤ place.names.length) ∧
        place.names.drop (place.names.length - (relative path).ups) <+:
          (relative path).names := by
  rw [walk_eq_climb]
  generalize (relative path).ups = k
  generalize (relative path).names = down
  have names :
      place.names <+: place.names.take (place.names.length - k) ++ down ↔
        place.names.drop (place.names.length - k) <+: down := by
    conv_lhs =>
      lhs
      rw [← List.take_append_drop (place.names.length - k) place.names]
    exact List.prefix_append_right_inj _
  constructor
  · rintro ⟨_, ups, prefixed⟩
    refine ⟨?_, names.mp prefixed⟩
    cases absolute : place.absolute with
    | true => exact Or.inl rfl
    | false =>
        simp only [Place.climb, absolute, Bool.false_eq_true, if_false] at ups
        exact Or.inr (by omega)
  · rintro ⟨levels, prefixed⟩
    refine ⟨rfl, ?_, names.mpr prefixed⟩
    rcases levels with absolute | few
    · simp [Place.climb, absolute]
    · simp [Place.climb, Nat.sub_eq_zero_of_le few]

end Walk

end LexicalPath
