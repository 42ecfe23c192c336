import Mathlib.Data.List.Nodup

namespace FileTree

/-!
# Directories and paths

A file system without links: a file has a text, a directory has distinct names
with something under each of them.  A path is followed component by component;
`.` and the empty component stay, `..` goes up, and the root is its own parent.
-/

/-- A name that a directory entry can have. -/
structure FileName where
  text : String
  nonempty : text ≠ ""
  noSlash : '/' ∉ text.toList
  noNul : Char.ofNat 0 ∉ text.toList
  notDot : text ≠ "."
  notDotDot : text ≠ ".."
  deriving DecidableEq

theorem FileName.ext_text
    {first second : FileName}
    (same : first.text = second.text) :
    first = second := by
  cases first
  cases second
  simp only at same
  subst same
  rfl

/-- A file or a directory; only the listed names of a directory count. -/
inductive Node where
  | file (text : String)
  | dir (names : List FileName) (distinct : names.Nodup)
      (child : FileName → Node)

namespace Node

/-- The entry of a directory with a given name. -/
def child? : Node → String → Option Node
  | file _, _ => none
  | dir names _ child, name => (names.find? (·.text = name)).map child

/-- Follow a path from `here`; `up` are the directories above, nearest first. -/
def walk : List String → Node → List Node → Option (Node × List Node)
  | [], here, up => some (here, up)
  | _ :: _, file _, _ => none
  | component :: rest, dir names distinct child, up =>
      if component = "" ∨ component = "." then
        walk rest (dir names distinct child) up
      else if component = ".." then
        match up with
        | [] => walk rest (dir names distinct child) []
        | parent :: above => walk rest parent above
      else
        match child? (dir names distinct child) component with
        | none => none
        | some next => walk rest next (dir names distinct child :: up)

/-- A path is followed part by part. -/
theorem walk_append
    (first second : List String) :
    ∀ (here : Node) (up : List Node),
      walk (first ++ second) here up =
        (walk first here up).bind fun reached =>
          walk second reached.1 reached.2 := by
  induction first with
  | nil =>
      intro here up
      rfl
  | cons component rest inductionHypothesis =>
      intro here up
      cases here with
      | file text => rfl
      | dir names distinct child =>
          simp only [List.cons_append, walk]
          split
          · exact inductionHypothesis _ _
          · split
            · cases up with
              | nil => exact inductionHypothesis _ _
              | cons parent above => exact inductionHypothesis _ _
            · split
              · rfl
              · exact inductionHypothesis _ _

/-- One ordinary component is one look-up. -/
theorem walk_name
    (name : FileName)
    (here : Node)
    (up : List Node) :
    walk [name.text] here up =
      (here.child? name.text).map fun next => (next, here :: up) := by
  cases here with
  | file text => rfl
  | dir names distinct child =>
      have stays : ¬ (name.text = "" ∨ name.text = ".") := by
        rw [not_or]
        exact ⟨name.nonempty, name.notDot⟩
      simp only [walk, stays, name.notDotDot, ↓reduceIte]
      cases child? (dir names distinct child) name.text with
      | none => rfl
      | some next => rfl

end Node

end FileTree
