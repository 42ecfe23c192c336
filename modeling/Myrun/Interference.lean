import Myrun.Interleaving

namespace Myrun

/-!
# One process and what happens beside it

In a system with a single process the world changes between its operations by
itself. A contract that allows for any such drift before each operation, and a
postcondition that the drift keeps, can be checked on the program alone and
hold in every run. This module is independent of any particular system.
-/

namespace System

open Prog

variable {Op : Type} {Ans : Op → Type} (S : System Op Ans)

/-- A history, newest event first, and the world it led to. -/
abbrev Moment := List S.Event × S.World

variable {S}

/-- What can happen until the process performs its next operation. -/
inductive Drift : S.Moment → S.Moment → Prop where
  | refl (g : S.Moment) : Drift g g
  | happen
      {g : S.Moment}
      {past : List S.Event}
      {world world' : S.World}
      {what : S.Happening}
      (before : Drift g (past, world))
      (happened : S.happen world what = some world') :
      Drift g (.happen what :: past, world')

theorem Drift.trans
    {g g' g'' : S.Moment}
    (first : Drift g g')
    (second : Drift g' g'') :
    Drift g g'' := by
  induction second with
  | refl => exact first
  | happen _ happened inductionHypothesis =>
      exact .happen inductionHypothesis happened

/-- A property of moments that each happening keeps is kept by a drift. -/
theorem Drift.invariant
    {Inv : S.Moment → Prop}
    (kept : ∀ {past world world' what},
      Inv (past, world) → S.happen world what = some world' →
        Inv (.happen what :: past, world'))
    {g g' : S.Moment}
    (drift : Drift g g')
    (holds : Inv g) :
    Inv g' := by
  induction drift with
  | refl => exact holds
  | happen _ happened inductionHypothesis =>
      exact kept inductionHypothesis happened

variable (S)

/-- An operation of `pid`, after any drift. -/
def beside (pid : S.Pid) : Contract Op Ans S.Moment where
  spec op g Q :=
    ∀ past world, Drift g (past, world) →
      ∀ answer world', S.answer world pid op answer = some world' →
        Q answer (.call pid op answer :: past, world')
  mono weaker holds past world drift answer world' answered :=
    weaker _ _ (holds past world drift answer world' answered)

variable {S} {pid : S.Pid}

/-- What is true of a program before a drift is true after it. -/
theorem wp_drift
    {α : Type}
    {p : Prog Op Ans α}
    {Q : α → S.Moment → Prop}
    (stable : ∀ value g g', Drift g g' → Q value g → Q value g')
    {g g' : S.Moment}
    (drift : Drift g g')
    (holds : p.wp (S.beside pid) g Q) :
    p.wp (S.beside pid) g' Q := by
  cases p with
  | ret value => exact stable value g g' drift holds
  | call op next =>
      intro past world later
      exact holds past world (drift.trans later)

/-- The process is alone, and what is left of it still meets its postcondition. -/
structure Alone (pid : S.Pid) (Q : S.Out → S.Moment → Prop)
    (past : List S.Event) (c : S.Config) : Prop where
  others : ∀ other, other ≠ pid → c.process other = none
  meets :
    ∀ p, c.process pid = some p → p.wp (S.beside pid) (past, c.world) Q

/-- A process that is alone at the start is so along every run. -/
theorem Run.alone
    {Q : S.Out → S.Moment → Prop}
    (noStarts : ∀ op answer, S.starts op answer = none)
    (stable : ∀ value g g', Drift g g' → Q value g → Q value g')
    {start c : S.Config}
    (initially : Alone pid Q [] start)
    {past : List S.Event}
    (run : Run (fun _ _ _ => True) start past c) :
    Alone pid Q past c := by
  refine Run.invariant initially ?_ run
  intro past c c' event _ alone step _
  cases step with
  | @call caller op next answer world ready answered unused =>
      have own : caller = pid := by
        by_contra other
        rw [alone.others caller other] at ready
        cases ready
      subst own
      simp only [noStarts, Config.start]
      refine ⟨?_, ?_⟩
      · intro other different
        simp only [Config.resume, Function.update_of_ne different]
        exact alone.others other different
      · intro p same
        simp only [Config.resume, Function.update_self, Option.some.injEq]
          at same
        subst same
        exact alone.meets _ ready past c.world (.refl _) answer world answered
  | happen happened =>
      exact ⟨alone.others, fun p same =>
        wp_drift stable (.happen (.refl _) happened) (alone.meets p same)⟩
  | @kill victim p alive =>
      refine ⟨?_, ?_⟩
      · intro other different
        by_cases same : other = victim
        · subst same
          simp [Config.resume]
        · simp only [Config.resume, Function.update_of_ne same]
          exact alone.others other different
      · intro q same
        have own : victim = pid := by
          by_contra other
          rw [alone.others victim other] at alive
          cases alive
        subst own
        simp [Config.resume] at same

end System

end Myrun
