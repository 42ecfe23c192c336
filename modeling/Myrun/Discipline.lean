import Myrun.Interleaving

namespace Myrun

/-!
# Disciplines

A discipline says which operation a process may perform next, given what it did
so far.  What it did is kept as a view, updated from the answers it got.

A discipline is checked once, program by program, with the weakest precondition
of its contract.  In a run of a system whose programs all follow it, every
operation then satisfies its requirement, so a property of the interleavings can
be proved from the events alone.  This module is independent of any particular
system.
-/

/-- What a process may do after what it did. -/
structure Discipline (Op : Type) (Ans : Op → Type) (View : Type) where
  requires : View → Op → Prop
  /-- answers that have to be considered -/
  credible : (op : Op) → Ans op → Prop
  after : View → (op : Op) → Ans op → View

namespace Discipline

open Prog

variable {Op : Type} {Ans : Op → Type} {View : Type} {α : Type}

/-- The discipline as a contract. -/
def contract (D : Discipline Op Ans View) : Contract Op Ans View where
  spec op view Q :=
    D.requires view op ∧
      ∀ answer, D.credible op answer → Q answer (D.after view op answer)
  mono weaker holds :=
    ⟨holds.1, fun answer possible => weaker _ _ (holds.2 answer possible)⟩

variable {D : Discipline Op Ans View}

theorem neutral_of
    {op : Op}
    (free : ∀ view, D.requires view op)
    (unseen : ∀ view answer, D.after view op answer = view) :
    D.contract.Neutral op := by
  intro view Q holds
  refine ⟨free view, ?_⟩
  intro answer _
  rw [unseen view answer]
  exact holds answer

/-- A program of operations that are permitted in a view and leave it as it
is. -/
theorem wp_still
    {view : View}
    {p : Prog Op Ans α}
    {Q : α → View → Prop}
    (uses : OnlyUses
      (fun op => D.requires view op ∧ ∀ answer, D.after view op answer = view) p)
    (holds : ∀ value, Q value view) :
    p.wp D.contract view Q := by
  induction uses with
  | ret value =>
      exact holds value
  | call allowed rest inductionHypothesis =>
      refine ⟨allowed.1, ?_⟩
      intro answer _
      rw [allowed.2 answer]
      exact inductionHypothesis answer

/-- A program that follows the discipline from a given view. -/
def Follows (D : Discipline Op Ans View) (view : View) (p : Prog Op Ans α) :
    Prop :=
  p.wp D.contract view fun _ _ => True

end Discipline

namespace System

open Prog

variable {Op : Type} {Ans : Op → Type} {S : System Op Ans} {View : Type}

/-- The views of all processes after a run.  `first` are the views at the
start, `begun` the view of a process that an operation started. -/
def views (D : Discipline Op Ans View) (begun : (op : Op) → Ans op → View)
    (first : S.Pid → View) : List S.Event → S.Pid → View
  | [] => first
  | .call pid op answer :: past =>
      let before := views D begun first past
      let moved :=
        Function.update before pid (D.after (before pid) op answer)
      match S.starts op answer with
      | none => moved
      | some (child, _) => Function.update moved child (begun op answer)
  | .happen _ :: past => views D begun first past
  | .kill _ :: past => views D begun first past

/-- Every process follows the discipline, from the start and when it is
started by another, and the answers of the system are credible. -/
structure Disciplined
    (D : Discipline Op Ans View)
    (begun : (op : Op) → Ans op → View)
    (first : S.Pid → View)
    (allowed : List S.Event → S.Config → S.Event → Prop)
    (start : S.Config) : Prop where
  initially : ∀ pid p, start.process pid = some p → D.Follows (first pid) p
  started : ∀ op answer child p, S.starts op answer = some (child, p) →
    D.Follows (begun op answer) p
  answers : ∀ past c pid op answer world,
    S.answer c.world pid op answer = some world →
    allowed past c (.call pid op answer) → D.credible op answer

variable {D : Discipline Op Ans View} {begun : (op : Op) → Ans op → View}
  {first : S.Pid → View}
  {allowed : List S.Event → S.Config → S.Event → Prop}
  {start c c' : S.Config}
  {past : List S.Event}

theorem views_call_self
    {pid : S.Pid}
    {op : Op}
    {answer : Ans op}
    (notStarted : ∀ p, S.starts op answer ≠ some (pid, p)) :
    views D begun first (.call pid op answer :: past) pid =
      D.after (views D begun first past pid) op answer := by
  cases starts : S.starts op answer with
  | none =>
      simp [views, starts]
  | some entry =>
      obtain ⟨child, p⟩ := entry
      have different : pid ≠ child := by
        rintro rfl
        exact notStarted p starts
      simp [views, starts, Function.update_of_ne different]

theorem views_call_other
    {pid other : S.Pid}
    {op : Op}
    {answer : Ans op}
    (different : other ≠ pid)
    (notStarted : ∀ p, S.starts op answer ≠ some (other, p)) :
    views D begun first (.call pid op answer :: past) other =
      views D begun first past other := by
  cases starts : S.starts op answer with
  | none =>
      simp [views, starts, Function.update_of_ne different]
  | some entry =>
      obtain ⟨child, p⟩ := entry
      have alsoDifferent : other ≠ child := by
        rintro rfl
        exact notStarted p starts
      simp [views, starts, Function.update_of_ne alsoDifferent,
        Function.update_of_ne different]

theorem views_call_child
    {pid child : S.Pid}
    {op : Op}
    {answer : Ans op}
    {p : Prog Op Ans S.Out}
    (starts : S.starts op answer = some (child, p)) :
    views D begun first (.call pid op answer :: past) child =
      begun op answer := by
  simp [views, starts]

/-- The view of any process after an operation. -/
theorem views_after_call
    (D : Discipline Op Ans View)
    (begun : (op : Op) → Ans op → View)
    (first : S.Pid → View)
    (past : List S.Event)
    (pid other : S.Pid)
    (op : Op)
    (answer : Ans op) :
    ((∃ p, S.starts op answer = some (other, p)) ∧
      views D begun first (.call pid op answer :: past) other =
        begun op answer) ∨
    ((∀ p, S.starts op answer ≠ some (other, p)) ∧
      (other = pid ∧ views D begun first (.call pid op answer :: past) other =
        D.after (views D begun first past pid) op answer ∨
      other ≠ pid ∧ views D begun first (.call pid op answer :: past) other =
        views D begun first past other)) := by
  by_cases started : ∃ p, S.starts op answer = some (other, p)
  · obtain ⟨p, starts⟩ := started
    exact .inl ⟨⟨p, starts⟩, views_call_child starts⟩
  · have notStarted : ∀ p, S.starts op answer ≠ some (other, p) :=
      fun p starts => started ⟨p, starts⟩
    refine .inr ⟨notStarted, ?_⟩
    by_cases self : other = pid
    · subst self
      exact .inl ⟨rfl, views_call_self notStarted⟩
    · exact .inr ⟨self, views_call_other self notStarted⟩

/-- The processes after an operation, with their views: one that it started,
the one that performed it, and the others. -/
theorem processes_after_call
    (D : Discipline Op Ans View)
    (begun : (op : Op) → Ans op → View)
    (first : S.Pid → View)
    (past : List S.Event)
    {pid : S.Pid}
    {op : Op}
    {next : Ans op → Prog Op Ans S.Out}
    {answer : Ans op}
    {world : S.World}
    (ready : c.process pid = some (.call op next))
    (unused : c.Unused (S.starts op answer))
    {other : S.Pid}
    {q : Prog Op Ans S.Out}
    (running : ((({ c with world } : S.Config).resume pid
      (some (next answer))).start (S.starts op answer)).process other =
        some q) :
    (S.starts op answer = some (other, q) ∧
      views D begun first (.call pid op answer :: past) other =
        begun op answer) ∨
    (other = pid ∧ q = next answer ∧
      views D begun first (.call pid op answer :: past) other =
        D.after (views D begun first past pid) op answer) ∨
    (other ≠ pid ∧ c.process other = some q ∧
      views D begun first (.call pid op answer :: past) other =
        views D begun first past other) := by
  rcases Config.process_after_call ready unused running with
    started | ⟨rfl, same, notStarted⟩ | ⟨different, before, notStarted⟩
  · exact .inl ⟨started, views_call_child started⟩
  · exact .inr (.inl ⟨rfl, same, views_call_self notStarted⟩)
  · exact .inr (.inr ⟨different, before, views_call_other different notStarted⟩)

/-- Along a run every process keeps to the discipline. -/
theorem Run.follows
    (disciplined : Disciplined D begun first allowed start)
    (run : Run allowed start past c) :
    ∀ pid p, c.process pid = some p →
      D.Follows (views D begun first past pid) p := by
  induction run with
  | nil =>
      exact disciplined.initially
  | @snoc past c c' event earlier step permitted inductionHypothesis =>
      intro other q running
      cases step with
      | @call pid op next answer world ready answered unused =>
          have followed := inductionHypothesis pid _ ready
          have possible : D.credible op answer :=
            disciplined.answers _ _ pid op answer world answered permitted
          rcases processes_after_call D begun first past ready unused running with
            ⟨starts, view⟩ | ⟨rfl, rfl, view⟩ | ⟨_, before, view⟩
          · rw [view]
            exact disciplined.started op answer other q starts
          · rw [view]
            exact followed.2 answer possible
          · rw [view]
            exact inductionHypothesis other q before
      | happen happened =>
          exact inductionHypothesis other q running
      | kill alive =>
          exact inductionHypothesis other q (Config.process_after_kill running)

/-- The requirement of the next operation holds. -/
theorem Run.requires
    (disciplined : Disciplined D begun first allowed start)
    (run : Run allowed start past c)
    {pid : S.Pid}
    {op : Op}
    {answer : Ans op}
    (step : Step c (.call pid op answer) c') :
    D.requires (views D begun first past pid) op := by
  cases step with
  | call ready answered unused =>
      exact (run.follows disciplined pid _ ready).1

/-- A process that no other starts establishes along a run what its program
establishes. -/
theorem Run.establishes
    (D : Discipline Op Ans View)
    (begun : (op : Op) → Ans op → View)
    (first : S.Pid → View)
    {pid : S.Pid}
    {Q : S.Out → View → Prop}
    (notStarted : ∀ op answer p, S.starts op answer ≠ some (pid, p))
    (answers : ∀ past c op answer world,
      S.answer c.world pid op answer = some world →
      allowed past c (.call pid op answer) → D.credible op answer)
    (initially : ∀ p, start.process pid = some p →
      p.wp D.contract (first pid) Q)
    (run : Run allowed start past c) :
    ∀ p, c.process pid = some p →
      p.wp D.contract (views D begun first past pid) Q := by
  induction run with
  | nil =>
      exact initially
  | @snoc past c c' event earlier step permitted inductionHypothesis =>
      intro q running
      cases step with
      | @call caller op next answer world ready answered unused =>
          rcases processes_after_call D begun first past ready unused running with
            ⟨starts, _⟩ | ⟨rfl, rfl, view⟩ | ⟨_, before, view⟩
          · exact absurd starts (notStarted op answer q)
          · rw [view]
            exact (inductionHypothesis _ ready).2 answer
              (answers _ _ op answer world answered permitted)
          · rw [view]
            exact inductionHypothesis q before
      | happen happened =>
          exact inductionHypothesis q running
      | kill alive =>
          exact inductionHypothesis q (Config.process_after_kill running)

end System

end Myrun
