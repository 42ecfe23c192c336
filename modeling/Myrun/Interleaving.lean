import Mathlib.Logic.Function.Basic
import Myrun.Prog

namespace Myrun

/-!
# Processes that share a world

A system runs any number of processes, each a program, over one shared world.
A step is one operation of one process with one answer the world allows, a
change of the world on its own, or the death of a process at an arbitrary
point.  An operation may start a further process.

All nondeterminism is in the events: an event and a configuration determine the
next configuration.  `Run` therefore records the events of a run, newest first,
and a schedule can be replayed by evaluation.  This module is independent of
any particular world.
-/

/-- Processes over a shared world. -/
structure System (Op : Type) (Ans : Op → Type) where
  World : Type
  Pid : Type
  /-- what the world can do on its own -/
  Happening : Type
  /-- the result of a finished process -/
  Out : Type
  [decPid : DecidableEq Pid]
  /-- the world after an operation, if the answer is possible -/
  answer : World → Pid → (op : Op) → Ans op → Option World
  happen : World → Happening → Option World
  /-- the process an operation starts -/
  starts : (op : Op) → Ans op → Option (Pid × Prog Op Ans Out)
  /-- the world after a process was killed -/
  bury : World → Pid → World

namespace System

variable {Op : Type} {Ans : Op → Type} (S : System Op Ans)

instance : DecidableEq S.Pid :=
  S.decPid

/-- A world and the remaining programs of its processes. -/
structure Config where
  world : S.World
  process : S.Pid → Option (Prog Op Ans S.Out)

/-- One event of a run. -/
inductive Event where
  | call (pid : S.Pid) (op : Op) (answer : Ans op)
  | happen (what : S.Happening)
  | kill (pid : S.Pid)

variable {S}

/-- Replace the program of one process. -/
def Config.resume (c : S.Config) (pid : S.Pid) (p : Option (Prog Op Ans S.Out)) :
    S.Config :=
  { c with process := Function.update c.process pid p }

/-- Add a started process. -/
def Config.start (c : S.Config) : Option (S.Pid × Prog Op Ans S.Out) → S.Config
  | none => c
  | some (pid, p) => c.resume pid (some p)

@[simp] theorem Config.start_world
    (c : S.Config)
    (started : Option (S.Pid × Prog Op Ans S.Out)) :
    (c.start started).world = c.world := by
  cases started with
  | none =>
      rfl
  | some entry =>
      rfl

@[simp] theorem Config.resume_world
    (c : S.Config)
    (pid : S.Pid)
    (p : Option (Prog Op Ans S.Out)) :
    (c.resume pid p).world = c.world :=
  rfl

/-- A started process has an unused identifier. -/
def Config.Unused (c : S.Config) : Option (S.Pid × Prog Op Ans S.Out) → Prop
  | none => True
  | some (pid, _) => c.process pid = none

/-- One step. -/
inductive Step : S.Config → S.Event → S.Config → Prop where
  | call
      {c : S.Config}
      {pid : S.Pid}
      {op : Op}
      {next : Ans op → Prog Op Ans S.Out}
      {answer : Ans op}
      {world : S.World}
      (ready : c.process pid = some (.call op next))
      (answered : S.answer c.world pid op answer = some world)
      (unused : c.Unused (S.starts op answer)) :
      Step c (.call pid op answer)
        ((({ c with world } : S.Config).resume pid (some (next answer))).start
          (S.starts op answer))
  | happen
      {c : S.Config}
      {what : S.Happening}
      {world : S.World}
      (happened : S.happen c.world what = some world) :
      Step c (.happen what) { c with world }
  | kill
      {c : S.Config}
      {pid : S.Pid}
      {p : Prog Op Ans S.Out}
      (running : c.process pid = some p) :
      Step c (.kill pid)
        (({ c with world := S.bury c.world pid } : S.Config).resume pid none)

theorem Config.process_start_other
    (c : S.Config)
    {started : Option (S.Pid × Prog Op Ans S.Out)}
    {other : S.Pid}
    (notStarted : ∀ p, started ≠ some (other, p)) :
    (c.start started).process other = c.process other := by
  cases started with
  | none =>
      rfl
  | some entry =>
      obtain ⟨child, p⟩ := entry
      have different : other ≠ child := by
        rintro rfl
        exact notStarted p rfl
      simp [Config.start, Config.resume, Function.update_of_ne different]

theorem Config.notStarted
    {c : S.Config}
    {pid : S.Pid}
    {p : Prog Op Ans S.Out}
    {started : Option (S.Pid × Prog Op Ans S.Out)}
    (ready : c.process pid = some p)
    (unused : c.Unused started)
    (q : Prog Op Ans S.Out) :
    started ≠ some (pid, q) := by
  rintro rfl
  simp only [Config.Unused] at unused
  rw [unused] at ready
  simp at ready

/-- The processes after an operation: one that it started, the one that performed
it, and the others. -/
theorem Config.process_after_call
    {c : S.Config}
    {pid : S.Pid}
    {op : Op}
    {next : Ans op → Prog Op Ans S.Out}
    {answer : Ans op}
    {world : S.World}
    (ready : c.process pid = some (.call op next))
    (unused : c.Unused (S.starts op answer))
    {other : S.Pid}
    {q : Prog Op Ans S.Out}
    (running : ((({ c with world } : S.Config).resume pid
      (some (next answer))).start (S.starts op answer)).process other =
        some q) :
    S.starts op answer = some (other, q) ∨
    (other = pid ∧ q = next answer ∧
      ∀ p, S.starts op answer ≠ some (pid, p)) ∨
    (other ≠ pid ∧ c.process other = some q ∧
      ∀ p, S.starts op answer ≠ some (other, p)) := by
  by_cases started : ∃ p, S.starts op answer = some (other, p)
  · obtain ⟨p, starts⟩ := started
    have same : q = p := by
      simpa [starts, Config.start, Config.resume] using running.symm
    exact .inl (same ▸ starts)
  · have notStarted : ∀ p, S.starts op answer ≠ some (other, p) :=
      fun p starts => started ⟨p, starts⟩
    rw [Config.process_start_other _ notStarted] at running
    by_cases self : other = pid
    · subst self
      refine .inr (.inl ⟨rfl, ?_, Config.notStarted ready unused⟩)
      simpa [Config.resume] using running.symm
    · simp only [Config.resume, Function.update_of_ne self] at running
      exact .inr (.inr ⟨self, running, notStarted⟩)

/-- What a step with an operation does. -/
theorem Step.call_inv
    {c c' : S.Config}
    {pid : S.Pid}
    {op : Op}
    {answer : Ans op}
    (step : Step c (.call pid op answer) c') :
    (∃ next, c.process pid = some (.call op next) ∧
      c'.process pid = some (next answer)) ∧
      S.answer c.world pid op answer = some c'.world ∧
      ∀ other, other ≠ pid → (∀ p, S.starts op answer ≠ some (other, p)) →
        c'.process other = c.process other := by
  cases step with
  | @call _ _ next _ _ ready answered unused =>
      refine ⟨⟨next, ready, ?_⟩, ?_, ?_⟩
      · rw [Config.process_start_other _ (Config.notStarted ready unused)]
        simp [Config.resume]
      · simpa using answered
      · intro other different notStarted
        rw [Config.process_start_other _ notStarted]
        simp [Config.resume, Function.update_of_ne different]

/-- An operation that can be answered can be performed. -/
theorem exists_step
    {c : S.Config}
    {pid : S.Pid}
    {op : Op}
    {next : Ans op → Prog Op Ans S.Out}
    {answer : Ans op}
    {world : S.World}
    (ready : c.process pid = some (.call op next))
    (answered : S.answer c.world pid op answer = some world)
    (noStart : S.starts op answer = none) :
    ∃ c', Step c (.call pid op answer) c' ∧ c'.world = world ∧
      c'.process pid = some (next answer) := by
  have step := Step.call ready answered (by simp [noStart, Config.Unused])
  simp only [noStart, Config.start] at step
  exact ⟨_, step, rfl, by simp [Config.resume]⟩

/-- What the death of a process does. -/
theorem Step.kill_inv
    {c c' : S.Config}
    {pid : S.Pid}
    (step : Step c (.kill pid) c') :
    c'.world = S.bury c.world pid ∧ c'.process pid = none ∧
      ∀ other, other ≠ pid → c'.process other = c.process other := by
  cases step with
  | kill running =>
      refine ⟨rfl, ?_, ?_⟩
      · simp [Config.resume]
      · intro other different
        simp [Config.resume, Function.update_of_ne different]

/-- The processes that are left when one was killed. -/
theorem Config.process_after_kill
    {c : S.Config}
    {pid other : S.Pid}
    {q : Prog Op Ans S.Out}
    (running : (c.resume pid none).process other = some q) :
    c.process other = some q := by
  by_cases self : other = pid
  · subst self
    simp [Config.resume] at running
  · simpa only [Config.resume, Function.update_of_ne self] using running

/-- Runs from `start` all of whose steps are `allowed`, events newest first. -/
inductive Run
    (allowed : List S.Event → S.Config → S.Event → Prop)
    (start : S.Config) :
    List S.Event → S.Config → Prop where
  | nil :
      Run allowed start [] start
  | snoc
      {past : List S.Event}
      {c c' : S.Config}
      {event : S.Event}
      (earlier : Run allowed start past c)
      (step : Step c event c')
      (permitted : allowed past c event) :
      Run allowed start (event :: past) c'

/-- What holds at the start and is kept by every step holds along a run. -/
theorem Run.invariant
    {allowed : List S.Event → S.Config → S.Event → Prop}
    {start : S.Config}
    {Inv : List S.Event → S.Config → Prop}
    (initially : Inv [] start)
    (kept : ∀ {past c c' event}, Run allowed start past c → Inv past c →
      Step c event c' → allowed past c event → Inv (event :: past) c')
    {past : List S.Event}
    {c : S.Config}
    (run : Run allowed start past c) :
    Inv past c := by
  induction run with
  | nil =>
      exact initially
  | snoc earlier step permitted inductionHypothesis =>
      exact kept earlier inductionHypothesis step permitted

/-- Along a run each process performs only the operations of its kind. -/
theorem Run.onlyUses
    {allowed : List S.Event → S.Config → S.Event → Prop}
    {start : S.Config}
    {own : S.Pid → Op → Prop}
    (initially : ∀ pid p, start.process pid = some p → p.OnlyUses (own pid))
    (started : ∀ op answer child p, S.starts op answer = some (child, p) →
      p.OnlyUses (own child))
    {past : List S.Event}
    {c : S.Config}
    (run : Run allowed start past c) :
    ∀ pid p, c.process pid = some p → p.OnlyUses (own pid) := by
  induction run with
  | nil =>
      exact initially
  | @snoc past c c' event earlier step permitted inductionHypothesis =>
      intro other q running
      cases step with
      | @call pid op next answer world ready answered unused =>
          rcases Config.process_after_call ready unused running with
            starts | ⟨rfl, rfl, _⟩ | ⟨_, before, _⟩
          · exact started op answer other q starts
          · cases inductionHypothesis other _ ready with
            | call allowed rest =>
                exact rest answer
          · exact inductionHypothesis other q before
      | happen happened =>
          exact inductionHypothesis other q running
      | kill alive =>
          exact inductionHypothesis other q (Config.process_after_kill running)

/-- The step of a run at one of its events. -/
theorem Run.step_at
    {allowed : List S.Event → S.Config → S.Event → Prop}
    {start c : S.Config}
    {past earlier : List S.Event}
    {event : S.Event}
    (run : Run allowed start past c)
    (suffix : event :: earlier <:+ past) :
    ∃ before after, Run allowed start earlier before ∧ Step before event after := by
  induction run with
  | nil =>
      simp at suffix
  | snoc former step permitted inductionHypothesis =>
      rcases List.suffix_cons_iff.mp suffix with same | older
      · obtain ⟨rfl, rfl⟩ := List.cons.inj same
        exact ⟨_, _, former, step⟩
      · exact inductionHypothesis older

/-! ## Replaying a schedule -/

/-- One turn of a schedule. -/
inductive Turn (S : System Op Ans) where
  | go (pid : S.Pid) (choose : S.World → (op : Op) → Option (Ans op))
  | happen (what : S.Happening)
  | kill (pid : S.Pid)

/-- Perform an operation with a given answer, if that is possible. -/
def Config.perform (c : S.Config) (pid : S.Pid) (op : Op)
    (next : Ans op → Prog Op Ans S.Out) (answer : Ans op) :
    Option (S.Event × S.Config) :=
  match S.answer c.world pid op answer with
  | none => none
  | some world =>
      let resumed :=
        ({ c with world } : S.Config).resume pid (some (next answer))
      match S.starts op answer with
      | none => some (.call pid op answer, resumed)
      | some (child, p) =>
          if (c.process child).isNone then
            some (.call pid op answer, resumed.start (some (child, p)))
          else none

/-- Carry out one turn, if it is possible. -/
def Config.turn (c : S.Config) : Turn S → Option (S.Event × S.Config)
  | .go pid choose =>
      match c.process pid with
      | some (.call op next) =>
          (choose c.world op).bind fun answer => c.perform pid op next answer
      | _ => none
  | .happen what =>
      (S.happen c.world what).map fun world =>
        (.happen what, { c with world })
  | .kill pid =>
      (c.process pid).map fun _ =>
        (.kill pid,
          ({ c with world := S.bury c.world pid } : S.Config).resume pid none)

/-- Carry out a schedule; the events are collected newest first. -/
def Config.play (c : S.Config) (past : List S.Event) :
    List (Turn S) → Option (List S.Event × S.Config)
  | [] => some (past, c)
  | turn :: rest =>
      match c.turn turn with
      | some (event, c') => c'.play (event :: past) rest
      | none => none

theorem Config.step_of_perform
    {c c' : S.Config}
    {pid : S.Pid}
    {op : Op}
    {next : Ans op → Prog Op Ans S.Out}
    {answer : Ans op}
    {event : S.Event}
    (ready : c.process pid = some (.call op next))
    (performed : c.perform pid op next answer = some (event, c')) :
    Step c event c' := by
  simp only [Config.perform] at performed
  split at performed
  · simp at performed
  · rename_i world answered
    split at performed
    · rename_i starts
      simp only [Option.some.injEq, Prod.mk.injEq] at performed
      obtain ⟨rfl, rfl⟩ := performed
      have step := Step.call ready answered (by simp [starts, Unused])
      simpa [starts, Config.start] using step
    · rename_i child p starts
      split at performed
      · rename_i unused
        simp only [Option.some.injEq, Prod.mk.injEq] at performed
        obtain ⟨rfl, rfl⟩ := performed
        have step := Step.call ready answered
          (by simpa [starts, Unused] using unused)
        simpa [starts] using step
      · simp at performed

theorem Config.step_of_turn
    {c c' : S.Config}
    {turn : Turn S}
    {event : S.Event}
    (taken : c.turn turn = some (event, c')) :
    Step c event c' := by
  cases turn with
  | go pid choose =>
      simp only [Config.turn] at taken
      split at taken
      · rename_i op next ready
        simp only [Option.bind_eq_some_iff] at taken
        obtain ⟨answer, _, performed⟩ := taken
        exact step_of_perform ready performed
      · simp at taken
  | happen what =>
      simp only [Config.turn, Option.map_eq_some_iff, Prod.mk.injEq] at taken
      obtain ⟨world, happened, rfl, rfl⟩ := taken
      exact .happen happened
  | kill pid =>
      simp only [Config.turn, Option.map_eq_some_iff, Prod.mk.injEq] at taken
      obtain ⟨p, running, rfl, rfl⟩ := taken
      exact .kill running

/-- The turn of a process is an operation of it. -/
theorem Config.call_of_turn
    {c c' : S.Config}
    {pid : S.Pid}
    {choose : S.World → (op : Op) → Option (Ans op)}
    {event : S.Event}
    (taken : c.turn (.go pid choose) = some (event, c')) :
    ∃ op answer, Step c (.call pid op answer) c' := by
  have step := step_of_turn taken
  simp only [Config.turn] at taken
  split at taken
  · rename_i op next ready
    simp only [Option.bind_eq_some_iff] at taken
    obtain ⟨answer, _, performed⟩ := taken
    have isCall : event = .call pid op answer := by
      simp only [Config.perform] at performed
      split at performed
      · cases performed
      · split at performed
        · cases performed
          rfl
        · split at performed
          · cases performed
            rfl
          · cases performed
    exact ⟨op, answer, isCall ▸ step⟩
  · cases taken

/-- A schedule that can be carried out is a run. -/
theorem Config.run_of_play
    {start : S.Config}
    {schedule : List (Turn S)} :
    ∀ {c c' : S.Config} {past past' : List S.Event},
      Run (fun _ _ _ => True) start past c →
      c.play past schedule = some (past', c') →
      Run (fun _ _ _ => True) start past' c' := by
  induction schedule with
  | nil =>
      intro c c' past past' run played
      simp only [Config.play, Option.some.injEq, Prod.mk.injEq] at played
      obtain ⟨rfl, rfl⟩ := played
      exact run
  | cons turn rest inductionHypothesis =>
      intro c c' past past' run played
      simp only [Config.play] at played
      split at played
      · rename_i event middle taken
        exact inductionHypothesis (.snoc run (step_of_turn taken) trivial) played
      · simp at played

theorem Run.mono
    {allowed allowed' : List S.Event → S.Config → S.Event → Prop}
    {start c : S.Config}
    {past : List S.Event}
    (weaker : ∀ past c event, allowed past c event → allowed' past c event)
    (run : Run allowed start past c) :
    Run allowed' start past c := by
  induction run with
  | nil =>
      exact .nil
  | snoc earlier step permitted inductionHypothesis =>
      exact .snoc inductionHypothesis step (weaker _ _ _ permitted)

/-- A run all of whose steps satisfy a condition on the events. -/
theorem Run.restrict
    {allowed : List S.Event → S.Event → Prop}
    {start c : S.Config}
    {past : List S.Event}
    (run : Run (fun _ _ _ => True) start past c)
    (permitted : ∀ event earlier, event :: earlier <:+ past →
      allowed earlier event) :
    Run (fun past _ event => allowed past event) start past c := by
  induction run with
  | nil =>
      exact .nil
  | snoc earlier step _ inductionHypothesis =>
      refine .snoc (inductionHypothesis ?_) step
        (permitted _ _ List.suffix_rfl)
      intro event before suffix
      exact permitted event before (suffix.trans (List.suffix_cons _ _))

/-- Replay a schedule from the start. -/
theorem Config.run_of_play_start
    {start c : S.Config}
    {schedule : List (Turn S)}
    {past : List S.Event}
    (played : start.play [] schedule = some (past, c)) :
    Run (fun _ _ _ => True) start past c :=
  run_of_play .nil played

/-! ## One process alone -/

/-- A world with one process. -/
def Config.solo (world : S.World) (pid : S.Pid) (p : Prog Op Ans S.Out) :
    S.Config where
  world
  process := Function.update (fun _ => none) pid (some p)

end System

end Myrun
