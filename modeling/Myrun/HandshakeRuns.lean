import Myrun.Handshake

namespace Myrun

namespace Handshake

/-!
# Runs of the handshake

What holds in every interleaving of a launch and the init it clones, with
either process failing or dying anywhere.  The frames on their way are counted
against the views of both processes; the counts decide whose turn it is.
-/

open Prog

/-- The interleavings of a launch and its init. -/
abbrev Reached [F64Ops] (st : ContainerState) :
    List pair.Event → pair.Config → Prop :=
  System.Run (fun _ _ _ => True) (begin st)

/-- What a process has done, in its own view. -/
abbrev viewOf (st : ContainerState) (past : List pair.Event) (party : Party) :
    View :=
  System.views (S := pair) (steps st) (fun _ _ => {}) (fun _ => {}) past party

/-- An event as an operation of the supervisor. -/
def parentOp? : pair.Event → Option ((op : Op) × Ans op)
  | .call .parent (.parent op) answer => some ⟨op, answer⟩
  | _ => none

/-- The operations of the supervisor in a run, oldest first. -/
def parentOps (past : List pair.Event) : List ((op : Op) × Ans op) :=
  past.reverse.filterMap parentOp?

/-- An event as an operation of init. -/
def initOp? : pair.Event → Option ((op : InitOp) × InitAns op)
  | .call .init (.init op) answer => some ⟨op, answer⟩
  | _ => none

/-- The operations of init in a run, oldest first. -/
def initOps (past : List pair.Event) : List ((op : InitOp) × InitAns op) :=
  past.reverse.filterMap initOp?

/-- The return of `launch`. -/
def Returned (ok : Bool) (past : List pair.Event) : Prop :=
  .call .parent (.finish ok) () ∈ past

/-- Init has sent the started frame. -/
def StartedSent (past : List pair.Event) : Prop :=
  .call .init (.init (.send .started)) (.ok ()) ∈ past

/-- Init was killed or has exited. -/
def InitEnded (past : List pair.Event) : Prop :=
  .kill .init ∈ past ∨ ∃ code, .call .init (.init (.exit code)) () ∈ past

/-- The supervisor waits for a frame that is not there. -/
def ParentBlocked (c : pair.Config) : Prop :=
  ∃ pid next,
    c.process .parent = some (.call (.parent (.channel (.recv pid))) next) ∧
      c.world.toParent = [] ∧ c.world.initOpen = true

/-- Init waits for a frame that is not there. -/
def InitBlocked (c : pair.Config) : Prop :=
  ∃ next,
    c.process .init = some (.call (.init .recv) next) ∧
      c.world.toInit = [] ∧ c.world.parentOpen = true

/-! ## Each process performs its own operations -/

/-- The operations of a process. -/
def Party.Own : Party → PairOp → Prop
  | .parent, .parent _ => True
  | .parent, .finish _ => True
  | .init, .init _ => True
  | _, _ => False

private theorem parentProgram_own [F64Ops] (st : ContainerState) :
    OnlyUses Party.parent.Own (parentProgram st) :=
  (OnlyUses.map (fun _ => trivial) _ _).bind fun _ =>
    .call trivial fun _ => .ret _

private theorem initProgram_own :
    OnlyUses Party.init.Own initProgram :=
  .map (fun _ => trivial) _ _

private theorem starts_eq
    {op : PairOp}
    {answer : PairAns op}
    {child : Party}
    {p : Prog PairOp PairAns Unit}
    (started : starts op answer = some (child, p)) :
    child = .init ∧ p = initProgram ∧
      ∃ id cgroup, op = .parent (.cloneInit id cgroup) := by
  unfold starts at started
  split at started
  · simp only [Option.some.injEq, Prod.mk.injEq] at started
    exact ⟨started.1.symm, started.2.symm, _, _, rfl⟩
  · simp at started

variable {st : ContainerState} {past : List pair.Event} {c : pair.Config}

private theorem disciplined [F64Ops] (st : ContainerState) :
    System.Disciplined (S := pair) (steps st) (fun _ _ => {}) (fun _ => {})
      (fun _ _ _ => True) (begin st) where
  initially := by
    intro party p running
    cases party with
    | parent =>
        obtain rfl : parentProgram st = p := Option.some.inj running
        exact parentProgram_follows st
    | init =>
        simp [begin] at running
  started := by
    intro op answer child p started
    obtain ⟨_, rfl, _⟩ := starts_eq started
    exact initProgram_follows st
  answers := fun _ _ _ _ _ _ _ _ => trivial

/-- Along a run each process performs its own operations. -/
theorem own [F64Ops]
    (run : Reached st past c) :
    ∀ party p, c.process party = some p → OnlyUses (Party.Own party) p := by
  refine run.onlyUses ?_ ?_
  · intro party p running
    cases party with
    | parent =>
        obtain rfl : parentProgram st = p := Option.some.inj running
        exact parentProgram_own st
    | init =>
        simp [begin] at running
  · intro op answer child p started
    obtain ⟨rfl, rfl, _⟩ := starts_eq started
    exact initProgram_own

/-! ## The invariant -/

/-- What holds in every state of a handshake. -/
structure Inv (st : ContainerState) (past : List pair.Event)
    (c : pair.Config) : Prop where
  launchTrace : (viewOf st past .parent).launchTrace = parentOps past
  initTrace : (viewOf st past .init).initTrace = initOps past
  toParent : c.world.toParent.length + (viewOf st past .parent).received =
    (viewOf st past .init).sent
  toInit : c.world.toInit.length + (viewOf st past .init).received =
    (viewOf st past .parent).sent
  unborn : (viewOf st past .parent).cloned = false →
    c.process .init = none ∧ viewOf st past .init = {}
  started : .started ∈ c.world.toParent ∨
    (viewOf st past .parent).started = true → StartedSent past
  prepared : 0 < (viewOf st past .parent).sent →
    ∃ before, before <+: parentOps past ∧ Prepared st before

private theorem parent_not_started
    {op : PairOp}
    {answer : PairAns op}
    (p : Prog PairOp PairAns Unit) :
    pair.starts op answer ≠ some (.parent, p) := by
  intro started
  have isInit := (starts_eq started).1
  simp at isInit

private theorem viewOf_parent
    (st : ContainerState)
    (past : List pair.Event)
    (op : PairOp)
    (answer : PairAns op) :
    viewOf st (.call .parent op answer :: past) .parent =
      (viewOf st past .parent).after op answer :=
  System.views_call_self parent_not_started

private theorem viewOf_parent_of_init
    (st : ContainerState)
    (past : List pair.Event)
    (op : PairOp)
    (answer : PairAns op) :
    viewOf st (.call .init op answer :: past) .parent =
      viewOf st past .parent :=
  System.views_call_other (S := pair) nofun parent_not_started

private theorem viewOf_init
    (st : ContainerState)
    (past : List pair.Event)
    (op : InitOp)
    (answer : InitAns op) :
    viewOf st (.call .init (.init op) answer :: past) .init =
      (viewOf st past .init).after (.init op) answer :=
  System.views_call_self (S := pair) fun _ => by simp [pair, starts]

private theorem viewOf_init_of_parent
    {op : PairOp}
    {answer : PairAns op}
    (fresh : ∀ id cgroup, op = .parent (.cloneInit id cgroup) →
      viewOf st past .init = {}) :
    viewOf st (.call .parent op answer :: past) .init =
      viewOf st past .init := by
  by_cases started : ∃ p, pair.starts op answer = some (.init, p)
  · obtain ⟨p, started⟩ := started
    obtain ⟨_, _, id, cgroup, isClone⟩ := starts_eq started
    rw [fresh id cgroup isClone]
    exact System.views_call_child started
  · exact System.views_call_other (S := pair) nofun
      fun p starts => started ⟨p, starts⟩

private theorem parentOps_cons
    (event : pair.Event)
    (past : List pair.Event) :
    parentOps (event :: past) = parentOps past ++ (parentOp? event).toList := by
  cases seen : parentOp? event <;> simp [parentOps, seen]

private theorem parentOps_mono
    {earlier : List pair.Event}
    (suffix : earlier <:+ past) :
    parentOps earlier <+: parentOps past :=
  (List.reverse_prefix.mpr suffix).filterMap _

private theorem initOps_cons
    (event : pair.Event)
    (past : List pair.Event) :
    initOps (event :: past) = initOps past ++ (initOp? event).toList := by
  cases seen : initOp? event <;> simp [initOps, seen]

private theorem initOps_mono
    {earlier : List pair.Event}
    (suffix : earlier <:+ past) :
    initOps earlier <+: initOps past :=
  (List.reverse_prefix.mpr suffix).filterMap _

private theorem begin_inv [F64Ops]
    (st : ContainerState) :
    Inv st [] (begin st) where
  launchTrace := rfl
  initTrace := rfl
  toParent := rfl
  toInit := rfl
  unborn _ := ⟨rfl, rfl⟩
  started := by
    rintro (queued | received)
    · simp [begin] at queued
    · simp [viewOf, System.views] at received
  prepared := by
    intro sent
    simp [viewOf, System.views] at sent

/-- A step of the supervisor keeps the invariant. -/
theorem Inv.parent
    {c' : pair.Config}
    {op : Op}
    {answer : Ans op}
    (inv : Inv st past c)
    (answered : Wire.parentAnswer c.world op answer = some c'.world)
    (required : (viewOf st past .parent).requiresParent st op)
    (sameInit : starts (.parent op) answer = none →
      c'.process .init = c.process .init) :
    Inv st (.call .parent (.parent op) answer :: past) c' := by
  have parentView := viewOf_parent st past (.parent op) answer
  have initView : viewOf st (.call .parent (.parent op) answer :: past) .init =
      viewOf st past .init := by
    refine viewOf_init_of_parent ?_
    rintro id cgroup isClone
    obtain rfl : op = .cloneInit id cgroup := by
      simpa using isClone
    exact (inv.unborn required).2
  have effect : ParentEffect c.world c'.world (viewOf st past .parent) op answer :=
    parentEffect_of_answer answered
  refine ⟨?_, ?_, ?_, ?_, ?_, ?_, ?_⟩
  · rw [parentView, parentOps_cons, ← inv.launchTrace]
    rfl
  · rw [initView, initOps_cons, inv.initTrace]
    simp [initOp?]
  · rw [parentView, initView, ← inv.toParent]
    cases effect with
    | received queued same =>
        simp only [View.after, View.countParent, queued, List.length_cons]
        omega
    | told queued same =>
        simp only [View.after, View.countParent, same]
    | other toParent toInit received sent started =>
        simp only [View.after, toParent, received]
  · rw [parentView, initView]
    have counted := inv.toInit
    cases effect with
    | received queued same =>
        simpa only [View.after, View.countParent, same] using counted
    | told queued same =>
        simp only [View.after, View.countParent, queued, List.length_append,
          List.length_singleton]
        omega
    | other toParent toInit received sent started =>
        simpa only [View.after, toInit, sent] using counted
  · rw [parentView, initView]
    intro unborn
    obtain ⟨before, noStart⟩ := uncloned_of_count unborn
    exact ⟨(sameInit noStart).trans (inv.unborn before).1, (inv.unborn before).2⟩
  · rw [parentView]
    intro seen
    have before : .started ∈ Wire.toParent c.world ∨
        (viewOf st past .parent).started = true := by
      cases effect with
      | received queued same =>
          simp only [View.after, View.countParent, Bool.or_eq_true,
            decide_eq_true_eq] at seen
          rw [queued]
          grind
      | told queued same =>
          simpa only [View.after, View.countParent, same] using seen
      | other toParent toInit received sent started =>
          simpa only [View.after, toParent, started] using seen
    exact List.mem_cons_of_mem _ (inv.started before)
  · rw [parentView]
    intro sent
    have older : parentOps past <+:
        parentOps (.call .parent (.parent op) answer :: past) :=
      parentOps_mono (List.suffix_cons _ _)
    by_cases earlier : 0 < (viewOf st past .parent).sent
    · obtain ⟨before, isBefore, prepared⟩ := inv.prepared earlier
      exact ⟨before, isBefore.trans older, prepared⟩
    · cases effect with
      | received queued same =>
          exact absurd sent earlier
      | told queued same =>
          refine ⟨parentOps past, older, ?_⟩
          rw [← inv.launchTrace]
          exact required.2
      | other toParent toInit received sent' started =>
          rw [View.after, sent'] at sent
          exact absurd sent earlier

/-- An event that no view shows and that leaves the queues alone keeps the
invariant. -/
theorem Inv.unseen
    {c' : pair.Config}
    {event : pair.Event}
    (inv : Inv st past c)
    (views : ∀ party, viewOf st (event :: past) party = viewOf st past party)
    (notParent : parentOp? event = none)
    (notInit : initOp? event = none)
    (toParent : Wire.toParent c'.world = Wire.toParent c.world)
    (toInit : Wire.toInit c'.world = Wire.toInit c.world)
    (sameInit : c.process .init = none → c'.process .init = none) :
    Inv st (event :: past) c' := by
  refine ⟨?_, ?_, ?_, ?_, ?_, ?_, ?_⟩
  · rw [views, parentOps_cons, inv.launchTrace, notParent, Option.toList_none,
      List.append_nil]
  · rw [views, initOps_cons, inv.initTrace, notInit, Option.toList_none,
      List.append_nil]
  · rw [views, views, toParent]
    exact inv.toParent
  · rw [views, views, toInit]
    exact inv.toInit
  · rw [views, views]
    intro unborn
    exact ⟨sameInit (inv.unborn unborn).1, (inv.unborn unborn).2⟩
  · rw [views, toParent]
    intro seen
    exact List.mem_cons_of_mem _ (inv.started seen)
  · rw [views]
    intro sent
    obtain ⟨before, isBefore, prepared⟩ := inv.prepared sent
    exact ⟨before, isBefore.trans (parentOps_mono (List.suffix_cons _ _)), prepared⟩

/-- A step of init keeps the invariant. -/
theorem Inv.init
    {c' : pair.Config}
    {op : InitOp}
    {answer : InitAns op}
    {p : Prog PairOp PairAns Unit}
    (inv : Inv st past c)
    (alive : c.process .init = some p)
    (answered : Wire.initAnswer c.world op answer = some c'.world) :
    Inv st (.call .init (.init op) answer :: past) c' := by
  have parentView := viewOf_parent_of_init st past (.init op) answer
  have initView := viewOf_init st past op answer
  have effect : InitEffect c.world c'.world (viewOf st past .init) op answer :=
    initEffect_of_answer answered
  refine ⟨?_, ?_, ?_, ?_, ?_, ?_, ?_⟩
  · rw [parentView, parentOps_cons, inv.launchTrace]
    simp [parentOp?]
  · rw [initView, initOps_cons, ← inv.initTrace]
    rfl
  · rw [parentView, initView]
    have counted := inv.toParent
    cases effect with
    | received queued same =>
        simpa only [View.after, View.countInit, same] using counted
    | told queued same =>
        simp only [View.after, View.countInit, queued, List.length_append,
          List.length_singleton]
        omega
    | other toParent toInit received sent =>
        simpa only [View.after, toParent, sent] using counted
  · rw [parentView, initView, ← inv.toInit]
    cases effect with
    | received queued same =>
        simp only [View.after, View.countInit, queued, List.length_cons]
        omega
    | told queued same =>
        simp only [View.after, View.countInit, same]
    | other toParent toInit received sent =>
        simp only [View.after, toInit, received]
  · rw [parentView]
    intro unborn
    have notAlive := (inv.unborn unborn).1
    simp [alive] at notAlive
  · rw [parentView]
    intro seen
    have before : (.started ∈ Wire.toParent c.world ∨
        (viewOf st past .parent).started = true) ∨
          (.call .init (.init op) answer : pair.Event) =
            .call .init (.init (.send .started)) (.ok ()) := by
      cases effect with
      | received queued same =>
          exact .inl (by simpa only [same] using seen)
      | @told frame queued same =>
          rw [queued, List.mem_append, List.mem_singleton] at seen
          rcases seen with (queuedBefore | rfl) | received
          · exact .inl (.inl queuedBefore)
          · exact .inr rfl
          · exact .inl (.inr received)
      | other toParent toInit received sent =>
          exact .inl (by simpa only [toParent] using seen)
    rcases before with before | now
    · exact List.mem_cons_of_mem _ (inv.started before)
    · rw [StartedSent, now]
      exact List.mem_cons_self
  · rw [parentView]
    intro sent
    obtain ⟨before, isBefore, prepared⟩ := inv.prepared sent
    exact ⟨before, isBefore.trans (parentOps_mono (List.suffix_cons _ _)), prepared⟩

private theorem queues_of_finish
    {w w' : Wire}
    {ok : Bool}
    (answered : w.answer (.finish ok) () = some w') :
    w'.toParent = w.toParent ∧ w'.toInit = w.toInit := by
  simp only [Wire.answer, Option.some.injEq] at answered
  subst answered
  split <;> exact ⟨rfl, rfl⟩

private theorem queues_of_bury
    (w : Wire)
    (party : Party) :
    (w.bury party).toParent = w.toParent ∧ (w.bury party).toInit = w.toInit := by
  cases party <;> exact ⟨rfl, rfl⟩

/-- An operation keeps the invariant. -/
theorem Inv.call
    {c' : pair.Config}
    {party : Party}
    {op : PairOp}
    {answer : PairAns op}
    (inv : Inv st past c)
    (owned : party.Own op)
    (required : (viewOf st past party).requires st op)
    (step : System.Step c (.call party op answer) c') :
    Inv st (.call party op answer :: past) c' := by
  obtain ⟨⟨next, ready, _⟩, answered, others⟩ := step.call_inv
  cases party with
  | parent =>
      cases op with
      | parent op =>
          refine inv.parent answered required ?_
          intro noStart
          refine others .init nofun ?_
          intro p started
          have none : starts (.parent op) answer = some (.init, p) := started
          simp [noStart] at none
      | finish ok =>
          obtain ⟨toParent, toInit⟩ := queues_of_finish answered
          refine inv.unseen ?_ rfl rfl toParent toInit ?_
          · intro other
            cases other with
            | parent => exact viewOf_parent st past (.finish ok) answer
            | init => exact viewOf_init_of_parent (by simp)
          · intro absent
            exact (others .init nofun nofun).trans absent
      | init op => exact False.elim owned
  | init =>
      cases op with
      | init op => exact inv.init ready answered
      | parent op => exact False.elim owned
      | finish ok => exact False.elim owned

/-- The invariant holds along every run. -/
theorem inv_of_reached [F64Ops]
    (run : Reached st past c) :
    Inv st past c := by
  refine run.invariant (begin_inv st) ?_
  intro past c c' event before inv step _
  cases event with
  | call party op answer =>
      obtain ⟨⟨next, ready, _⟩, _⟩ := step.call_inv
      have owned : Party.Own party op := by
        cases own before party _ ready with
        | call allowed rest => exact allowed
      exact inv.call owned (before.requires (disciplined st) step) step
  | happen what => exact nomatch what
  | kill party =>
      obtain ⟨buried, gone, others⟩ := step.kill_inv
      have queues := queues_of_bury c.world party
      refine inv.unseen (fun _ => rfl) rfl rfl ?_ ?_ ?_
      · rw [buried]
        exact queues.1
      · rw [buried]
        exact queues.2
      · intro absent
        cases party with
        | parent => exact (others .init nofun).trans absent
        | init => exact gone

/-! ## Order and agreement -/

/-- Init runs `setup` only after the network is set up and handed over. -/
theorem prepared_before_setup [F64Ops]
    (run : Reached st past c)
    {op : InitOp}
    {answer : InitAns op}
    {earlier : List pair.Event}
    (suffix : .call .init (.init op) answer :: earlier <:+ past)
    (inside : inSetup op = true) :
    ∃ before, before <+: parentOps earlier ∧ Prepared st before := by
  obtain ⟨c₁, c₂, reached, step⟩ := run.step_at suffix
  have inv := inv_of_reached reached
  have required : (viewOf st earlier .init).requiresInit op :=
    reached.requires (disciplined st) step
  have told : 0 < (viewOf st earlier .init).received := by
    cases op with
    | recv => simp [inSetup] at inside
    | send frame => simp [inSetup] at inside
    | _ => exact required inside
  refine inv.prepared ?_
  have counted := inv.toInit
  omega

/-- The started frame is sent only after the fork. -/
theorem forked_before_started [F64Ops]
    (run : Reached st past c)
    (sent : StartedSent past) :
    ∃ before, before <+: initOps past ∧ Forked before := by
  obtain ⟨newer, earlier, rfl⟩ := List.append_of_mem sent
  have suffix := List.suffix_append newer
    (.call .init (.init (.send .started)) (.ok ()) :: earlier)
  obtain ⟨c₁, c₂, reached, step⟩ := run.step_at suffix
  have forked : Forked (viewOf st earlier .init).initTrace :=
    reached.requires (disciplined st) step
  rw [(inv_of_reached reached).initTrace] at forked
  exact ⟨initOps earlier, initOps_mono ((List.suffix_cons _ _).trans suffix), forked⟩

/-- `launch` succeeds only after the started frame was sent. -/
theorem started_of_returned [F64Ops]
    (run : Reached st past c)
    (returned : Returned true past) :
    StartedSent past := by
  obtain ⟨newer, earlier, rfl⟩ := List.append_of_mem returned
  have suffix := List.suffix_append newer
    (.call .parent (.finish true) () :: earlier)
  obtain ⟨c₁, c₂, reached, step⟩ := run.step_at suffix
  have started : (viewOf st earlier .parent).started = true :=
    reached.requires (disciplined st) step rfl
  have sent := (inv_of_reached reached).started (.inr started)
  exact ((List.suffix_cons _ _).trans suffix).subset sent

/-- The two processes do not wait for each other. -/
theorem not_both_blocked [F64Ops]
    (run : Reached st past c) :
    ¬ (ParentBlocked c ∧ InitBlocked c) := by
  rintro ⟨⟨pid, next, parentReads, noFrame, _⟩, next', initReads, noGo, _⟩
  have inv := inv_of_reached run
  have parentTurn : (viewOf st past .parent).requiresParent st
      (.channel (.recv pid)) :=
    (run.follows (disciplined st) .parent _ parentReads).1
  have initTurn : (viewOf st past .init).requiresInit .recv :=
    (run.follows (disciplined st) .init _ initReads).1
  have framesBack := inv.toParent
  have framesForth := inv.toInit
  simp only [View.requiresParent] at parentTurn
  simp only [View.requiresInit] at initTurn
  simp only [noFrame, noGo, List.length_nil] at framesBack framesForth
  omega

/-! ## The supervisor returns -/

/-- The return of `launch`, as an operation. -/
def Finishes : PairOp → Prop
  | .finish _ => True
  | _ => False

/-- An operation of the supervisor that is not a failed read. -/
def Proceeds : pair.Event → Prop
  | .call .parent (.parent (.channel (.recv _))) (.error _) => False
  | .call .parent _ _ => True
  | _ => False

private theorem closed_of_parentAnswer
    {w w' : Wire}
    {op : Op}
    {answer : Ans op}
    (closed : w.initOpen = false)
    (answered : w.parentAnswer op answer = some w') :
    w'.initOpen = false := by
  unfold Wire.parentAnswer at answered
  split at answered
  · simp only [Option.map_eq_some_iff] at answered
    obtain ⟨queue, _, rfl⟩ := answered
    exact closed
  · simp [closed] at answered
  · obtain rfl := Option.some.inj answered
    exact closed
  · obtain rfl := Option.some.inj answered
    exact closed

private theorem closed_of_initAnswer
    {w w' : Wire}
    {op : InitOp}
    {answer : InitAns op}
    (closed : w.initOpen = false)
    (answered : w.initAnswer op answer = some w') :
    w'.initOpen = false := by
  unfold Wire.initAnswer at answered
  split at answered
  · simp only [Option.map_eq_some_iff] at answered
    obtain ⟨queue, _, rfl⟩ := answered
    exact closed
  · split at answered
    · obtain rfl := Option.some.inj answered
      exact closed
    · simp at answered
  · obtain rfl := Option.some.inj answered
    exact closed
  · obtain rfl := Option.some.inj answered
    rfl
  · obtain rfl := Option.some.inj answered
    exact closed

/-- An end that is closed stays closed. -/
theorem closed_of_step
    {c' : pair.Config}
    {event : pair.Event}
    (closed : Wire.initOpen c.world = false)
    (step : System.Step c event c') :
    Wire.initOpen c'.world = false := by
  cases event with
  | call party op answer =>
      have answered : Wire.answer c.world op answer = some c'.world :=
        step.call_inv.2.1
      cases op with
      | parent op => exact closed_of_parentAnswer closed answered
      | init op => exact closed_of_initAnswer closed answered
      | finish ok =>
          have now := Option.some.inj answered
          rw [← now]
          cases ok <;> exact closed
  | happen what => exact nomatch what
  | kill party =>
      rw [step.kill_inv.1]
      cases party with
      | parent => exact closed
      | init => rfl

private theorem closed_of_ended [F64Ops]
    (run : Reached st past c)
    (ended : InitEnded past) :
    Wire.initOpen c.world = false := by
  induction run with
  | nil =>
      simp [InitEnded] at ended
  | @snoc past c c' event earlier step _ inductionHypothesis =>
      by_cases before : InitEnded past
      · exact closed_of_step (inductionHypothesis before) step
      · have now : event = .kill .init ∨
            ∃ code, event = .call .init (.init (.exit code)) () := by
          simp only [InitEnded, List.mem_cons] at ended before
          grind
        rcases now with rfl | ⟨code, rfl⟩
        · rw [step.kill_inv.1]
          rfl
        · have answered : Wire.answer c.world (.init (.exit code)) () =
              some c'.world :=
            step.call_inv.2.1
          rw [← Option.some.inj answered]

/-- Until it has returned, the supervisor is on its way to its return. -/
theorem inevitable_of_running [F64Ops]
    (run : Reached st past c)
    (alive : .kill .parent ∉ past) :
    (∃ ok, Returned ok past) ∨
      ∃ p, c.process .parent = some p ∧ p.Inevitable Finishes := by
  induction run with
  | nil =>
      refine .inr ⟨parentProgram st, rfl, ?_⟩
      refine Inevitable.bind ?_ _
      intro outcome
      exact Or.inl trivial
  | @snoc past c c' event earlier step _ inductionHypothesis =>
      simp only [List.mem_cons, not_or] at alive
      rcases inductionHypothesis alive.2 with ⟨ok, returned⟩ | ⟨p, running, onItsWay⟩
      · exact .inl ⟨ok, List.mem_cons_of_mem _ returned⟩
      · cases event with
        | call party op answer =>
            obtain ⟨⟨next, ready, resumed⟩, _, others⟩ := step.call_inv
            cases party with
            | init =>
                refine .inr ⟨p, ?_, onItsWay⟩
                rw [others .parent nofun parent_not_started, running]
            | parent =>
                obtain rfl : p = .call op next :=
                  Option.some.inj (running.symm.trans ready)
                rcases onItsWay with finishes | later
                · cases op with
                  | finish ok => exact .inl ⟨ok, List.mem_cons_self⟩
                  | parent op => exact False.elim finishes
                  | init op => exact False.elim finishes
                · exact .inr ⟨next answer, resumed, later answer⟩
        | happen what => exact nomatch what
        | kill party =>
            obtain ⟨_, _, others⟩ := step.kill_inv
            cases party with
            | parent => exact absurd rfl alive.1
            | init =>
                refine .inr ⟨p, ?_, onItsWay⟩
                rw [others .parent nofun, running]

private theorem host_answerable (op : HostOp) :
    Nonempty (HostAns op) := by
  cases op <;> first
    | exact ⟨.error (.io "")⟩
    | exact ⟨()⟩
    | exact ⟨true⟩
    | exact ⟨(0 : UInt64)⟩
    | exact ⟨none⟩
    | exact ⟨Poll.timeout⟩
    | exact ⟨Rmdir.busy⟩

/-- Once init's end is closed, every operation of the supervisor has an answer
that does not start a process. -/
theorem parent_answerable
    {w : Wire}
    (closed : w.initOpen = false)
    {op : Op}
    (notSpin : op ≠ .spin) :
    ∃ answer w', w.parentAnswer op answer = some w' ∧ w'.initOpen = false ∧
      starts (.parent op) answer = none ∧
      Proceeds (.call .parent (.parent op) answer) := by
  cases op with
  | spin => exact absurd rfl notSpin
  | host op =>
      obtain ⟨answer⟩ := host_answerable op
      exact ⟨answer, w, rfl, closed, rfl, trivial⟩
  | channel op =>
      cases op with
      | recv pid =>
          cases queue : w.toParent with
          | nil =>
              refine ⟨.ok none, { w with toParent := [] }, ?_, closed, rfl, trivial⟩
              simp [Wire.parentAnswer, readFrame?, queue, closed]
          | cons frame rest =>
              refine ⟨.ok (some frame), { w with toParent := rest }, ?_, closed,
                rfl, trivial⟩
              simp [Wire.parentAnswer, readFrame?, queue]
      | sendGo pid => exact ⟨.error (.io ""), w, rfl, closed, rfl, trivial⟩
      | writeNetstate id net => exact ⟨.ok (), w, rfl, closed, rfl, trivial⟩
  | openLock id => exact ⟨.error (.io ""), w, rfl, closed, rfl, trivial⟩
  | flock file => exact ⟨.ok (), w, rfl, closed, rfl, trivial⟩
  | funlock file => exact ⟨(), w, rfl, closed, rfl, trivial⟩
  | readState id => exact ⟨.error (.io ""), w, rfl, closed, rfl, trivial⟩
  | writeState place st => exact ⟨.ok (), w, rfl, closed, rfl, trivial⟩
  | removeDir id => exact ⟨.removed, w, rfl, closed, rfl, trivial⟩
  | dirEntries => exact ⟨.ok [], w, rfl, closed, rfl, trivial⟩
  | stateExists id => exact ⟨true, w, rfl, closed, rfl, trivial⟩
  | launching id => exact ⟨(), w, rfl, closed, rfl, trivial⟩
  | cloneInit id cgroup => exact ⟨.error (.io ""), w, rfl, closed, rfl, trivial⟩
  | procStat pid => exact ⟨.error (.io ""), w, rfl, closed, rfl, trivial⟩
  | waitPid pid nohang => exact ⟨.ok none, w, rfl, closed, rfl, trivial⟩
  | forkShim id rounds => exact ⟨.error (.io ""), w, rfl, closed, rfl, trivial⟩
  | getpid => exact ⟨(0 : Pid), w, rfl, closed, rfl, trivial⟩
  | notify notice => exact ⟨(), w, rfl, closed, rfl, trivial⟩
  | readNotify shim => exact ⟨.closed, w, rfl, closed, rfl, trivial⟩

/-- When init is gone, the supervisor can go on to its return, without failing
reads. -/
theorem return_reachable [F64Ops]
    {p : Prog PairOp PairAns Unit}
    (run : Reached st past c)
    (running : c.process .parent = some p)
    (onItsWay : p.Inevitable Finishes)
    (closed : Wire.initOpen c.world = false) :
    ∃ more c', Reached st (more ++ past) c' ∧
      (∃ ok, Returned ok (more ++ past)) ∧ ∀ event ∈ more, Proceeds event := by
  induction p generalizing past c with
  | ret value =>
      exact False.elim onItsWay
  | call op next inductionHypothesis =>
      have owned : Party.Own .parent op := by
        cases own run .parent _ running with
        | call allowed rest => exact allowed
      cases op with
      | init op => exact False.elim owned
      | finish ok =>
          obtain ⟨c', step, _, _⟩ :=
            System.exists_step (S := pair) running rfl rfl
          refine ⟨[.call .parent (.finish ok) ()], c', .snoc run step trivial,
            ⟨ok, List.mem_cons_self⟩, ?_⟩
          intro event member
          obtain rfl := List.mem_singleton.mp member
          trivial
      | parent op =>
          have required : (viewOf st past .parent).requiresParent st op :=
            (run.follows (disciplined st) .parent _ running).1
          have notSpin : op ≠ .spin := by
            rintro rfl
            exact required
          have later : ∀ answer, (next answer).Inevitable Finishes := by
            rcases onItsWay with finishes | later
            · exact False.elim finishes
            · exact later
          obtain ⟨answer, w, answered, stillClosed, noStart, proceeds⟩ :=
            parent_answerable closed notSpin
          obtain ⟨c', step, world, resumed⟩ :=
            System.exists_step (S := pair) running answered noStart
          obtain ⟨more, c'', reached, returned, proceed⟩ :=
            inductionHypothesis answer (.snoc run step trivial) resumed
              (later answer) (world ▸ stillClosed)
          refine ⟨more ++ [.call .parent (.parent op) answer], c'', ?_, ?_, ?_⟩
          · simpa using reached
          · simpa using returned
          · intro event member
            rcases List.mem_append.mp member with newer | last
            · exact proceed event newer
            · obtain rfl := List.mem_singleton.mp last
              exact proceeds

/-! ## Safety of the handshake -/

/-- Safety of a handshake, in one of its states. -/
structure Safe [F64Ops] (st : ContainerState) (past : List pair.Event)
    (c : pair.Config) : Prop where
  /-- init runs `setup` only after `setup_host` and `netstate.json` -/
  setupLast : ∀ op answer earlier, .call .init (.init op) answer :: earlier <:+ past →
    inSetup op = true →
    ∃ before, before <+: parentOps earlier ∧ Prepared st before
  /-- `launch` succeeds only after `setup` and the fork -/
  okForked : Returned true past →
    ∃ before, before <+: initOps past ∧ Forked before
  /-- `launch` does not succeed without the started frame -/
  okStarted : ¬ StartedSent past → ¬ Returned true past
  /-- and it fails when init ended before it -/
  fails : InitEnded past → ¬ StartedSent past → .kill .parent ∉ past →
    ¬ ParentBlocked c ∧
    ∃ more c', Reached st (more ++ past) c' ∧ Returned false (more ++ past) ∧
      ∀ event ∈ more, Proceeds event
  /-- the processes do not both wait for a frame -/
  live : ¬ (ParentBlocked c ∧ InitBlocked c)

/-- Handshake safety: it holds in every state of every interleaving. -/
theorem handshake_safe [F64Ops]
    (st : ContainerState)
    (past : List pair.Event)
    (c : pair.Config)
    (run : Reached st past c) :
    Safe st past c where
  setupLast := fun _ _ _ suffix inside => prepared_before_setup run suffix inside
  okForked := fun returned =>
    forked_before_started run (started_of_returned run returned)
  okStarted := fun notSent returned => notSent (started_of_returned run returned)
  fails := by
    intro ended notSent alive
    have closed := closed_of_ended run ended
    refine ⟨?_, ?_⟩
    · rintro ⟨pid, next, _, _, stillOpen⟩
      simp [closed] at stillOpen
    · rcases inevitable_of_running run alive with ⟨ok, returned⟩ | ⟨p, running, onItsWay⟩
      · cases ok with
        | true => exact absurd (started_of_returned run returned) notSent
        | false => exact ⟨[], c, run, returned, by simp⟩
      · obtain ⟨more, c', reached, ⟨ok, returned⟩, proceed⟩ :=
          return_reachable run running onItsWay closed
        have stillNotSent : ¬ StartedSent (more ++ past) := by
          intro sent
          rcases List.mem_append.mp sent with newer | older
          · exact proceed _ newer
          · exact notSent older
        cases ok with
        | true => exact absurd (started_of_returned reached returned) stillNotSent
        | false => exact ⟨more, c', reached, returned, proceed⟩
  live := not_both_blocked run

/-! ## A handshake that succeeds -/

/-- A created container. -/
def createdState : ContainerState :=
  { ContainerState.new 1 { id := "web" } with status := .created }

/-- The answers init gets when nothing fails. -/
def initUsual (w : Wire) : (op : InitOp) → InitAns op
  | .readConfig => .ok { id := "web", command := ["/bin/true"] }
  | .send _ => .ok ()
  | .recv => .ok w.toInit.head?
  | .fault _ => .ok ()
  | .readNetworkState => {}
  | .setHostname _ => .ok ()
  | .setupFilesystem _ => .ok ()
  | .configureInside _ => .ok ()
  | .writeResolverFiles _ _ => ()
  | .enterCwd _ => .ok ()
  | .applySecurity _ => .ok ()
  | .blockSignals => .ok ()
  | .signalFd => .ok ()
  | .resolveExe command _ => .ok command
  | .buildStrings _ => .ok ()
  | .forkWorkload => .ok 2
  | .supervise _ => { code := some 0, signal := none }
  | .shutdownRemaining => ()
  | .exit _ => ()

/-- The answers both processes get when nothing fails. -/
def usual (w : Wire) : (op : PairOp) → Option (PairAns op)
  | .parent (.channel (.recv _)) => some (.ok w.toParent.head?)
  | .parent op => World.usual 7 8 {} op
  | .finish _ => some ()
  | .init op => some (initUsual w op)

/-- The supervisor up to its first read, init up to its own, the supervisor up
to the go signal, init up to the started frame, and the return of `launch`. -/
def wholeHandshake : List (System.Turn pair) :=
  List.replicate 9 (.go .parent usual) ++ List.replicate 3 (.go .init usual) ++
  List.replicate 3 (.go .parent usual) ++ List.replicate 16 (.go .init usual) ++
  List.replicate 5 (.go .parent usual)

/-- The newest event is a successful return. -/
def returnsOk : List pair.Event → Bool
  | .call .parent (.finish true) _ :: _ => true
  | _ => false

private theorem returned_of_returnsOk
    (ok : returnsOk past = true) :
    Returned true past := by
  unfold returnsOk at ok
  split at ok
  · exact List.mem_cons_self
  · simp at ok

theorem whole_handshake_safe :
    ∃ past c,
      @Reached unitOps createdState past c ∧ Returned true past ∧
        @Safe unitOps createdState past c := by
  let _ := unitOps
  have played : ((begin createdState).play [] wholeHandshake).any
      (fun outcome => returnsOk outcome.1) = true := by
    decide +kernel
  obtain ⟨⟨past, c⟩, isPlayed, ok⟩ := (Option.any_eq_true _ _).mp played
  have run := System.Config.run_of_play_start isPlayed
  exact ⟨past, c, run, returned_of_returnsOk ok,
    handshake_safe createdState past c run⟩

end Handshake

end Myrun
