import Myrun.Supervision

namespace Myrun

/-!
# Runs of init with its namespace
-/

namespace PidOne

open Prog

/-! ## What the parts of init do to what it has seen -/

section Conduct

variable {v : Seen}

private theorem wp_askSpace
    {op : SpaceOp}
    {Q : SpaceAns op → Seen → Prop}
    (allowed : v.Allows op)
    (holds : ∀ answer, SpaceCredible op answer → Q answer (v.after op answer)) :
    (askSpace op).wp initConduct.contract v Q :=
  ⟨allowed, holds⟩

private theorem wp_spin
    {α : Type}
    {Q : α → Seen → Prop} :
    (spin : PidOne α).wp initConduct.contract v Q :=
  ⟨trivial, fun never => Empty.elim never⟩

/-- Waiting for any child: none has ended, or one has. -/
theorem wp_waitPid
    (tries : Nat)
    {Q : Result (Option (Pid × ExitStatus)) → Seen → Prop}
    (due : v.due = none)
    (absent : Q (.ok none) { v with clear := true })
    (failed : ∀ e, Q (.error e) { v with clear := true })
    (found : ∀ child status,
      Q (.ok (some (child, .fromRaw status)))
        (v.waited (.changed child status))) :
    (waitPid (-1) wnohang tries).wp initConduct.contract v Q := by
  induction tries with
  | zero => exact wp_spin
  | succ tries inductionHypothesis =>
      simp only [waitPid, bind_def, wp_bind]
      refine wp_askSpace ⟨due, rfl, rfl⟩ ?_
      intro reply credible
      cases reply with
      | failed errno =>
          simp only [Seen.after, Seen.waited]
          split
          · exact inductionHypothesis
          · split
            · exact absent
            · exact failed _
      | nothing =>
          exact absent
      | changed child status =>
          have whole : wifstopped status = false := credible
          simp only [whole, Bool.false_eq_true, if_false]
          exact found child status

end Conduct

end PidOne

namespace Seen

/-- What the end of a child with this number says about the workload. -/
def noted (v : Seen) (outcome : Option Int32) (child : Pid × Int32) :
    Option Int32 :=
  if v.listed = none ∧ v.workload = some child.1 then some child.2
  else outcome

/-- After a round of reaping. -/
def reaped (v : Seen) (children : List (Pid × Int32)) : Seen :=
  { v with
    clear := true
    outcome := children.foldl v.noted v.outcome }

/-- One child more at the start of a round. -/
theorem reaped_cons
    {v : Seen}
    {child : Pid}
    {status : Int32}
    {children : List (Pid × Int32)} :
    (v.waited (.changed child status)).reaped children =
      v.reaped ((child, status) :: children) :=
  rfl

/-- A round after `/proc` was read says nothing about the workload. -/
theorem reaped_of_listed
    {v : Seen}
    {others : List Pid}
    (listed : v.listed = some others)
    (children : List (Pid × Int32)) :
    v.reaped children = { v with clear := true } := by
  have same : ∀ outcome, children.foldl v.noted outcome = outcome := by
    induction children with
    | nil => exact fun outcome => rfl
    | cons child children inductionHypothesis =>
        intro outcome
        simp [noted, listed, inductionHypothesis]
  simp only [reaped, same]

/-- The result of a round before that is what was noted of the workload. -/
theorem resultOf_reaped
    {v : Seen}
    {workload : Pid}
    (listed : v.listed = none)
    (forked : v.workload = some workload)
    (unknown : v.outcome = none)
    (children : List (Pid × Int32)) :
    PidOne.resultOf workload
        (children.map fun child => (child.1, ExitStatus.fromRaw child.2)) =
      (v.reaped children).outcome.map ExitStatus.fromRaw := by
  have folded : ∀ outcome,
      (children.map fun child =>
        (child.1, ExitStatus.fromRaw child.2)).foldl
          (fun result child =>
            if child.1 = workload then some child.2 else result)
          (outcome.map ExitStatus.fromRaw) =
        (children.foldl v.noted outcome).map ExitStatus.fromRaw := by
    induction children with
    | nil => exact fun outcome => rfl
    | cons child children inductionHypothesis =>
        intro outcome
        simp only [List.map_cons, List.foldl_cons]
        rw [← inductionHypothesis]
        congr 1
        simp only [noted, listed, forked, true_and, Option.some.injEq,
          eq_comm (a := workload)]
        split
        · rfl
        · rfl
  simp only [PidOne.resultOf, reaped, unknown]
  exact folded none

/-- The workload was forked, `/proc` not yet read, and no signal is due. -/
structure Supervising (v : Seen) (workload : Pid) : Prop where
  workload : v.workload = some workload
  due : v.due = none
  listed : v.listed = none
  warned : v.warned = []
  naps : v.naps = 0
  killed : v.killed = []

/-- `/proc` was read, and the workload is known to have ended. -/
structure Winding (v : Seen) (raw : Int32) (others : List Pid) : Prop where
  outcome : v.outcome = some raw
  due : v.due = none
  listed : v.listed = some others
  spared : 1 ∉ others

end Seen

namespace PidOne

open Prog

section Conduct

variable {v : Seen}

/-- A round of reaping. -/
theorem wp_reapFrom
    (tries rounds : Nat) :
    ∀ {v : Seen} (out : List (Pid × ExitStatus))
      {Q : List (Pid × ExitStatus) → Seen → Prop},
      v.due = none →
      (∀ children, Q
        (out ++ children.map fun child => (child.1, ExitStatus.fromRaw child.2))
        (v.reaped children)) →
      (reapFrom tries out rounds).wp initConduct.contract v Q := by
  induction rounds with
  | zero =>
      intro v out Q _ _
      exact wp_spin
  | succ rounds inductionHypothesis =>
      intro v out Q due holds
      have last : Q out { v with clear := true } := by
        simpa [Seen.reaped] using holds []
      simp only [reapFrom, bind_def, wp_bind]
      refine wp_waitPid tries due last (fun _ => last) ?_
      intro child status
      refine inductionHypothesis _ due ?_
      intro children
      rw [Seen.reaped_cons]
      simpa using holds ((child, status) :: children)

private theorem wp_reapAll
    (bound : Nat)
    {Q : List (Pid × ExitStatus) → Seen → Prop}
    (due : v.due = none)
    (holds : ∀ children, Q
      (children.map fun child => (child.1, ExitStatus.fromRaw child.2))
      (v.reaped children)) :
    (reapAll bound).wp initConduct.contract v Q :=
  wp_reapFrom bound bound [] due (by simpa using holds)

/-- Polling, after a round of reaping that did not find the workload. -/
theorem wp_pollFds
    (timeout : Int32)
    (tries : Nat)
    {Q : Result Nat → Seen → Prop}
    (allowed : v.Allows (.poll timeout))
    (holds : ∀ ready, Q ready { v with clear := false }) :
    (pollFds timeout tries).wp initConduct.contract v Q := by
  induction tries with
  | zero => exact wp_spin
  | succ tries inductionHypothesis =>
      simp only [pollFds, bind_def, wp_bind]
      refine wp_askSpace allowed ?_
      intro answer _
      cases answer with
      | ok ready => exact holds _
      | error errno =>
          simp only [Seen.after]
          split
          · exact inductionHypothesis
          · exact holds _

/-- The next signal, if there is one. -/
theorem wp_nextSignal
    {Q : Result (Option Int32) → Seen → Prop}
    (due : v.due = none)
    (absent : Q (.ok none) v)
    (failed : ∀ e, Q (.error e) v)
    (found : ∀ signo ∈ forwarded, Q (.ok (some signo))
      { v with due := some signo }) :
    nextSignal.wp initConduct.contract v Q := by
  simp only [nextSignal, bind_def, wp_bind]
  refine wp_askSpace due ?_
  intro reply credible
  cases reply with
  | failed errno =>
      simp only
      split
      · exact absent
      · exact failed _
  | short => exact absent
  | full signo => exact found signo credible

/-- What was read is sent to the workload at once. -/
theorem wp_passOn
    {workload : Pid}
    (signals : Nat) :
    ∀ {v : Seen} {Q : Unit → Seen → Prop},
      v.Supervising workload → v.outcome = none →
      (∀ v' : Seen, v'.Supervising workload → v'.outcome = none → Q () v') →
      (passOn workload signals).wp initConduct.contract v Q := by
  induction signals with
  | zero =>
      intro v Q _ _ _
      exact wp_spin
  | succ signals inductionHypothesis =>
      intro v Q watching unknown holds
      simp only [passOn, bind_def, wp_bind]
      refine wp_nextSignal watching.due (holds v watching unknown)
        (fun _ => holds v watching unknown) ?_
      intro signo known
      have other : signo ≠ sigchld := by
        rintro rfl
        exact absurd known (by decide)
      simp only [other, if_false, wp_bind]
      refine wp_askSpace
        (.inl ⟨watching.listed, watching.workload, unknown, rfl⟩) ?_
      intro _ _
      refine inductionHypothesis ?_ unknown holds
      exact {
        workload := watching.workload
        due := rfl
        listed := watching.listed
        warned := by simp [Seen.after, Seen.sent, watching.listed, watching.warned]
        naps := watching.naps
        killed := by simp [Seen.after, Seen.sent, watching.listed, watching.killed] }

/-- `supervise` returns the status it got for the workload. -/
theorem wp_superviseFrom
    {workload : Pid}
    (bound rounds : Nat) :
    ∀ {v : Seen} {Q : ExitStatus → Seen → Prop},
      v.Supervising workload → v.outcome = none →
      (∀ (v' : Seen) raw, v'.Supervising workload → v'.outcome = some raw →
        Q (.fromRaw raw) v') →
      (superviseFrom bound workload rounds).wp initConduct.contract v Q := by
  induction rounds with
  | zero =>
      intro v Q _ _ _
      exact wp_spin
  | succ rounds inductionHypothesis =>
      intro v Q watching unknown holds
      simp only [superviseFrom, bind_def, wp_bind]
      refine wp_reapAll bound watching.due ?_
      intro children
      have after : (v.reaped children).Supervising workload :=
        ⟨watching.workload, watching.due, watching.listed, watching.warned,
          watching.naps, watching.killed⟩
      rw [Seen.resultOf_reaped watching.listed watching.workload unknown]
      cases known : (v.reaped children).outcome with
      | some raw =>
          exact holds _ raw after known
      | none =>
          simp only [Option.map_none, wp_bind]
          refine wp_pollFds 200 bound
            ⟨after.due, rfl, known, after.listed⟩ ?_
          intro ready
          have polled : ({ v.reaped children with clear := false } :
              Seen).Supervising workload :=
            ⟨after.workload, after.due, after.listed, after.warned,
              after.naps, after.killed⟩
          split
          · exact inductionHypothesis polled known holds
          · simp only [wp_bind]
            exact wp_passOn bound polled known fun v' passed unknown' =>
              inductionHypothesis passed unknown' holds
          · simp only [wp_bind]
            refine wp_askSpace trivial ?_
            intro _ _
            have slept : ({ v.reaped children with clear := false } :
                Seen).after (.sleep 50) () =
                  { v.reaped children with clear := false } := by
              simp [Seen.after, after.listed]
            rw [slept]
            exact inductionHypothesis polled known holds

/-- Each gets its signal in turn. -/
theorem wp_signalEach
    {signo : Int32}
    (Sending : Seen → List Pid → Prop)
    (allowed : ∀ v pid pids, Sending v (pid :: pids) →
      v.Allows (.kill pid signo))
    (next : ∀ v pid pids, Sending v (pid :: pids) →
      Sending (v.sent pid signo) pids)
    (pids : List Pid) :
    ∀ {v : Seen} {Q : Unit → Seen → Prop},
      Sending v pids →
      (∀ v' : Seen, Sending v' [] → Q () v') →
      (signalEach signo pids).wp initConduct.contract v Q := by
  induction pids with
  | nil =>
      intro v Q sending holds
      exact holds v sending
  | cons pid pids inductionHypothesis =>
      intro v Q sending holds
      simp only [signalEach, bind_def, wp_bind]
      refine wp_askSpace (allowed v pid pids sending) ?_
      intro _ _
      exact inductionHypothesis (next v pid pids sending) holds

/-- Some of the others have got SIGTERM. -/
structure Warning (raw : Int32) (others : List Pid) (v : Seen)
    (pids : List Pid) : Prop extends v.Winding raw others where
  warned : v.warned ++ pids = others
  naps : v.naps = 0
  killed : v.killed = []

private theorem wp_warnEach
    {raw : Int32}
    {others : List Pid}
    {Q : Unit → Seen → Prop}
    (winding : Warning raw others v others)
    (holds : ∀ v' : Seen, Warning raw others v' [] → Q () v') :
    (signalEach sigterm others).wp initConduct.contract v Q := by
  refine wp_signalEach (Warning raw others) ?_ ?_ others winding holds
  · intro v pid pids sending
    refine .inr (.inl ⟨rfl, sending.due, by simp [sending.outcome],
      sending.naps, sending.killed, others, sending.listed, ⟨pids, ?_⟩,
      sending.spared⟩)
    simp [← sending.warned]
  · intro v pid pids sending
    refine ⟨⟨sending.outcome, rfl, sending.listed, sending.spared⟩, ?_,
      sending.naps, ?_⟩
    · simp [Seen.sent, sending.listed, ← sending.warned]
    · simp [Seen.sent, sending.killed, sigterm, sigkill]

/-- After the pauses, some of the others have got SIGKILL. -/
structure Killing (raw : Int32) (others : List Pid) (v : Seen)
    (pids : List Pid) : Prop extends v.Winding raw others where
  warned : v.warned = others
  naps : v.naps = 20
  killed : v.killed ++ pids = others

private theorem wp_killEach
    {raw : Int32}
    {others : List Pid}
    {Q : Unit → Seen → Prop}
    (winding : Killing raw others v others)
    (holds : ∀ v' : Seen, Killing raw others v' [] → Q () v') :
    (signalEach sigkill others).wp initConduct.contract v Q := by
  refine wp_signalEach (Killing raw others) ?_ ?_ others winding holds
  · intro v pid pids sending
    refine .inr (.inr ⟨rfl, sending.due, by simp [sending.outcome],
      sending.naps, by rw [sending.listed, sending.warned], ⟨pids, ?_⟩,
      sending.warned ▸ sending.spared⟩)
    simp [sending.warned, ← sending.killed]
  · intro v pid pids sending
    refine ⟨⟨sending.outcome, rfl, sending.listed, sending.spared⟩, ?_,
      sending.naps, ?_⟩
    · simp [Seen.sent, sending.warned, sigterm, sigkill]
    · simp [Seen.sent, sending.listed, ← sending.killed]

private theorem wp_listPids
    {Q : Result (List Pid) → Seen → Prop}
    (holds : ∀ pids, Q pids
      { v with listed := some (v.listed.getD (othersIn pids)) }) :
    listPids.wp initConduct.contract v Q := by
  simp only [listPids, bind_def, wp_bind]
  exact wp_askSpace trivial fun names _ => holds (pidsIn names)

/-- All have got SIGTERM, and some pauses are over. -/
structure Waiting (raw : Int32) (others : List Pid) (pauses : Nat) (v : Seen) :
    Prop extends v.Winding raw others where
  warned : v.warned = others
  naps : v.naps + pauses = 20
  killed : v.killed = []

private theorem wp_grace
    {raw : Int32}
    {others : List Pid}
    (bound pauses : Nat) :
    ∀ {v : Seen} {Q : Bool → Seen → Prop},
      Waiting raw others pauses v →
      (∀ (v' : Seen) pauses', Waiting raw others pauses' v' → Q true v') →
      (∀ v' : Seen, Waiting raw others 0 v' → Q false v') →
      (grace bound pauses).wp initConduct.contract v Q := by
  induction pauses with
  | zero =>
      intro v Q waiting _ late
      exact late v waiting
  | succ pauses inductionHypothesis =>
      intro v Q waiting early late
      simp only [grace, bind_def, wp_bind]
      refine wp_askSpace trivial ?_
      intro _ _
      simp only [Seen.after, waiting.listed, Option.isSome_some, if_true]
      refine wp_reapAll bound waiting.due ?_
      intro children
      rw [Seen.reaped_of_listed rfl]
      refine wp_listPids ?_
      intro left
      have waited : Waiting raw others pauses
          { v with naps := v.naps + 1, clear := true, listed := some others } :=
        ⟨⟨waiting.outcome, waiting.due, rfl, waiting.spared⟩,
          waiting.warned, by have := waiting.naps; simp only; omega,
          waiting.killed⟩
      split
      · exact early _ pauses waited
      · exact inductionHypothesis waited early late

/-- The others get their signals. -/
theorem wp_shutdownRemaining
    {workload : Pid}
    {raw : Int32}
    {bound : Nat}
    {Q : Unit → Seen → Prop}
    (watching : v.Supervising workload)
    (known : v.outcome = some raw)
    (holds : ∀ v' : Seen, v'.Settled raw → Q () v') :
    (shutdownRemaining bound).wp initConduct.contract v Q := by
  simp only [shutdownRemaining, bind_def, wp_bind]
  refine wp_listPids ?_
  intro pids
  have listed : Warning raw (othersIn pids)
      { v with listed := some (othersIn pids) } (othersIn pids) := by
    refine ⟨⟨known, watching.due, rfl, ?_⟩, ?_, watching.naps, watching.killed⟩
    · simp [othersIn]
    · simp [watching.warned]
  rw [watching.listed, Option.getD_none]
  split
  · rename_i isEmpty
    rw [List.isEmpty_iff] at isEmpty
    exact holds _ ⟨known, by rw [isEmpty, watching.warned],
      .inl watching.killed⟩
  · simp only [wp_bind]
    refine wp_warnEach listed ?_
    intro v₁ warned
    have all : v₁.warned = othersIn pids := by simpa using warned.warned
    refine wp_grace bound 20
      ⟨warned.toWinding, all, by rw [warned.naps], warned.killed⟩ ?_ ?_
    · intro v₂ pauses waiting
      exact holds v₂ ⟨waiting.outcome, by rw [waiting.listed, waiting.warned],
        .inl waiting.killed⟩
    · intro v₂ waiting
      simp only [Bool.false_eq_true, if_false, wp_bind]
      refine wp_killEach ⟨waiting.toWinding, waiting.warned,
        by simpa using waiting.naps, by simp [waiting.killed]⟩ ?_
      intro v₃ killing
      refine wp_reapAll bound killing.due ?_
      intro children
      rw [Seen.reaped_of_listed killing.listed]
      exact holds _ ⟨killing.outcome, by simp [killing.listed, killing.warned],
        .inr ⟨killing.naps, by simpa [killing.warned] using killing.killed⟩⟩

end Conduct

/-! ## The whole of init -/

/-- The operations before the fork, and those of a failure. -/
def Preliminary : InitOp → Prop
  | .send (.exit _) => False
  | .exit _ => False
  | .forkWorkload => False
  | .supervise _ => False
  | .shutdownRemaining => False
  | _ => True

/-- What init has seen, by the operations of its program. -/
abbrev initSeen (bound : Nat) : Contract InitOp InitAns Seen :=
  initConduct.contract.through (does bound)

/-- They say nothing about the workload. -/
theorem neutral_of_preliminary
    {bound : Nat}
    {op : InitOp}
    (preliminary : Preliminary op) :
    (initSeen bound).Neutral op := by
  intro v Q holds
  cases op with
  | send frame =>
      cases frame with
      | exit payload => exact preliminary.elim
      | _ => exact ⟨trivial, fun answer _ => holds answer⟩
  | exit | forkWorkload | supervise | shutdownRemaining =>
      exact preliminary.elim
  | _ => exact ⟨trivial, fun answer _ => holds answer⟩

private theorem preliminary_setup
    (cfg : ContainerConfig)
    (net : NetworkState) :
    OnlyUses Preliminary (Init.setup cfg net).run := by
  have last : OnlyUses Preliminary (do
      Fallible.lift (Init.askInit (.writeResolverFiles cfg net))
      Fallible.of (Init.askInit (.enterCwd cfg.cwd))
      Fallible.of (Init.askInit (.applySecurity cfg.security)) :
        InitAct Unit).run := by
    refine Fallible.uses_bind ((OnlyUses.perform trivial).bind fun _ => .ret _) ?_
    intro _
    exact Fallible.uses_bind (.perform trivial) fun _ => .perform trivial
  have rest : OnlyUses Preliminary (do
      Fallible.of (Init.askInit (.setupFilesystem cfg))
      if cfg.namespaces.net then
        (Fallible.of (Init.askInit (.configureInside net)) : InitAct Unit).mapErr
          fun e => .container ("configuring container network: " ++ e.display)
      Fallible.lift (Init.askInit (.writeResolverFiles cfg net))
      Fallible.of (Init.askInit (.enterCwd cfg.cwd))
      Fallible.of (Init.askInit (.applySecurity cfg.security)) :
        InitAct Unit).run := by
    refine Fallible.uses_bind (.perform trivial) fun _ => ?_
    dsimp only
    split
    · exact Fallible.uses_bind (Fallible.uses_mapErr (.perform trivial))
        fun _ => last
    · exact last
  unfold Init.setup
  dsimp only
  split
  · exact Fallible.uses_bind (.perform trivial) fun _ => rest
  · exact rest

/-- What is done before the fork goes on where it began. -/
theorem wp_preliminary
    {α : Type}
    {bound : Nat}
    {v : Seen}
    {p : InitAct α}
    (uses : OnlyUses Preliminary p.run)
    {ok : α → Seen → Prop}
    {err : Error → Seen → Prop}
    (okHolds : ∀ value, ok value v)
    (errHolds : ∀ e, err e v) :
    p.wp (initSeen bound) v ok err := by
  refine (uses.mono fun op => neutral_of_preliminary).wp ?_
  intro result
  cases result with
  | ok value => exact okHolds value
  | error e => exact errHolds e

private theorem preliminary_expectGo :
    OnlyUses Preliminary Init.expectGo.run := by
  refine Fallible.uses_bind (.perform trivial) fun received => ?_
  cases received with
  | none => exact .ret _
  | some frame =>
      dsimp only
      split
      · exact .ret _
      · cases frame <;> exact .ret _

/-- The run of init ends with the workload settled, or before it is known. -/
theorem wp_run
    (bound : Nat) :
    Init.run.wp (initSeen bound) {}
      (fun status v => ∃ raw, v.Settled raw ∧ status = .fromRaw raw)
      fun _ v => v.outcome = none := by
  simp only [Init.run, Fallible.wp_bind]
  have failed : ∀ e : Error, ({} : Seen).outcome = none := fun _ => rfl
  refine wp_preliminary (.perform trivial) (fun cfg => ?_) failed
  refine wp_preliminary (.perform trivial) (fun _ => ?_) failed
  refine wp_preliminary (.perform trivial) (fun _ => ?_) failed
  refine wp_preliminary preliminary_expectGo (fun _ => ?_) failed
  refine wp_preliminary (.perform trivial) (fun _ => ?_) failed
  rw [Fallible.wp_lift]
  refine (show (initSeen bound).Neutral .readNetworkState from
    neutral_of_preliminary trivial) _ _ fun net => ?_
  refine wp_preliminary (preliminary_setup cfg net) (fun _ => ?_) failed
  refine wp_preliminary (.perform trivial) (fun _ => ?_) failed
  refine wp_preliminary (.perform trivial) (fun _ => ?_) failed
  refine wp_preliminary (.perform trivial) (fun _ => ?_) failed
  simp only [Init.spawnWorkload, Fallible.wp_bind]
  refine wp_preliminary (.perform trivial) (fun _ => ?_) failed
  refine wp_preliminary (.perform trivial) (fun _ => ?_) failed
  refine ⟨rfl, ?_⟩
  intro answer _
  cases answer with
  | error e => rfl
  | ok pid =>
      simp only [wp_ret, Fallible.onResult_ok]
      refine wp_preliminary (.perform trivial) (fun _ => ?_) fun _ => rfl
      rw [Fallible.wp_lift]
      refine wp_superviseFrom bound bound ⟨rfl, rfl, rfl, rfl, rfl, rfl⟩ rfl ?_
      intro v raw watching known
      rw [wp_ret, Fallible.wp_lift]
      refine wp_shutdownRemaining watching known ?_
      intro v' settled
      exact ⟨raw, settled, rfl⟩

/-- Init keeps to its conduct. -/
theorem main_follows
    (bound : Nat) :
    initConduct.Follows {} (main bound) := by
  rw [Discipline.Follows, main, wp_interpret, Init.main, wp_bind]
  refine wp_mono ?_ (wp_run bound)
  intro result v known
  cases result with
  | ok status =>
      obtain ⟨raw, settled, rfl⟩ := known
      refine ⟨⟨raw, settled, rfl⟩, fun _ _ => ⟨?_, fun _ _ => trivial⟩⟩
      intro other same
      rw [Option.some.inj (settled.outcome.symm.trans same)]
  | error e =>
      refine ⟨trivial, fun _ _ => ⟨?_, fun _ _ => trivial⟩⟩
      intro raw same
      have unknown : v.outcome = none := known
      cases unknown.symm.trans same

/-! ## What a history says -/

/-- What init has seen. -/
def seen : List spaceSystem.Event → Seen
  | [] => {}
  | .call _ op answer :: past => (seen past).after op answer
  | .happen _ :: past => seen past
  | .kill _ :: past => seen past

/-- The signals that init has read, in order. -/
def received : List spaceSystem.Event → List Int32
  | [] => []
  | .call _ .readSignal (.full signo) :: past => received past ++ [signo]
  | _ :: past => received past

/-- The signals that init has sent before it read `/proc`, in order. -/
def passed : List spaceSystem.Event → List Int32
  | [] => []
  | .call _ (.kill _ signo) _ :: past =>
      if (seen past).listed = none then passed past ++ [signo]
      else passed past
  | _ :: past => passed past

/-- Who ended, or became a child of init, since `waitpid` last found nothing:
their births. -/
def recent : List spaceSystem.Event → List Nat
  | [] => []
  | .happen (.finish birth _) :: past => birth :: recent past
  | .happen (.orphan birth) :: past => birth :: recent past
  | .call _ (.waitpid _ _) .nothing :: _ => []
  | .call _ (.waitpid _ _) (.failed errno) :: past =>
      if errno = Channel.eintr then recent past else []
  | _ :: past => recent past

private theorem views_eq_seen
    (past : List spaceSystem.Event) :
    System.views initConduct (fun _ _ => {}) (fun _ => {}) past () =
      seen past := by
  induction past with
  | nil => rfl
  | cons event past inductionHypothesis =>
      cases event with
      | call pid op answer =>
          rw [System.views_call_self (fun _ => by simp), inductionHypothesis]
          rfl
      | happen what => exact inductionHypothesis
      | kill pid => exact inductionHypothesis

/-- A namespace in which init has not yet forked. -/
structure Begins (start : spaceSystem.Config) (bound : Nat) : Prop where
  process : start.process () = some (main bound)
  young : ∀ m ∈ start.world.members, m.birth < start.world.births
  births : (start.world.members.map Member.birth).Nodup
  pids : (start.world.members.map Member.pid).Nodup

/-- Statuses of ended processes are not those of stopped ones. -/
theorem wifstopped_raw (how : Termination) :
    wifstopped how.raw = false := by
  cases how with
  | exited code =>
      have all : ∀ code < 256, wifstopped (Int32.ofNat (256 * code)) = false := by
        decide +kernel
      exact all code.toNat code.toNat_lt
  | killed signal core =>
      have all : ∀ signal < 65, ∀ core : Bool,
          wifstopped (Int32.ofNat (signal + if core then 128 else 0)) =
            false := by
        decide +kernel
      exact all signal.number (Nat.lt_succ_of_le signal.valid.2) core

/-- The child that `waitpid` reported. -/
theorem reports_cases
    {w : Space}
    {pid : Pid}
    {status : Int32}
    {m : Member}
    {how : Termination}
    (found : w.members.findSome? (Member.reports pid status) = some (m, how)) :
    m ∈ w.members ∧ m.pid = pid ∧ m.ofInit = true ∧ how.raw = status := by
  obtain ⟨child, inside, reported⟩ := List.exists_of_findSome?_eq_some found
  simp only [Member.reports] at reported
  split at reported
  · split at reported
    · rename_i same
      cases reported
      exact ⟨inside, same⟩
    · cases reported
  · cases reported

/-- Init and its namespace keep to their conduct. -/
theorem disciplined
    {start : spaceSystem.Config}
    {bound : Nat}
    (begins : Begins start bound) :
    System.Disciplined initConduct (fun _ _ => {}) (fun _ => {})
      (fun _ _ _ => True) start where
  initially pid p same := by
    rw [begins.process] at same
    cases same
    exact main_follows bound
  started op answer child p starts := by cases starts
  answers past c pid op answer world answered _ := by
    cases op with
    | waitpid any options =>
        cases answer with
        | changed child status =>
            simp only [Space.answer] at answered
            split at answered
            · rename_i m how found
              have raw := (reports_cases found).2.2.2
              exact raw ▸ wifstopped_raw how
            · cases answered
        | _ => trivial
    | readSignal =>
        cases answer with
        | full signo =>
            simp only [Space.answer] at answered
            split at answered
            · rename_i reported
              exact reported.1
            · cases answered
        | _ => trivial
    | _ => trivial

/-! ## The namespace and what init has seen -/

/-- What init has seen of the namespace. -/
structure Agrees (v : Seen) (fresh : List Nat) (w : Space) : Prop where
  young : ∀ m ∈ w.members, m.birth < w.births
  births : (w.members.map Member.birth).Nodup
  pids : (w.members.map Member.pid).Nodup
  forked : ∀ pid, v.workload = some pid →
    ∃ birth, w.workload = some birth ∧
      (v.listed = none → v.outcome = none →
        ∃ m ∈ w.members, m.pid = pid ∧ m.birth = birth ∧ m.ofInit = true)
  ended : ∀ raw, v.outcome = some raw →
    ∃ pid birth how, v.workload = some pid ∧ (birth, pid, how) ∈ w.reaped ∧
      how.raw = raw
  first : v.outcome ≠ none →
    ∃ pid birth how, v.workload = some pid ∧ w.workload = some birth ∧
      (birth, pid, how) ∈ w.reaped
  clear : v.clear = true → ∀ m ∈ w.members, m.Zombie → m.birth ∈ fresh

namespace Agrees

variable {v : Seen} {fresh : List Nat} {w : Space}

/-- One process more, under a number that was unused. -/
theorem born
    (agrees : Agrees v fresh w)
    {pid : Pid}
    (unused : w.Unused pid)
    (ofInit : Bool) :
    Agrees v fresh (w.born pid ofInit) where
  young m inside := by
    rcases List.mem_cons.mp inside with rfl | before
    · exact Nat.lt_succ_self _
    · exact (agrees.young m before).trans (Nat.lt_succ_self _)
  births := by
    refine List.nodup_cons.mpr ⟨?_, agrees.births⟩
    intro known
    obtain ⟨m, inside, same⟩ := List.mem_map.mp known
    exact (agrees.young m inside).ne same
  pids := by
    refine List.nodup_cons.mpr ⟨?_, agrees.pids⟩
    intro known
    obtain ⟨m, inside, same⟩ := List.mem_map.mp known
    exact unused.2 m inside same
  forked pid' forked := by
    obtain ⟨birth, same, alive⟩ := agrees.forked pid' forked
    refine ⟨birth, same, fun unlisted unknown => ?_⟩
    obtain ⟨m, inside, isWorkload⟩ := alive unlisted unknown
    exact ⟨m, List.mem_cons_of_mem _ inside, isWorkload⟩
  ended := agrees.ended
  first := agrees.first
  clear isClear m inside zombie := by
    rcases List.mem_cons.mp inside with rfl | before
    · exact absurd zombie.2 (by simp)
    · exact agrees.clear isClear m before zombie

/-- A process that ends or becomes a child of init. -/
theorem change
    (agrees : Agrees v fresh w)
    (birth : Nat)
    {f : Member → Member}
    (pid : ∀ m, (f m).pid = m.pid)
    (sameBirth : ∀ m, (f m).birth = m.birth)
    (ofInit : ∀ m, m.ofInit = true → (f m).ofInit = true) :
    Agrees v (birth :: fresh) (w.change birth f) := by
  have births : ∀ m : Member, (if m.birth = birth then f m else m).birth = m.birth := by
    intro m
    split
    · exact sameBirth m
    · rfl
  have pids : ∀ m : Member, (if m.birth = birth then f m else m).pid = m.pid := by
    intro m
    split
    · exact pid m
    · rfl
  refine ⟨?_, ?_, ?_, ?_, agrees.ended, agrees.first, ?_⟩
  · intro m inside
    obtain ⟨before, known, rfl⟩ := List.mem_map.mp inside
    rw [births]
    exact agrees.young before known
  · have same : (w.change birth f).members.map Member.birth =
        w.members.map Member.birth := by
      simp [Space.change, births]
    exact same ▸ agrees.births
  · have same : (w.change birth f).members.map Member.pid =
        w.members.map Member.pid := by
      simp [Space.change, pids]
    exact same ▸ agrees.pids
  · intro pid' forked
    obtain ⟨birth', same, alive⟩ := agrees.forked pid' forked
    refine ⟨birth', same, fun unlisted unknown => ?_⟩
    obtain ⟨m, inside, isPid, isBirth, child⟩ := alive unlisted unknown
    refine ⟨_, List.mem_map_of_mem inside, (pids m).trans isPid,
      (births m).trans isBirth, ?_⟩
    split
    · exact ofInit m child
    · exact child
  · intro isClear m inside zombie
    obtain ⟨before, known, rfl⟩ := List.mem_map.mp inside
    rw [births]
    by_cases changed : before.birth = birth
    · exact changed ▸ List.mem_cons_self
    · rw [if_neg changed] at zombie
      exact List.mem_cons_of_mem _
        (agrees.clear isClear before known zombie)

/-- Members with one birth are one. -/
theorem eq_of_birth
    (agrees : Agrees v fresh w)
    {m m' : Member}
    (inside : m ∈ w.members)
    (inside' : m' ∈ w.members)
    (same : m.birth = m'.birth) :
    m = m' :=
  List.inj_on_of_nodup_map agrees.births inside inside' same

/-- Members with one number are one. -/
theorem eq_of_pid
    (agrees : Agrees v fresh w)
    {m m' : Member}
    (inside : m ∈ w.members)
    (inside' : m' ∈ w.members)
    (same : m.pid = m'.pid) :
    m = m' :=
  List.inj_on_of_nodup_map agrees.pids inside inside' same

/-- A process is gone that init does not need to have seen. -/
theorem drop
    (agrees : Agrees v fresh w)
    (birth : Nat)
    (stays : v.listed = none → v.outcome = none →
      ∀ m ∈ w.members, m.birth = birth → m.ofInit = true →
        v.workload ≠ some m.pid) :
    Agrees v fresh (w.drop birth) where
  young m inside := agrees.young m (List.mem_of_mem_filter inside)
  births := agrees.births.sublist ((List.filter_sublist).map _)
  pids := agrees.pids.sublist ((List.filter_sublist).map _)
  forked pid forked := by
    obtain ⟨birth', same, alive⟩ := agrees.forked pid forked
    refine ⟨birth', same, fun unlisted unknown => ?_⟩
    obtain ⟨m, inside, rfl, isBirth, child⟩ := alive unlisted unknown
    refine ⟨m, List.mem_filter.mpr ⟨inside, ?_⟩, rfl, isBirth, child⟩
    simp only [ne_eq, decide_not, Bool.not_eq_true', decide_eq_false_iff_not]
    intro isGone
    exact stays unlisted unknown m inside isGone child forked
  ended := agrees.ended
  first := agrees.first
  clear isClear m inside zombie :=
    agrees.clear isClear m (List.mem_of_mem_filter inside) zombie

/-- What happens in the namespace by itself. -/
theorem happen
    (agrees : Agrees v fresh w)
    {w' : Space}
    {what : SpaceHappening}
    {past : List spaceSystem.Event}
    (same : recent past = fresh)
    (happened : w.happen what = some w') :
    Agrees v (recent (.happen what :: past)) w' := by
  subst same
  cases what with
  | fork pid ofInit =>
      simp only [Space.happen] at happened
      split at happened
      · rename_i unused
        cases happened
        exact agrees.born unused ofInit
      · cases happened
  | finish birth how =>
      cases happened
      exact agrees.change birth (fun _ => rfl) (fun _ => rfl) fun _ => id
  | orphan birth =>
      cases happened
      exact agrees.change birth (fun _ => rfl) (fun _ => rfl) fun _ _ => rfl
  | collect birth =>
      simp only [Space.happen] at happened
      split at happened
      · rename_i others
        cases happened
        refine agrees.drop birth ?_
        intro _ _ m inside isBirth child _
        obtain ⟨m', inside', collected⟩ := List.any_eq_true.mp others
        simp only [Bool.decide_and, Bool.and_eq_true, decide_eq_true_eq]
          at collected
        have one := agrees.eq_of_birth inside inside'
          (isBirth.trans collected.1.symm)
        rw [one, collected.2.1] at child
        cases child
      · cases happened
  | raise signo =>
      cases happened
      exact ⟨agrees.young, agrees.births, agrees.pids, agrees.forked,
        agrees.ended, agrees.first, agrees.clear⟩

/-- What init knows without `waitpid` or a fork. -/
theorem same
    (agrees : Agrees v fresh w)
    {v' : Seen}
    {w' : Space}
    (members : w'.members = w.members)
    (births : w'.births = w.births)
    (isWorkload : w'.workload = w.workload)
    (reaped : w.reaped ⊆ w'.reaped)
    (workload : v'.workload = v.workload)
    (outcome : v'.outcome = v.outcome)
    (listed : v'.listed = none → v.listed = none)
    (clear : v'.clear = true → v.clear = true) :
    Agrees v' fresh w' where
  young := by rw [members, births]; exact agrees.young
  births := by rw [members]; exact agrees.births
  pids := by rw [members]; exact agrees.pids
  forked pid forked := by
    rw [members, isWorkload, outcome]
    obtain ⟨birth, same, alive⟩ := agrees.forked pid (workload ▸ forked)
    exact ⟨birth, same, fun unlisted => alive (listed unlisted)⟩
  ended raw known := by
    rw [workload]
    obtain ⟨pid, birth, how, forked, inside, same⟩ :=
      agrees.ended raw (outcome ▸ known)
    exact ⟨pid, birth, how, forked, reaped inside, same⟩
  first known := by
    rw [workload, isWorkload]
    obtain ⟨pid, birth, how, forked, first, inside⟩ :=
      agrees.first (outcome ▸ known)
    exact ⟨pid, birth, how, forked, first, reaped inside⟩
  clear isClear := by rw [members]; exact agrees.clear (clear isClear)

/-- A reply of `waitpid`. -/
theorem waited
    {past : List spaceSystem.Event}
    (agrees : Agrees (seen past) (recent past) w)
    {pid : Pid}
    {options : Int32}
    {reply : WaitReply}
    {w' : Space}
    (answered : w.answer (.waitpid pid options) reply = some w') :
    Agrees ((seen past).waited reply)
      (recent (.call () (.waitpid pid options) reply :: past)) w' := by
  have found : ∀ fresh, w' = w → (∀ m ∈ w.members, ¬ m.Zombie) →
      Agrees { seen past with clear := true } fresh w' := by
    rintro fresh rfl absent
    exact ⟨agrees.young, agrees.births, agrees.pids, agrees.forked,
      agrees.ended, agrees.first,
      fun _ m inside zombie => absurd zombie (absent m inside)⟩
  cases reply with
  | failed errno =>
      simp only [Space.answer] at answered
      split at answered
      · rename_i possible
        cases answered
        by_cases interrupted : errno = Channel.eintr
        · simp only [Seen.waited, recent, interrupted, if_true]
          exact agrees
        · simp only [Seen.waited, recent, interrupted, if_false]
          obtain ⟨_, childless⟩ := possible.resolve_left interrupted
          refine found _ rfl fun m inside zombie => ?_
          cases (childless m inside).symm.trans zombie.1
      · cases answered
  | nothing =>
      simp only [Space.answer] at answered
      split at answered
      · rename_i absent
        cases answered
        exact found _ rfl absent
      · cases answered
  | changed child status =>
      simp only [Space.answer] at answered
      split at answered
      · rename_i m how reported
        cases answered
        obtain ⟨inside, rfl, isChild, raw⟩ := reports_cases reported
        by_cases known : (seen past).listed = none ∧
            (seen past).workload = some m.pid
        · -- the workload is waited for
          obtain ⟨birth, isWorkload, alive⟩ := agrees.forked m.pid known.2
          have noted : ((seen past).waited (.changed m.pid status)).outcome =
              some status :=
            if_pos known
          refine ⟨fun m' inside' => agrees.young m' (List.mem_of_mem_filter inside'),
            agrees.births.sublist ((List.filter_sublist).map _),
            agrees.pids.sublist ((List.filter_sublist).map _), ?_, ?_, ?_,
            fun never => by cases never⟩
          · intro pid' forked
            obtain ⟨birth', same, _⟩ := agrees.forked pid' forked
            refine ⟨birth', same, fun _ unknown => ?_⟩
            cases noted.symm.trans unknown
          · intro raw' same
            obtain rfl : status = raw' := Option.some.inj (noted.symm.trans same)
            exact ⟨m.pid, m.birth, how, known.2, List.mem_cons_self, raw⟩
          · intro _
            cases before : (seen past).outcome with
            | none =>
                -- the first child with the number is the workload itself
                obtain ⟨first, inside', samePid, rfl, _⟩ := alive known.1 before
                obtain rfl := agrees.eq_of_pid inside' inside samePid
                exact ⟨first.pid, first.birth, how, known.2, isWorkload,
                  List.mem_cons_self⟩
            | some raw' =>
                obtain ⟨pid', birth', how', forked, same, inside'⟩ :=
                  agrees.first (by simp [before])
                exact ⟨pid', birth', how', forked, same,
                  List.mem_cons_of_mem _ inside'⟩
        · have stays : Agrees (seen past) (recent past) (w.drop m.birth) := by
            refine agrees.drop m.birth fun unlisted _ m' inside' same _ => ?_
            rw [agrees.eq_of_birth inside' inside same]
            exact fun forked => known ⟨unlisted, forked⟩
          exact stays.same rfl rfl rfl (List.subset_cons_self _ _) rfl
            (if_neg known) id fun never => by cases never
      · cases answered

/-- An operation of init that its conduct allows. -/
theorem answer
    {past : List spaceSystem.Event}
    (agrees : Agrees (seen past) (recent past) w)
    {op : SpaceOp}
    {answer : SpaceAns op}
    {w' : Space}
    (allowed : (seen past).Allows op)
    (answered : w.answer op answer = some w') :
    Agrees (seen (.call () op answer :: past))
      (recent (.call () op answer :: past)) w' := by
  cases op with
  | waitpid pid options =>
      exact agrees.waited answered
  | init op =>
      cases op with
      | forkWorkload =>
          cases answer with
          | error e =>
              cases answered
              exact agrees
          | ok pid =>
              simp only [Space.answer] at answered
              split at answered
              · rename_i unused
                cases answered
                have more := agrees.born unused true
                refine ⟨more.young, more.births, more.pids, ?_, ?_, ?_,
                  more.clear⟩
                · intro pid' same
                  obtain rfl : pid = pid' := Option.some.inj same
                  exact ⟨w.births, rfl, fun _ _ =>
                    ⟨_, List.mem_cons_self, rfl, rfl, rfl⟩⟩
                · intro raw known
                  obtain ⟨pid', _, _, forked, _⟩ := agrees.ended raw known
                  cases forked.symm.trans allowed
                · intro known
                  obtain ⟨pid', _, _, forked, _⟩ := agrees.first known
                  cases forked.symm.trans allowed
              · cases answered
      | _ =>
          cases answered
          exact agrees
  | poll timeout =>
      cases answered
      cases answer with
      | ok ready =>
          exact agrees.same rfl rfl rfl (List.Subset.refl _) rfl rfl id
            fun never => by cases never
      | error errno =>
          simp only [seen, Seen.after]
          split
          · exact agrees
          · exact agrees.same rfl rfl rfl (List.Subset.refl _) rfl rfl id
              fun never => by cases never
  | readSignal =>
      cases answer with
      | full signo =>
          simp only [Space.answer] at answered
          split at answered
          · cases answered
            exact agrees.same rfl rfl rfl (List.Subset.refl _) rfl rfl id id
          · cases answered
      | failed errno =>
          cases answered
          exact agrees
      | short =>
          cases answered
          exact agrees
  | kill pid signo =>
      cases answered
      exact agrees.same rfl rfl rfl (List.Subset.refl _) rfl rfl id id
  | readProc =>
      cases answered
      exact agrees.same rfl rfl rfl (List.Subset.refl _) rfl rfl
        (fun never => by cases never) id
  | sleep ms =>
      cases answered
      simp only [seen, Seen.after]
      split
      · exact agrees.same rfl rfl rfl (List.Subset.refl _) rfl rfl id id
      · exact agrees
  | spin =>
      exact Empty.elim answer

end Agrees

/-! ## Runs -/

variable {start c c' : spaceSystem.Config} {bound : Nat}
  {past : List spaceSystem.Event}

/-- What init does next is what its conduct allows. -/
theorem allowed_of_step
    (begins : Begins start bound)
    (run : System.Run (fun _ _ _ => True) start past c)
    {op : SpaceOp}
    {answer : SpaceAns op}
    (step : System.Step c (.call () op answer) c') :
    (seen past).Allows op := by
  have required := run.requires (disciplined begins) step
  rwa [views_eq_seen] at required

/-- In every run, what init has seen agrees with the namespace. -/
theorem run_agrees
    (begins : Begins start bound)
    (run : System.Run (fun _ _ _ => True) start past c) :
    Agrees (seen past) (recent past) c.world := by
  refine @System.Run.invariant _ _ _ _ _
    (fun past c => Agrees (seen past) (recent past) c.world) ?_ ?_ _ _ run
  · refine ⟨begins.young, begins.births, begins.pids, ?_, ?_, ?_, ?_⟩
    · intro pid forked
      cases forked
    · intro raw known
      cases known
    · exact fun known => absurd rfl known
    · intro isClear
      cases isClear
  · intro past c c' event run agrees step _
    cases step with
    | call ready answered unused =>
        exact agrees.answer
          (allowed_of_step begins run (.call ready answered unused)) answered
    | happen happened =>
        exact agrees.happen rfl happened
    | kill running =>
        exact agrees

/-! ## Replayed runs -/

/-- A namespace in which only init runs. -/
def alone : spaceSystem.Config :=
  System.Config.solo
    { members := [], births := 0, workload := none, pending := []
      reaped := [] }
    () (main 5)

private theorem alone_begins : Begins alone 5 where
  process := by simp [alone, System.Config.solo]
  young m inside := by cases inside
  births := List.nodup_nil
  pids := List.nodup_nil

/-- The answers of init's own operations when nothing fails. -/
def usualInit : (op : InitOp) → InitAns op
  | .readConfig => .ok {}
  | .send _ => .ok ()
  | .recv => .ok (some Init.goFrame)
  | .fault _ => .ok ()
  | .readNetworkState => {}
  | .setHostname _ => .ok ()
  | .setupFilesystem _ => .ok ()
  | .configureInside _ => .ok ()
  | .writeResolverFiles _ _ => ()
  | .enterCwd _ => .ok ()
  | .applySecurity _ => .ok ()
  | .blockSignals => .ok ()
  | .signalFd => .ok ()
  | .resolveExe command _ => .ok command
  | .buildStrings _ => .ok ()
  | .forkWorkload => .ok 7
  | .supervise _ => { code := some 0, signal := none }
  | .shutdownRemaining => ()
  | .exit _ => ()

/-- What `waitpid` says when it is not interrupted. -/
def usualWait (w : Space) : WaitReply :=
  match w.members.find? fun m => m.Zombie with
  | some m =>
      match m.ended with
      | some how => .changed m.pid how.raw
      | none => .nothing
  | none =>
      if w.members.any fun m => m.ofInit then .nothing
      else .failed echild

/-- The answers when nothing fails, with the names in `/proc`. -/
def usual (names : List String) (w : Space) :
    (op : SpaceOp) → Option (SpaceAns op)
  | .init op => some (usualInit op)
  | .waitpid _ _ => some (usualWait w)
  | .poll _ => some (.ok w.pending.length)
  | .readSignal => some ((w.pending.head?.map .full).getD (.failed eagain))
  | .kill _ _ => some (.ok ())
  | .readProc => some (.ok names)
  | .sleep _ => some ()
  | .spin => none

/-- What the next step after a schedule is, and where it begins. -/
def replays (schedule : List (System.Turn spaceSystem))
    (test : List spaceSystem.Event → Space → spaceSystem.Event → Bool) : Bool :=
  (alone.play [] schedule).any fun reached =>
    (reached.2.turn (.go () (usual []))).any fun taken =>
      test reached.1 reached.2.world taken.1

private theorem exists_of_replays
    {schedule : List (System.Turn spaceSystem)}
    {test : List spaceSystem.Event → Space → spaceSystem.Event → Bool}
    (found : replays schedule test = true) :
    ∃ past c event c', System.Run (fun _ _ _ => True) alone past c ∧
      System.Step c event c' ∧ test past c.world event = true := by
  obtain ⟨⟨past, c⟩, played, next⟩ := (Option.any_eq_true _ _).mp found
  obtain ⟨⟨event, c'⟩, taken, passes⟩ := (Option.any_eq_true _ _).mp next
  exact ⟨past, c, event, c', System.Config.run_of_play_start played,
    System.Config.step_of_turn taken, passes⟩

/-- The signal that an event sends. -/
def signalOf : spaceSystem.Event → Option (Pid × Int32)
  | .call _ (.kill pid signo) _ => some (pid, signo)
  | _ => none

private theorem signalOf_eq_some
    {event : spaceSystem.Event}
    {pid : Pid}
    {signo : Int32}
    (same : signalOf event = some (pid, signo)) :
    ∃ answer, event = .call () (.kill pid signo) answer := by
  unfold signalOf at same
  split at same
  · cases same
    exact ⟨_, rfl⟩
  · cases same

/-- The frame that an event sends. -/
def reportOf : spaceSystem.Event → Option (Option (Int32 × Int32))
  | .call _ (.init (.send (.exit report))) _ => some report
  | _ => none

private theorem reportOf_eq_some
    {event : spaceSystem.Event}
    {report : Option (Int32 × Int32)}
    (same : reportOf event = some report) :
    ∃ answer, event = .call () (.init (.send (.exit report))) answer := by
  unfold reportOf at same
  split at same
  · cases same
    exact ⟨_, rfl⟩
  · cases same

/-- The timeout that an event polls with. -/
def pollOf : spaceSystem.Event → Option Int32
  | .call _ (.poll timeout) _ => some timeout
  | _ => none

private theorem pollOf_eq_some
    {event : spaceSystem.Event}
    {timeout : Int32}
    (same : pollOf event = some timeout) :
    ∃ answer, event = .call () (.poll timeout) answer := by
  unfold pollOf at same
  split at same
  · cases same
    exact ⟨_, rfl⟩
  · cases same

/-- Init up to the signal that it reads for its workload. -/
def signalled : List (System.Turn spaceSystem) :=
  List.replicate 19 (.go () (usual [])) ++
  [.happen (.fork 8 false), .happen (.raise 15)] ++
  List.replicate 3 (.go () (usual []))

/-! ## What init does in every run -/

/-- What was read was sent on, but for one signal at most. -/
theorem received_eq
    (begins : Begins start bound)
    (run : System.Run (fun _ _ _ => True) start past c) :
    received past = passed past ++ (seen past).due.toList := by
  refine @System.Run.invariant _ _ _ _ _
    (fun past _ => received past = passed past ++ (seen past).due.toList)
    rfl ?_ _ _ run
  intro past c c' event run same step _
  cases step with
  | happen happened => exact same
  | kill running => exact same
  | @call pid op next answer world ready answered unused =>
      have may := allowed_of_step begins run (.call ready answered unused)
      cases op with
      | init op =>
          cases op with
          | forkWorkload =>
              cases answer with
              | ok pid => exact same
              | error e => exact same
          | _ => exact same
      | waitpid any options =>
          cases answer with
          | failed errno =>
              simp only [received, passed, seen, Seen.after, Seen.waited]
              split
              · exact same
              · exact same
          | nothing => exact same
          | changed child status => exact same
      | poll timeout =>
          cases answer with
          | ok ready => exact same
          | error errno =>
              simp only [received, passed, seen, Seen.after]
              split
              · exact same
              · exact same
      | readSignal =>
          cases answer with
          | full signo =>
              have none_ : (seen past).due = none := may
              rw [none_] at same
              simpa [received, passed, seen, Seen.after] using same
          | failed errno => exact same
          | short => exact same
      | kill target signo =>
          simp only [received, passed, seen, Seen.after, Seen.sent]
          rcases may with ⟨unlisted, _, _, due⟩ |
            ⟨_, due, _, _, _, others, listed, _⟩ | ⟨_, due, _, _, listed, _⟩
          · simpa [unlisted, due] using same
          · simpa [listed, due] using same
          · simpa [listed, due] using same
      | readProc => exact same
      | sleep ms =>
          simp only [received, passed, seen, Seen.after]
          split
          · exact same
          · exact same
      | spin => exact Empty.elim answer

/--
Init passes every signal it reads to the workload, in order, and to nobody
else: until it reads `/proc`, whoever has the number it signals is the child
that it forked.
-/
theorem signals_reach_the_workload
    (begins : Begins start bound)
    (run : System.Run (fun _ _ _ => True) start past c) :
    received past = passed past ++ (seen past).due.toList ∧
      ∀ pid signo answer c',
        System.Step c (.call () (.kill pid signo) answer) c' →
        (seen past).listed = none →
        ∃ m ∈ c.world.members, m.pid = pid ∧
          c.world.workload = some m.birth ∧
          ∀ other ∈ c.world.members, other.pid = pid → other = m := by
  refine ⟨received_eq begins run, ?_⟩
  intro pid signo answer c' step unlisted
  have agrees := run_agrees begins run
  rcases allowed_of_step begins run step with
    ⟨_, forked, unknown, _⟩ | ⟨_, _, _, _, _, others, listed, _⟩ |
      ⟨_, _, _, _, listed, _⟩
  · obtain ⟨birth, isWorkload, alive⟩ := agrees.forked pid forked
    obtain ⟨m, inside, rfl, rfl, _⟩ := alive unlisted unknown
    exact ⟨m, inside, rfl, isWorkload,
      fun other inside' same => agrees.eq_of_pid inside' inside same⟩
  · cases unlisted.symm.trans listed
  · cases unlisted.symm.trans listed

/-- SIGTERM goes to the child that init forked. -/
theorem sigterm_reaches_the_workload :
    ∃ past c,
      System.Run (fun _ _ _ => True) alone past c ∧
        received past = passed past ++ [15] ∧
        ∃ m ∈ c.world.members, m.pid = 7 ∧ c.world.workload = some m.birth := by
  have replayed : replays signalled (fun past _ event =>
      signalOf event = some (7, 15) ∧ (seen past).listed = none ∧
        (seen past).due = some 15) = true := by
    decide +kernel
  obtain ⟨past, c, event, c', run, step, passes⟩ := exists_of_replays replayed
  obtain ⟨sends, unlisted, due⟩ := of_decide_eq_true passes
  obtain ⟨answer, rfl⟩ := signalOf_eq_some sends
  obtain ⟨all, reaches⟩ := signals_reach_the_workload alone_begins run
  obtain ⟨m, inside, number, isWorkload, _⟩ :=
    reaches 7 15 answer c' step unlisted
  rw [due] at all
  exact ⟨past, c, run, all, m, inside, number, isWorkload⟩

/-- What init says of an end when it leaves. -/
def Tells (how : Termination) : InitOp → Prop
  | .send (.exit report) =>
      report = some (how.status.code.getD (-1), how.status.signal.getD 0)
  | .exit code => code = Int32.ofNat how.shellCode
  | _ => True

/--
Once init knows that the workload has ended, it has waited for it; and unless
another child with the number of the workload was waited for too, it says how
the workload ended, in its last frame and with its own exit code. It sends that
frame only then.
-/
theorem exit_is_the_workloads
    (begins : Begins start bound)
    (run : System.Run (fun _ _ _ => True) start past c)
    {op : InitOp}
    {answer : InitAns op}
    (step : System.Step c (.call () (.init op) answer) c') :
    (∀ report, op = .send (.exit report) → (seen past).outcome ≠ none) ∧
      ((seen past).outcome ≠ none →
        ∃ pid birth how, (seen past).workload = some pid ∧
          c.world.workload = some birth ∧
          (birth, pid, how) ∈ c.world.reaped ∧
          ((∀ other ∈ c.world.reaped, other.2.1 = pid →
              other = (birth, pid, how)) →
            Tells how op)) := by
  have allowed := allowed_of_step begins run step
  have agrees := run_agrees begins run
  refine ⟨?_, ?_⟩
  · rintro report rfl
    obtain ⟨raw, settled, _⟩ := allowed
    simp [settled.outcome]
  · intro known
    obtain ⟨pid, birth, how, forked, isWorkload, inside⟩ := agrees.first known
    refine ⟨pid, birth, how, forked, isWorkload, inside, fun single => ?_⟩
    obtain ⟨raw, isRaw⟩ := Option.ne_none_iff_exists'.mp known
    obtain ⟨pid', birth', how', forked', inside', same⟩ := agrees.ended raw isRaw
    obtain rfl : pid = pid' := Option.some.inj (forked.symm.trans forked')
    cases single _ inside' rfl
    subst same
    cases op with
    | send frame =>
        cases frame with
        | exit report =>
            obtain ⟨raw, settled, rfl⟩ := allowed
            obtain rfl := Option.some.inj (isRaw.symm.trans settled.outcome)
            simp only [Tells, Termination.fromRaw_raw]
        | _ => trivial
    | exit code =>
        have same := allowed _ isRaw
        rw [Termination.fromRaw_raw, Termination.exitCode_status] at same
        exact same
    | _ => trivial

/-- The workload exits, then its child 8; 9 is left in the namespace. -/
def ended : List (System.Turn spaceSystem) :=
  signalled ++ List.replicate 2 (.go () (usual [])) ++
  [.happen (.fork 9 false), .happen (.finish 0 (.exited 3)),
    .happen (.orphan 1), .happen (.finish 1 (.exited 0))] ++
  List.replicate 3 (.go () (usual [])) ++ [.go () (usual ["1", "9"])]

/-- The exit code 3 of the workload is reported. -/
theorem three_is_reported :
    ∃ past c how,
      System.Run (fun _ _ _ => True) alone past c ∧
        c.world.workload = some 0 ∧ (0, 7, how) ∈ c.world.reaped ∧
        Tells how (.send (.exit (some (3, 0)))) := by
  have replayed : replays
      (ended ++ List.replicate 4 (.go () (usual [])))
      (fun past w event =>
        reportOf event = some (some (3, 0)) ∧ (seen past).workload = some 7 ∧
          w.workload = some 0 ∧
          w.reaped.map (fun e => (e.1, e.2.1)) = [(0, 7), (1, 8)]) = true := by
    decide +kernel
  obtain ⟨past, c, event, c', run, step, passes⟩ := exists_of_replays replayed
  obtain ⟨sends, forked, isWorkload, numbers⟩ := of_decide_eq_true passes
  obtain ⟨answer, rfl⟩ := reportOf_eq_some sends
  obtain ⟨reported, known⟩ := exit_is_the_workloads alone_begins run step
  obtain ⟨pid, birth, how, forked', isWorkload', inside, tells⟩ :=
    known (reported _ rfl)
  obtain rfl := Option.some.inj (forked.symm.trans forked')
  obtain rfl := Option.some.inj (isWorkload.symm.trans isWorkload')
  refine ⟨past, c, how, run, isWorkload, inside, tells ?_⟩
  obtain ⟨first, rest, isReaped, _, numbers⟩ := List.map_eq_cons_iff.mp numbers
  obtain ⟨last, rest, rfl, other, numbers⟩ := List.map_eq_cons_iff.mp numbers
  rw [List.map_eq_nil_iff.mp numbers] at isReaped
  rw [isReaped] at inside ⊢
  have only : ∀ e ∈ [first, last], e.2.1 = 7 → e = first := by
    intro e among number
    simp only [List.mem_cons, List.not_mem_nil, or_false] at among
    rcases among with rfl | rfl
    · rfl
    · cases (Prod.mk.inj other).2.symm.trans number
  intro e among number
  rw [only e among number, only _ inside rfl]

/--
After the workload, init signals only those that `/proc` named first, without
PID 1: SIGTERM to each in turn, and SIGKILL to each in turn after all have got
SIGTERM and twenty pauses. When it reports the exit, all have got SIGTERM, and
either none or all SIGKILL.
-/
theorem shutdown_in_order
    (begins : Begins start bound)
    (run : System.Run (fun _ _ _ => True) start past c)
    {others : List Pid}
    (listed : (seen past).listed = some others) :
    (∀ pid signo answer c',
      System.Step c (.call () (.kill pid signo) answer) c' →
      (seen past).outcome ≠ none ∧ pid ∈ others ∧ 1 ∉ others ∧
        (signo = sigterm ∧ (seen past).naps = 0 ∧
            (seen past).warned ++ [pid] <+: others ∨
          signo = sigkill ∧ (seen past).naps = 20 ∧
            (seen past).warned = others ∧
            (seen past).killed ++ [pid] <+: others)) ∧
      ∀ report answer c',
        System.Step c (.call () (.init (.send (.exit report))) answer) c' →
        (seen past).warned = others ∧
          ((seen past).killed = [] ∨
            (seen past).naps = 20 ∧ (seen past).killed = others) := by
  refine ⟨?_, ?_⟩
  · intro pid signo answer c' step
    rcases allowed_of_step begins run step with
      ⟨unlisted, _⟩ | ⟨term, _, known, naps, _, others', listed', next, spared⟩ |
        ⟨kill, _, known, naps, listed', next, spared⟩
    · cases listed.symm.trans unlisted
    · obtain rfl := Option.some.inj (listed.symm.trans listed')
      refine ⟨by simpa [Option.isSome_iff_ne_none] using known,
        next.subset (by simp), spared, .inl ⟨term, naps, next⟩⟩
    · obtain rfl := Option.some.inj (listed.symm.trans listed')
      refine ⟨by simpa [Option.isSome_iff_ne_none] using known,
        next.subset (by simp), spared, .inr ⟨kill, naps, rfl, next⟩⟩
  · intro report answer c' step
    obtain ⟨raw, settled, _⟩ := allowed_of_step begins run step
    obtain rfl := Option.some.inj (listed.symm.trans settled.listed)
    exact ⟨rfl, settled.killed⟩

/-- 9 gets SIGTERM after the workload has ended. -/
theorem nine_is_warned :
    ∃ past c, System.Run (fun _ _ _ => True) alone past c ∧
      (seen past).outcome ≠ none ∧ (9 : Pid) ∈ [9] ∧ (1 : Pid) ∉ [9] := by
  have replayed : replays ended (fun past _ event =>
      signalOf event = some (9, 15) ∧ (seen past).listed = some [9]) = true := by
    decide +kernel
  obtain ⟨past, c, event, c', run, step, passes⟩ := exists_of_replays replayed
  obtain ⟨sends, listed⟩ := of_decide_eq_true passes
  obtain ⟨answer, rfl⟩ := signalOf_eq_some sends
  obtain ⟨known, inside, spared, _⟩ :=
    (shutdown_in_order alone_begins run listed).1 9 15 answer c' step
  exact ⟨past, c, run, known, inside, spared⟩

/--
Init polls only when nothing is left to wait for: a child that has ended did so,
or became a child of init, after the last `waitpid` that found nothing. So an
end that came before is never slept on.
-/
theorem polls_after_reaping
    (begins : Begins start bound)
    (run : System.Run (fun _ _ _ => True) start past c)
    {timeout : Int32}
    {answer : Except Int32 Nat}
    (step : System.Step c (.call () (.poll timeout) answer) c') :
    ∀ m ∈ c.world.members, m.Zombie → m.birth ∈ recent past :=
  (run_agrees begins run).clear (allowed_of_step begins run step).2.1

/-- The workload ends after init has waited and before it polls. -/
theorem late_end_is_recent :
    ∃ past c, System.Run (fun _ _ _ => True) alone past c ∧
      ∃ m ∈ c.world.members, m.Zombie ∧ m.birth ∈ recent past := by
  have replayed : replays
      (List.replicate 20 (.go () (usual [])) ++
        [.happen (.finish 0 (.exited 3))])
      (fun _ w event => pollOf event = some 200 ∧
        ∃ m ∈ w.members, m.Zombie) = true := by
    decide +kernel
  obtain ⟨past, c, event, c', run, step, passes⟩ := exists_of_replays replayed
  obtain ⟨polls, m, inside, zombie⟩ := of_decide_eq_true passes
  obtain ⟨answer, rfl⟩ := pollOf_eq_some polls
  exact ⟨past, c, run, m, inside, zombie,
    polls_after_reaping alone_begins run step m inside zombie⟩

end PidOne

end Myrun
