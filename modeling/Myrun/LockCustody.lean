import Myrun.Conduct

namespace Myrun

/-!
# Lock files of a container

What `start`, `start --attach` and the shim keep to besides their conduct: they
lock the files that they have opened, a `start` saves the record of its own
container, and a shim reports that the container runs only after it has saved
the record.
-/

namespace LockCustody

open Prog

/-! ## What a launch leaves alone -/

section Neutral

variable {α G : Type} {C : Contract Op Ans G} {g : G}

/-- The operations of a launch are neutral. -/
structure IgnoresLaunch (C : Contract Op Ans G) : Prop where
  host : ∀ op, C.Neutral (.host op)
  channel : ∀ op, C.Neutral (.channel op)
  launching : ∀ id, C.Neutral (.launching id)
  cloneInit : ∀ id cgroup, C.Neutral (.cloneInit id cgroup)
  procStat : ∀ pid, C.Neutral (.procStat pid)
  waitPid : ∀ pid nohang, C.Neutral (.waitPid pid nohang)
  publish : ∀ st, C.Neutral (.writeState .launch st)

private theorem wp_of_uses
    {p : Act α}
    (neutral : OnlyUses C.Neutral p.run)
    {ok : α → G → Prop}
    {err : Error → G → Prop}
    (okHolds : ∀ value, ok value g)
    (errHolds : ∀ e, err e g) :
    p.wp C g ok err := by
  refine neutral.wp ?_
  intro result
  cases result with
  | ok value => exact okHolds value
  | error e => exact errHolds e

variable (ignores : IgnoresLaunch C)

include ignores

private theorem wp_createCgroup [F64Ops]
    (id : String)
    (res : Resources)
    {s : Launching}
    {ok : Option Cgroup → Launching → G → Prop}
    {err : Error → Launching → G → Prop}
    (okHolds : ∀ cgroup s', s'.st.id = s.st.id → ok cgroup s' g)
    (errHolds : ∀ e, err e s g) :
    (Supervisor.createCgroup id res).wp C s g ok err := by
  rw [Supervisor.createCgroup, Staged.wp_bind]
  refine wp_task_host_of_neutral ignores.host ?_ errHolds
  intro result
  cases result with
  | ok cg =>
      exact okHolds _ _ rfl
  | error e =>
      simp only
      split
      · exact okHolds none s rfl
      · exact errHolds e

/-- A launch changes the record in hand, but not whose it is. -/
theorem wp_launchBody [F64Ops]
    {s : Launching}
    {ok : Running → Launching → G → Prop}
    {err : Error → Launching → G → Prop}
    (okHolds : ∀ running s', s'.st.id = s.st.id → s'.st.status = .running →
      ok running s' g)
    (errHolds : ∀ e s', s'.st.id = s.st.id → err e s' g) :
    Supervisor.launchBody.wp C s g ok err := by
  simp only [Supervisor.launchBody, Staged.wp_bind, Staged.wp_get]
  refine wp_createCgroup ignores _ _ ?_ fun e => errHolds e s rfl
  intro cgroup s1 here
  have failed : ∀ e undo st', st'.id = s1.st.id →
      err e { st := st', undo } g :=
    fun e undo st' same => errHolds e _ (same.trans here)
  refine wp_task_host_of_neutral ignores.host ?_ fun e => errHolds e s1 here
  intro _
  refine wp_task_host_of_neutral ignores.host ?_ fun e => errHolds e s1 here
  intro _
  refine wp_task_host_of_neutral ignores.host ?_ fun e => errHolds e s1 here
  intro _
  refine wp_task_host_of_neutral ignores.host ?_ fun e => errHolds e s1 here
  intro placed
  refine wp_task_host_of_neutral ignores.host ?_ fun e => errHolds e s1 here
  intro _
  rw [Staged.wp_liftM]
  refine ignores.cloneInit _ placed g _ ?_
  intro answer
  cases answer with
  | error e =>
      exact errHolds e s1 here
  | ok pid =>
      refine wp_task_host_of_neutral ignores.host ?_ fun e => errHolds e s1 here
      intro _
      simp only [wp_pushUndo]
      refine wp_task_host_of_neutral ignores.host ?_
        fun e => failed e _ _ rfl
      intro _
      simp only [wp_setState]
      rw [Staged.wp_liftM]
      refine wp_of_uses (uses_readStartTime ignores.procStat pid) ?_
        fun e => failed e _ _ rfl
      intro startTime
      rw [Staged.wp_liftM]
      refine wp_expectFrame_of_neutral ignores.channel pid .ready ?_
        fun e => failed e _ _ rfl
      refine wp_hostTask_of_neutral ignores.host (Grows.setupHost _ _) ?_
        fun e undo _ => failed e undo _ rfl
      intro net undo _
      rw [Staged.wp_liftM]
      refine wp_writeNetstate_of_neutral ignores.channel _ net ?_
        fun e => failed e _ _ rfl
      rw [Staged.wp_liftM]
      refine wp_sendGo_of_neutral ignores.channel pid ?_
        fun e => failed e _ _ rfl
      rw [Staged.wp_liftM]
      refine wp_expectFrame_of_neutral ignores.channel pid .started ?_
        fun e => failed e _ _ rfl
      refine (Staged.wp_liftM (liftM (transitionNow _ .running) : Act _) _ _).mpr ?_
      refine wp_transitionNow ignores.host ?_ fun e => failed e _ _ rfl
      intro moved now moves
      have same : moved.id = s1.st.id :=
        (ContainerState.SameLaunch.transition moves).id.symm
      have running : moved.status = .running :=
        ContainerState.transition_status moves
      rw [Staged.wp_liftM]
      refine ignores.publish _ g _ ?_
      intro saved
      cases saved with
      | error e =>
          exact failed e _ _ same
      | ok u =>
          refine wp_task_host_of_neutral ignores.host ?_
            fun e => failed e _ _ same
          intro _
          exact okHolds _ _ (same.trans here) running

private theorem wp_launch [F64Ops]
    {st : ContainerState}
    {Q : Result Running × ContainerState → G → Prop}
    (okHolds : ∀ running st', st'.id = st.id → st'.status = .running →
      Q (.ok running, st') g)
    (errHolds : ∀ e st', st'.id = st.id → Q (.error e, st') g) :
    (Supervisor.launch st).wp C g Q := by
  unfold Supervisor.launch
  split
  · exact errHolds _ st rfl
  · rw [Prog.wp_bind]
    refine ignores.launching st.id g _ ?_
    intro _
    rw [Prog.wp_ret, Prog.wp_bind]
    have body : Supervisor.launchBody.wp C { st, undo := [] } g
        (fun running s g' => (Supervisor.settle (.ok running) s).wp C g' Q)
        (fun e s g' => (Supervisor.settle (.error e) s).wp C g' Q) := by
      refine wp_launchBody ignores ?_ ?_
      · intro running s here isRunning
        exact okHolds running s.st here isRunning
      · intro e s here
        simp only [Supervisor.settle, Prog.wp_bind]
        refine (uses_unwind ignores.host ignores.waitPid s.undo).wp ?_
        intro _
        exact errHolds e s.st here
    refine Prog.wp_mono ?_ body
    rintro ⟨result, s⟩ g' settled
    cases result with
    | ok running => exact settled
    | error e => exact settled

end Neutral

/-! ## What the launch commands keep to, besides their conduct -/

/-- What a process has done with lock files and as a shim. -/
structure Custody where
  command : Command
  /-- the lock files it has opened -/
  opened : List LockFile := []
  /-- it has saved the record of the container as its shim -/
  claimed : Bool := false

namespace Custody

/-- The custody after an operation. -/
def after (id : String) (k : Custody) : (op : Op) → Ans op → Custody
  | .openLock _, .ok file => { k with opened := file :: k.opened }
  | .writeState .shim st, .ok _ =>
      if st.id = id then { k with claimed := true } else k
  | _, _ => k

/-- What a process may do next. -/
def requires (id : String) (k : Custody) : Op → Prop
  | .flock file => file ∈ k.opened
  | .writeState .start st =>
      st.id = id → ∃ rounds, k.command = .start id rounds
  | .writeState .teardown st => st.id = id → st.status ≠ .created
  | .notify n =>
      n.ok = true → (∃ rounds, k.command = .shim id rounds) → k.claimed = true
  | _ => True

/-- The custody of a forked shim. -/
def begun : (op : Op) → Ans op → Custody
  | .forkShim id rounds, _ => { command := .shim id rounds }
  | _, _ => { command := .list }

/-- The custody of a process at the start. -/
def first (commands : Pid → Option Command) (pid : Pid) : Custody where
  command := (commands pid).getD .list

end Custody

/-- What the launch commands do with lock files and as shims of `id`. -/
def keeping (id : String) : Discipline Op Ans Custody where
  requires := Custody.requires id
  credible := conductCredible True
  after := Custody.after id

section Follows

/-- The discipline as a contract. -/
abbrev rules (id : String) : Contract Op Ans Custody :=
  (keeping id).contract

variable {id : String} {k : Custody}

private theorem neutral_of
    {op : Op}
    (free : ∀ k, Custody.requires id k op)
    (unseen : ∀ k answer, Custody.after id k op answer = k) :
    (rules id).Neutral op :=
  Discipline.neutral_of free unseen

private theorem ignoresLaunch : IgnoresLaunch (rules id) where
  host _ := neutral_of (fun _ => trivial) fun _ _ => rfl
  channel _ := neutral_of (fun _ => trivial) fun _ _ => rfl
  launching _ := neutral_of (fun _ => trivial) fun _ _ => rfl
  cloneInit _ _ := neutral_of (fun _ => trivial) fun _ _ => rfl
  procStat _ := neutral_of (fun _ => trivial) fun _ _ => rfl
  waitPid _ _ := neutral_of (fun _ => trivial) fun _ _ => rfl
  publish _ := neutral_of (fun _ => trivial) fun _ _ => rfl

private theorem host_neutral (op : HostOp) : (rules id).Neutral (.host op) :=
  ignoresLaunch.host op

private theorem spin_neutral : (rules id).Neutral .spin :=
  neutral_of (fun _ => trivial) fun _ _ => rfl

private theorem wp_load
    (i : String)
    {ok : ContainerState → Custody → Prop}
    {err : Error → Custody → Prop}
    (okHolds : ∀ st, st.id = i → ok st k)
    (errHolds : ∀ e, err e k) :
    (Store.load i).wp (rules id) k ok err := by
  refine ⟨trivial, ?_⟩
  intro answer possible
  cases answer with
  | ok st => exact okHolds st (possible st rfl)
  | error e => exact errHolds e

/-- A save that is neither that of a shim nor restricted. -/
theorem wp_save
    {place : SavePoint}
    {st : ContainerState}
    (notShim : place ≠ .shim)
    (may : Custody.requires id k (.writeState place st))
    {ok : Unit → Custody → Prop}
    {err : Error → Custody → Prop}
    (okHolds : ok () k)
    (errHolds : ∀ e, err e k) :
    (Store.save place st).wp (rules id) k ok err := by
  refine ⟨may, ?_⟩
  intro answer _
  have same : Custody.after id k (.writeState place st) answer = k := by
    cases place <;> cases answer <;> first | rfl | exact absurd rfl notShim
  cases answer with
  | ok u =>
      change ok () (Custody.after id k (.writeState place st) (.ok u))
      rw [same]
      exact okHolds
  | error e =>
      change err e (Custody.after id k (.writeState place st) (.error e))
      rw [same]
      exact errHolds e

private theorem wp_waitForExit
    {rounds : Nat}
    {st : ContainerState}
    {running : Running}
    (status : st.status = .running)
    {ok : ExitStatus × ContainerState → Custody → Prop}
    {err : Error → Custody → Prop}
    (okHolds : ∀ exit st', st'.status = .stopped → ok (exit, st') k)
    (errHolds : ∀ e, err e k) :
    (Supervisor.waitForExit rounds st running).wp (rules id) k ok err := by
  rw [Supervisor.waitForExit, Fallible.wp_bind]
  refine wp_recvLoop_of_neutral ignoresLaunch.channel spin_neutral _ _ _ _ ?_
  intro error fromInit
  rw [Fallible.wp_bind]
  refine wp_of_uses (.perform (ignoresLaunch.waitPid _ _)) ?_ errHolds
  intro waited
  rw [Fallible.wp_bind]
  refine wp_host_of_yields host_neutral (noteOom_yields _ _) ?_ errHolds
  rintro _ ⟨oom, rfl⟩
  rw [Fallible.wp_bind]
  refine wp_host_of_neutral host_neutral ?_ errHolds
  intro now
  obtain ⟨moved, moves, stopped, _⟩ := Conduct.stopped_of_recordExit
    { st with error := error, oomKilled := oom }
    ((fromInit.or waited).getD { code := some (-1), signal := none }) now status
  simp only [moves]
  rw [Fallible.wp_bind]
  refine wp_save ?_ ?_ (okHolds _ moved stopped) errHolds
  · simp
  · trivial

private theorem uses_remove (i : String) :
    OnlyUses (rules id).Neutral (Store.remove i).run := by
  have removing : (rules id).Neutral (.removeDir i) :=
    neutral_of (fun _ => trivial) fun _ _ => rfl
  refine Fallible.uses_bind ((OnlyUses.perform removing).bind fun _ => .ret _) ?_
  intro answer
  cases answer with
  | removed => exact .ret _
  | failed stateGone e => exact .ret _

/-- The end of a launch command, after the exit was recorded. -/
theorem wp_cleanUp
    (exit : ExitStatus)
    {st : ContainerState}
    (stopped : st.status = .stopped)
    {ok : Int32 → Custody → Prop}
    {err : Error → Custody → Prop}
    (okHolds : ∀ code, ok code k)
    (errHolds : ∀ e, err e k) :
    (Shim.cleanUp exit st).wp (rules id) k ok err := by
  have torn : ∀ (oom : Bool) now, Custody.requires id k (.writeState .teardown
      ((if oom then { st with oomKilled := true } else st).markTornDown now)) := by
    intro oom now _
    rw [(Conduct.tornDown_markTornDown st oom now).status, stopped]
    simp
  rw [Shim.cleanUp, Supervisor.teardown]
  simp only [Fallible.wp_bind]
  refine wp_attempt_of_neutral host_neutral ?_
  intro _
  refine wp_of_uses (uses_killInit host_neutral ignoresLaunch.procStat
    ignoresLaunch.waitPid st) ?_ errHolds
  intro _
  refine wp_host_of_neutral host_neutral ?_ errHolds
  intro oom
  refine wp_host_of_neutral host_neutral ?_ errHolds
  intro _
  refine wp_host_of_neutral host_neutral ?_ errHolds
  intro now
  rw [Fallible.wp_attempt]
  have finished : ∀ st' : ContainerState,
      (if st'.config.autoRemove then do
          let _ ← (Store.remove st'.id).attempt
          return exit.exitCode
        else return exit.exitCode : Act Int32).wp (rules id) k ok err := by
    intro st'
    split
    · rw [Fallible.wp_bind, Fallible.wp_attempt]
      exact wp_of_uses (uses_remove st'.id) (fun _ => okHolds _) fun _ => okHolds _
    · exact okHolds _
  refine wp_save ?_ (torn oom now) (finished _) fun _ => finished _
  simp

private theorem follows_done
    {α : Type}
    {p : Act α}
    (fine : p.wp (rules id) k (fun _ _ => True) fun _ _ => True) :
    (keeping id).Follows k (Act.done p).run := by
  have done : (Act.done p).wp (rules id) k (fun _ _ => True) fun _ _ => True := by
    rw [Act.done, Fallible.wp_bind]
    exact fine
  exact Prog.wp_mono (fun _ _ _ => trivial) done

/-- `start --attach`. -/
theorem follows_attached [F64Ops]
    (i : String)
    (rounds : Nat) :
    (keeping id).Follows { command := .startAttached i rounds }
      (Command.program (.startAttached i rounds)).run := by
  have polled : ∀ (st : ContainerState) rounds,
      OnlyUses (rules id).Neutral (Attached.pollLoop st rounds).run := by
    intro st rounds
    induction rounds with
    | zero =>
        exact (OnlyUses.perform spin_neutral).bind fun never => never.elim
    | succ rounds inductionHypothesis =>
        refine Fallible.uses_bind (uses_host host_neutral _) ?_
        intro poll
        cases poll with
        | timeout =>
            refine Fallible.uses_bind
              (uses_initIsAlive ignoresLaunch.procStat st) ?_
            intro alive
            cases alive with
            | true => exact inductionHypothesis
            | false => exact .ret _
        | failed => exact inductionHypothesis
        | ready signals channel =>
            refine Fallible.uses_bind (uses_host host_neutral _) ?_
            intro _
            cases channel with
            | true => exact .ret _
            | false => exact inductionHypothesis
  have fine : (Attached.start i rounds).wp (rules id)
      { command := .startAttached i rounds } (fun _ _ => True)
      (fun _ _ => True) := by
    rw [Attached.start, Fallible.wp_bind]
    refine wp_load i ?_ fun _ => trivial
    intro st _
    split
    · exact trivial
    · rw [Attached.run, Fallible.wp_bind, Fallible.wp_liftM]
      refine wp_launch ignoresLaunch ?_ ?_
      · intro running st' _ isRunning
        simp only
        rw [Fallible.wp_bind]
        refine wp_host_of_neutral host_neutral ?_ fun _ => trivial
        intro _
        rw [Fallible.wp_bind]
        refine wp_host_of_neutral host_neutral ?_ fun _ => trivial
        intro _
        rw [Fallible.wp_bind]
        refine wp_of_uses (polled st' rounds) ?_ fun _ => trivial
        intro _
        rw [Fallible.wp_bind]
        refine wp_waitForExit isRunning ?_ fun _ => trivial
        intro exit st'' stopped
        exact wp_cleanUp exit stopped (fun _ => trivial) fun _ => trivial
      · intro e st' _
        simp only
        rw [Fallible.wp_bind, Fallible.wp_attempt]
        exact wp_of_uses (uses_remove _) (fun _ => trivial) fun _ => trivial
  exact follows_done fine

/-- A shim. -/
theorem follows_shim [F64Ops]
    (i : String)
    (rounds : Nat) :
    (keeping id).Follows { command := .shim i rounds }
      (Command.program (.shim i rounds)).run := by
  have early : ∀ (k : Custody) e, (Fallible.lift
      (ask (.notify { ok := false, message := e })) : Act Unit).wp (rules id) k
        (fun _ _ => True) fun _ _ => True := by
    intro k e
    rw [Fallible.wp_lift]
    exact ⟨by simp [keeping, Custody.requires], fun _ _ => trivial⟩
  have failed : ∀ (k : Custody) (st : ContainerState) (e : Error), (do
      let now ← nowMs
      let _ ← (Store.save .launchFailed (Shim.failedState st e now)).attempt
      .ofExcept (.error e) : Act Int32).wp (rules id) k (fun _ _ => True)
        fun _ _ => True := by
    intro k st e
    rw [Fallible.wp_bind]
    refine wp_nowMs host_neutral ?_
    intro now
    rw [Fallible.wp_bind, Fallible.wp_attempt]
    refine wp_save ?_ ?_ trivial fun _ => trivial
    · simp
    · trivial
  have run : (Shim.run i rounds).wp (rules id) { command := .shim i rounds }
      (fun _ _ => True) fun _ _ => True := by
    rw [Shim.run, Fallible.wp_bind]
    refine wp_host_of_neutral host_neutral ?_ fun _ => trivial
    intro _
    rw [Fallible.wp_bind]
    refine wp_load i ?_ fun _ => trivial
    intro st here
    rw [Fallible.wp_bind]
    refine wp_host_of_neutral host_neutral ?_ fun _ => trivial
    intro _
    rw [Fallible.wp_bind, Fallible.wp_liftM]
    refine wp_launch ignoresLaunch ?_ fun e st' _ => failed _ st' e
    intro running st' same isRunning
    simp only
    rw [Shim.supervise, Fallible.wp_bind, Fallible.wp_liftM]
    refine ⟨trivial, ?_⟩
    intro own _
    have stillRunning :
        ({ st' with shimPid := own } : ContainerState).status = .running :=
      isRunning
    rw [Prog.wp_ret, Fallible.wp_bind]
    refine ⟨trivial, ?_⟩
    intro saved _
    cases saved with
    | error e => trivial
    | ok u =>
        rw [Prog.wp_ret, Fallible.onResult_ok, Fallible.wp_bind,
          Fallible.wp_liftM]
        refine ⟨?_, ?_⟩
        · rintro _ ⟨rounds', isShim⟩
          change (Custody.after id _ (.writeState .shim _) (.ok u)).command = _
            at isShim
          change (Custody.after id _ (.writeState .shim _) (.ok u)).claimed = true
          simp only [Custody.after] at isShim ⊢
          by_cases mine : st'.id = id
          · simp [mine]
          · rw [if_neg mine] at isShim
            obtain ⟨rfl, _⟩ := Command.shim.inj isShim
            exact (mine (same.trans here)).elim
        · intro _ _
          rw [Prog.wp_ret, Fallible.wp_bind]
          refine wp_waitForExit stillRunning ?_ fun _ => trivial
          intro exit st'' stopped
          exact wp_cleanUp exit stopped (fun _ => trivial) fun _ => trivial
  have main : (Shim.main i rounds).wp (rules id) { command := .shim i rounds }
      (fun _ _ => True) fun _ _ => True := by
    rw [Shim.main, Fallible.wp_bind, Fallible.wp_attempt]
    refine Fallible.wp_consequence ?_ (fun e k _ => early k e.display) run
    intro _ _ _
    trivial
  exact Prog.wp_mono (fun _ _ _ => trivial) main

/-- A detached `start`. -/
theorem follows_start
    [F64Ops]
    (i : String)
    (rounds : Nat) :
    (keeping id).Follows { command := .start i rounds }
      (Command.program (.start i rounds)).run := by
  have reading : ∀ i, (rules id).Neutral (.readState i) :=
    fun _ => neutral_of (fun _ => trivial) fun _ _ => rfl
  have unlocking : ∀ file, (rules id).Neutral (.funlock file) :=
    fun _ => neutral_of (fun _ => trivial) fun _ _ => rfl
  have reconciling : ∀ st, (rules id).Neutral (.writeState .reconcile st) :=
    fun _ => neutral_of (fun _ => trivial) fun _ _ => rfl
  have forking : (rules id).Neutral (.forkShim i rounds) :=
    neutral_of (fun _ => trivial) fun _ _ => rfl
  have hearing : ∀ shim, (rules id).Neutral (.readNotify shim) :=
    fun _ => neutral_of (fun _ => trivial) fun _ _ => rfl
  have checked : OnlyUses (rules id).Neutral (Store.loadReconciled i).run := by
    refine Fallible.uses_bind (.perform (reading i)) fun st => ?_
    refine Fallible.uses_bind ?_ fun _ => .ret _
    unfold Store.reconcile
    split
    · exact .ret _
    · refine Fallible.uses_bind
        (uses_initIsAlive ignoresLaunch.procStat st) fun alive => ?_
      cases alive with
      | true => exact .ret _
      | false =>
          refine Fallible.uses_bind (uses_host host_neutral _) fun _ => ?_
          exact Fallible.uses_bind (.perform (reconciling _)) fun _ => .ret _
  have spawned : OnlyUses (rules id).Neutral (Shim.spawn i rounds).run := by
    refine Fallible.uses_bind (uses_host host_neutral _) fun _ => ?_
    refine Fallible.uses_bind (.perform forking) fun shim => ?_
    refine Fallible.uses_bind ((OnlyUses.perform (hearing shim)).bind
      fun _ => .ret _) fun heard => ?_
    have reaped : ∀ e, OnlyUses (rules id).Neutral (do
        let _ ← (waitPid shim true).attempt
        .ofExcept (.error e) : Act Pid).run :=
      fun e => Fallible.uses_bind (Fallible.uses_attempt
        (.perform (ignoresLaunch.waitPid shim true))) fun _ => .ret _
    cases heard with
    | failed e => exact .ret _
    | closed => exact reaped _
    | notice n =>
        by_cases fine : n.ok = true
        · simp only [fine, if_true]
          exact .ret _
        · simp only [fine]
          exact reaped _
  refine follows_done ?_
  rw [Lifecycle.start, Store.withLock, Fallible.wp_bind, Store.lock,
    Fallible.wp_bind]
  refine ⟨trivial, ?_⟩
  intro opened possible
  cases opened with
  | error e => trivial
  | ok file =>
      rw [Prog.wp_ret, Fallible.onResult_ok, Fallible.wp_bind]
      refine ⟨List.mem_cons_self, ?_⟩
      intro flocked _
      cases flocked with
      | error e => trivial
      | ok u =>
          rw [Prog.wp_ret, Fallible.onResult_ok, Fallible.wp_pure,
            Fallible.wp_bind, Fallible.wp_attempt]
          refine Fallible.wp_consequence
            (fun _ k' _ => unlocking file k' _ fun _ => trivial)
            (fun _ k' _ => unlocking file k' _ fun _ => trivial) (?_ :
              Fallible.wp _ _ _ (fun _ _ => True) fun _ _ => True)
          rw [Fallible.wp_bind]
          refine wp_of_uses checked ?_ fun _ => trivial
          intro st
          rw [Fallible.wp_bind, Fallible.wp_ofExcept]
          cases Lifecycle.checkStartable i st.status with
          | error e => trivial
          | ok u =>
              rw [Fallible.onResult_ok, Fallible.wp_bind]
              refine wp_of_uses spawned ?_ fun _ => trivial
              intro shim
              rw [Fallible.wp_bind]
              refine wp_load i ?_ fun _ => trivial
              intro st' here
              have mine : Custody.requires id
                  { command := .start i rounds, opened := [file] }
                  (.writeState .start { st' with shimPid := shim }) :=
                fun same => ⟨rounds, by rw [← same, ← here]⟩
              rw [Fallible.wp_bind]
              refine wp_save ?_ mine trivial fun _ => trivial
              simp

end Follows

end LockCustody

end Myrun
