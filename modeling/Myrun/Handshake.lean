import Myrun.Discipline
import Myrun.Init
import Myrun.Runtime

namespace Myrun

namespace Handshake

/-!
# The handshake between the supervisor and init

Two processes over one socket pair: the supervisor runs `launch`, and the init
it clones runs `main`.  Frames are queued in each direction.  A read takes the
oldest frame; on an empty queue it waits while the other end is open and reports
the end of the stream when it is not.  An end is closed when its process ends or
when `launch` returns an error.  Everything else either process asks of its host
may be answered in any way, and either process may be killed at any point.

What each process did is kept as a view.  The requirements on a view say which
step of the handshake may follow; both programs are shown to keep to them.
-/

/-! ## The system -/

/-- The two processes. -/
inductive Party where
  | parent
  | init
  deriving Repr, DecidableEq

/-- Their operations; `finish` marks the return of `launch`. -/
inductive PairOp where
  | parent (op : Op)
  | finish (ok : Bool)
  | init (op : InitOp)

/-- The answers. -/
abbrev PairAns : PairOp → Type
  | .parent op => Ans op
  | .finish _ => Unit
  | .init op => InitAns op

/-- The socket pair: frames on their way, and which ends are open. -/
structure Wire where
  toParent : List Frame := []
  toInit : List Frame := []
  parentOpen : Bool := true
  initOpen : Bool := true
  deriving Repr, DecidableEq

/-- The queue after a read with the given outcome, if it can have it.  A read
can also fail. -/
def readFrame? (queue : List Frame) (peerOpen : Bool) :
    Result (Option Frame) → Option (List Frame)
  | .ok (some frame) =>
      if queue.head? = some frame then some queue.tail else none
  | .ok none => if queue = [] ∧ peerOpen = false then some [] else none
  | .error _ => some queue

namespace Wire

/-- The socket pair after an operation of the supervisor. -/
def parentAnswer (w : Wire) : (op : Op) → Ans op → Option Wire
  | .channel (.recv _), answer =>
      (readFrame? w.toParent w.initOpen answer).map fun toParent =>
        { w with toParent }
  | .channel (.sendGo _), .ok _ =>
      if w.initOpen then some { w with toInit := w.toInit ++ [Init.goFrame] }
      else none
  | .channel (.sendGo _), .error _ => some w
  | _, _ => some w

/-- The socket pair after an operation of init. -/
def initAnswer (w : Wire) : (op : InitOp) → InitAns op → Option Wire
  | .recv, answer =>
      (readFrame? w.toInit w.parentOpen answer).map fun toInit =>
        { w with toInit }
  | .send frame, .ok _ =>
      if w.parentOpen then some { w with toParent := w.toParent ++ [frame] }
      else none
  | .send _, .error _ => some w
  | .exit _, _ => some { w with initOpen := false }
  | _, _ => some w

/-- The socket pair after an operation, if the answer is possible. -/
def answer (w : Wire) : (op : PairOp) → PairAns op → Option Wire
  | .parent op, answer => w.parentAnswer op answer
  | .finish ok, _ => some (if ok then w else { w with parentOpen := false })
  | .init op, answer => w.initAnswer op answer

/-- A process that is killed closes its end. -/
def bury (w : Wire) : Party → Wire
  | .parent => { w with parentOpen := false }
  | .init => { w with initOpen := false }

end Wire

/-- What a cloned init runs. -/
def initProgram : Prog PairOp PairAns Unit :=
  Init.main.map .init fun _ answer => answer

/-- The process an operation starts. -/
def starts : (op : PairOp) → PairAns op →
    Option (Party × Prog PairOp PairAns Unit)
  | .parent (.cloneInit _ _), .ok _ => some (.init, initProgram)
  | _, _ => none

/-- The two processes and their channel. -/
def pair : System PairOp PairAns where
  World := Wire
  Pid := Party
  Happening := Empty
  Out := Unit
  answer w _ op answer := w.answer op answer
  happen _ what := nomatch what
  starts := starts
  bury := Wire.bury

/-- The supervisor: `launch`, and its return. -/
def parentProgram [F64Ops] (st : ContainerState) : Prog PairOp PairAns Unit :=
  ((Supervisor.launch st).map .parent fun _ answer => answer).bind fun outcome =>
    .call (.finish outcome.1.isOk) fun _ => .ret ()

/-- Before `launch` is called. -/
def begin [F64Ops] (st : ContainerState) : pair.Config where
  world := {}
  process
    | .parent => some (parentProgram st)
    | .init => none

/-! ## Views -/

/-- What one of the two processes has done: its operations, oldest first, how
many frames it has received and sent, whether it has received the started frame,
and whether it has cloned init. -/
structure View where
  launchTrace : List ((op : Op) × Ans op) := []
  initTrace : List ((op : InitOp) × InitAns op) := []
  received : Nat := 0
  sent : Nat := 0
  started : Bool := false
  cloned : Bool := false

/-- The supervisor has run `setup_host` to its end and then written
`netstate.json` with the result. -/
def Prepared (st : ContainerState) (trace : List ((op : Op) × Ans op)) : Prop :=
  ∃ earlier ops net pid s s',
    trace = earlier ++ ops ++
        [⟨.channel (.writeNetstate st.id net), .ok ()⟩] ∧
      ((liftM (Network.setupHost st.config pid) : Task NetworkState).run
        s).Performs ops (.ok net, s')

/-- Init has run `setup` to its end and later forked the workload. -/
def Forked (trace : List ((op : InitOp) × InitAns op)) : Prop :=
  ∃ earlier ops between cfg net pid,
    trace = earlier ++ ops ++ between ++ [⟨.forkWorkload, .ok pid⟩] ∧
      (Init.setup cfg net).run.Performs ops (.ok ())

/-- The operations of `setup`. -/
def inSetup : InitOp → Bool
  | .setHostname _ => true
  | .setupFilesystem _ => true
  | .configureInside _ => true
  | .writeResolverFiles _ _ => true
  | .enterCwd _ => true
  | .applySecurity _ => true
  | _ => false

namespace View

/-- What is counted of an operation of the supervisor. -/
def countParent (v : View) : (op : Op) → Ans op → View
  | .channel (.recv _), .ok (some frame) =>
      { v with
        received := v.received + 1
        started := v.started || frame = .started }
  | .channel (.sendGo _), .ok _ => { v with sent := v.sent + 1 }
  | .cloneInit _ _, .ok _ => { v with cloned := true }
  | _, _ => v

/-- What is counted of an operation of init. -/
def countInit (v : View) : (op : InitOp) → InitAns op → View
  | .recv, .ok (some _) => { v with received := v.received + 1 }
  | .send _, .ok _ => { v with sent := v.sent + 1 }
  | _, _ => v

/-- The view after an operation. -/
def after (v : View) : (op : PairOp) → PairAns op → View
  | .parent op, answer =>
      { v.countParent op answer with
        launchTrace := v.launchTrace ++ [⟨op, answer⟩] }
  | .finish _, _ => v
  | .init op, answer =>
      { v.countInit op answer with
        initTrace := v.initTrace ++ [⟨op, answer⟩] }

/-- Which step of the handshake may follow for the supervisor. -/
def requiresParent (st : ContainerState) (v : View) : Op → Prop
  | .channel (.recv _) =>
      v.received = 0 ∧ v.sent = 0 ∨ v.received = 1 ∧ v.sent = 1
  | .channel (.sendGo _) => v.sent = 0 ∧ Prepared st v.launchTrace
  | .cloneInit _ _ => v.cloned = false
  | .spin => False
  | _ => True

/-- Which step of the handshake may follow for init. -/
def requiresInit (v : View) : InitOp → Prop
  | .recv => v.sent = 1 ∧ v.received = 0
  | .send .started => Forked v.initTrace
  | op => inSetup op = true → 0 < v.received

/-- Which step may follow. -/
def requires (st : ContainerState) (v : View) : PairOp → Prop
  | .parent op => v.requiresParent st op
  | .finish ok => ok = true → v.started = true
  | .init op => v.requiresInit op

end View

/-- The handshake as a discipline. -/
def steps (st : ContainerState) : Discipline PairOp PairAns View where
  requires := View.requires st
  credible _ _ := True
  after := View.after

/-! ## The supervisor keeps to the handshake -/

section Parent

open Prog

variable {v : View} {α : Type}

/-- The handshake for the operations of the supervisor. -/
def parentSteps (st : ContainerState) : Contract Op Ans View :=
  (steps st).contract.pull .parent fun _ answer => answer

/-- An operation that the handshake does not restrict. -/
def Plain : Op → Prop
  | .channel _ => False
  | .cloneInit _ _ => False
  | .spin => False
  | _ => True

/-- More operations of the supervisor. -/
def View.recordParent (v : View) (ops : List ((op : Op) × Ans op)) : View :=
  { v with launchTrace := v.launchTrace ++ ops }

private theorem plain_step
    (st : ContainerState)
    {op : Op}
    (plain : Plain op)
    (v : View)
    (answer : Ans op) :
    v.requiresParent st op ∧ v.countParent op answer = v := by
  cases op with
  | channel op => exact False.elim plain
  | cloneInit id cgroup => exact False.elim plain
  | spin => exact False.elim plain
  | _ => exact ⟨trivial, rfl⟩

/-- A program that the handshake does not restrict is only recorded. -/
theorem wp_plain
    (st : ContainerState)
    {p : Proc α}
    (plain : OnlyUses Plain p)
    {Q : α → View → Prop}
    (holds : ∀ ops value, p.Performs ops value → Q value (v.recordParent ops)) :
    p.wp (parentSteps st) v Q := by
  induction plain generalizing v with
  | ret value =>
      have same : v.recordParent [] = v := by
        simp [View.recordParent]
      simpa [same] using holds [] value (.ret value)
  | @call op next allowed rest inductionHypothesis =>
      refine ⟨?_, ?_⟩
      · cases op with
        | channel op => exact False.elim allowed
        | cloneInit id cgroup => exact False.elim allowed
        | spin => exact False.elim allowed
        | _ => exact trivial
      · intro answer _
        refine inductionHypothesis answer ?_
        intro ops value performed
        have counted := (plain_step st allowed v answer).2
        have recorded : ((steps st).after v (.parent op) answer).recordParent ops =
            v.recordParent (⟨op, answer⟩ :: ops) := by
          simp [steps, View.after, View.recordParent, counted]
        rw [recorded]
        exact holds _ value (.call performed)

/-- A step of a launch that the handshake does not restrict. -/
theorem wp_plainTask
    (st : ContainerState)
    {p : Task α}
    {s : Launching}
    (plain : OnlyUses Plain (p.run s))
    {ok : α → Launching → View → Prop}
    (okHolds : ∀ ops value s', (p.run s).Performs ops (.ok value, s') →
      ok value s' (v.recordParent ops)) :
    p.wp (parentSteps st) s v ok fun _ _ _ => True := by
  refine wp_plain st plain ?_
  rintro ops ⟨result, s'⟩ performed
  cases result with
  | ok value =>
      exact okHolds ops value s' performed
  | error e =>
      trivial

private theorem host_plain (op : HostOp) : Plain (.host op) :=
  trivial

private theorem waitPid_plain (pid : Pid) (nohang : Bool) : Plain (.waitPid pid nohang) :=
  trivial

private theorem procStat_plain (pid : Pid) : Plain (.procStat pid) :=
  trivial

private theorem wp_hostStep
    (st : ContainerState)
    {p : HostAct α}
    {s : Launching}
    {ok : α → Launching → View → Prop}
    (okHolds : ∀ ops value s', ok value s' (v.recordParent ops)) :
    (liftM p : Task α).wp (parentSteps st) s v ok fun _ _ _ => True :=
  wp_plainTask st (uses_task (uses_host host_plain p) s)
    fun ops value s' _ => okHolds ops value s'

/-- Whose turn it is: the supervisor reads before it has read and sent anything,
and again after one frame each way. -/
def View.Reads (v : View) : Prop :=
  v.received = 0 ∧ v.sent = 0 ∨ v.received = 1 ∧ v.sent = 1

private theorem wp_expectFrame
    (st : ContainerState)
    (pid : Pid)
    (want : Frame)
    (turn : v.Reads)
    {ok : Unit → View → Prop}
    (okHolds : ∀ ops, ok ()
      { v.recordParent ops with
        received := v.received + 1
        started := v.started || want = .started }) :
    (Supervisor.expectFrame pid want).wp (parentSteps st) v ok
      fun _ _ => True := by
  rw [Supervisor.expectFrame, Fallible.wp_bind]
  refine ⟨turn, ?_⟩
  intro answer _
  cases answer with
  | error e =>
      trivial
  | ok received =>
      cases received with
      | none =>
          trivial
      | some frame =>
          by_cases wanted : frame = want
          · subst wanted
            have held := okHolds [⟨.channel (.recv pid), .ok (some frame)⟩]
            simpa [steps, View.after, View.countParent, View.recordParent]
              using held
          · cases frame <;> simp [wanted]

private theorem wp_cloneChild
    (st : ContainerState)
    (id : String)
    (cgroup : Option String)
    (first : v.cloned = false)
    {ok : Pid → View → Prop}
    (okHolds : ∀ pid ops, ok pid { v.recordParent ops with cloned := true }) :
    (Supervisor.cloneChild id cgroup).wp (parentSteps st) v ok
      fun _ _ => True := by
  refine ⟨first, ?_⟩
  intro answer _
  cases answer with
  | error e =>
      trivial
  | ok pid =>
      exact okHolds pid [⟨.cloneInit id cgroup, .ok pid⟩]

private theorem wp_writeNetstate
    (st : ContainerState)
    (id : String)
    (net : NetworkState)
    {ok : Unit → View → Prop}
    (okHolds : ok ()
      (v.recordParent [⟨.channel (.writeNetstate id net), .ok ()⟩])) :
    (Supervisor.writeNetstate id net).wp (parentSteps st) v ok
      fun _ _ => True := by
  refine ⟨trivial, ?_⟩
  intro answer _
  cases answer with
  | error e =>
      trivial
  | ok u =>
      exact okHolds

private theorem wp_sendGo
    (st : ContainerState)
    (pid : Pid)
    (first : v.sent = 0)
    (prepared : Prepared st v.launchTrace)
    {ok : Unit → View → Prop}
    (okHolds : ∀ ops, ok () { v.recordParent ops with sent := 1 }) :
    (Supervisor.sendGo pid).wp (parentSteps st) v ok fun _ _ => True := by
  refine ⟨⟨first, prepared⟩, ?_⟩
  intro answer _
  cases answer with
  | error e =>
      trivial
  | ok u =>
      have held := okHolds [⟨.channel (.sendGo pid), .ok ()⟩]
      simpa [steps, View.after, View.countParent, View.recordParent, first]
        using held

private theorem wp_launchBody [F64Ops]
    (st : ContainerState)
    (v : View)
    (cloned : v.cloned = false)
    (received : v.received = 0)
    (sent : v.sent = 0) :
    Supervisor.launchBody.wp (parentSteps st) { st, undo := [] } v
      (fun _ _ v' => v'.started = true) fun _ _ _ => True := by
  rw [Supervisor.launchBody]
  simp only [Staged.wp_bind, Staged.wp_get]
  refine wp_plainTask st (uses_createCgroup host_plain _ _ _) ?_
  intro ops cgroup s _
  refine wp_hostStep st ?_
  intro ops1 _ s1
  refine wp_hostStep st ?_
  intro ops2 _ s2
  refine wp_hostStep st ?_
  intro ops3 _ s3
  refine wp_hostStep st ?_
  intro ops4 placed s4
  refine wp_hostStep st ?_
  intro ops5 _ s5
  rw [Staged.wp_liftM]
  refine wp_cloneChild st _ _ (by simpa [View.recordParent] using cloned) ?_
  intro pid clone
  refine wp_hostStep st ?_
  intro ops6 _ s6
  rw [wp_pushUndo]
  refine wp_hostStep st ?_
  intro ops7 _ s7
  rw [wp_setState]
  refine wp_plainTask st
    (uses_task (uses_readStartTime procStat_plain pid) _) ?_
  intro ops8 startTime s8 _
  rw [wp_setState, Staged.wp_liftM]
  refine wp_expectFrame st pid .ready ?_ ?_
  · exact .inl ⟨by simpa [View.recordParent] using received,
      by simpa [View.recordParent] using sent⟩
  intro ready
  refine wp_plainTask st (uses_hostTask host_plain _ _) ?_
  intro setup net s9 performed
  rw [wp_setState, wp_pushUndo, Staged.wp_liftM]
  refine wp_writeNetstate st _ _ ?_
  rw [Staged.wp_liftM]
  refine wp_sendGo st pid ?_ ?_ ?_
  · simpa [View.recordParent] using sent
  · exact ⟨_, setup, net, pid, _, s9, rfl, performed⟩
  intro go
  rw [Staged.wp_liftM]
  refine wp_expectFrame st pid .started ?_ ?_
  · exact .inr ⟨by simp [View.recordParent, received], rfl⟩
  intro started
  refine wp_hostStep st ?_
  intro ops10 running s10
  rw [wp_setState]
  refine wp_plainTask st (uses_task (.perform trivial) _) ?_
  intro ops11 _ s11 _
  refine wp_hostStep st ?_
  intro ops12 _ s12
  simp [View.recordParent]

/-- The supervisor keeps to the handshake. -/
theorem parentProgram_follows [F64Ops]
    (st : ContainerState) :
    (steps st).Follows {} (parentProgram st) := by
  rw [Discipline.Follows, parentProgram, wp_bind, wp_map]
  have returned : ∀ (outcome : Result Running × ContainerState) (v : View),
      (outcome.1.isOk = true → v.started = true) →
      (call (.finish outcome.1.isOk) fun _ => ret () :
        Prog PairOp PairAns Unit).wp (steps st).contract v fun _ _ => True :=
    fun outcome v known => ⟨known, fun _ _ => trivial⟩
  unfold Supervisor.launch
  split
  · exact returned _ _ (by simp [Except.isOk, Except.toBool])
  · rw [wp_bind]
    refine ⟨trivial, ?_⟩
    intro _ _
    simp only [wp_ret, wp_bind]
    refine wp_mono ?_ (wp_launchBody st _ rfl rfl rfl)
    rintro ⟨result, s⟩ v' known
    cases result with
    | ok running =>
        exact returned _ _ fun _ => known
    | error e =>
        rw [Supervisor.settle, wp_bind]
        refine wp_plain st (uses_unwind host_plain waitPid_plain _) ?_
        intro ops _ _
        exact returned _ _ (by simp [Except.isOk, Except.toBool])

end Parent

/-! ## Init keeps to the handshake -/

section Init

open Prog

variable {v : View} {α : Type}

/-- The handshake for the operations of init. -/
def initSteps (st : ContainerState) : Contract InitOp InitAns View :=
  (steps st).contract.pull .init fun _ answer => answer

/-- An operation of init that is not on the channel. -/
def Quiet : InitOp → Prop
  | .recv => False
  | .send _ => False
  | _ => True

/-- More operations of init. -/
def View.recordInit (v : View) (ops : List ((op : InitOp) × InitAns op)) : View :=
  { v with initTrace := v.initTrace ++ ops }

/-- An operation that is not on the channel is only recorded. -/
theorem wp_quietOp
    (st : ContainerState)
    (op : InitOp)
    (quiet : Quiet op)
    (told : inSetup op = true → 0 < v.received)
    {Q : InitAns op → View → Prop}
    (holds : ∀ answer, Q answer (v.recordInit [⟨op, answer⟩])) :
    (initSteps st).spec op v Q := by
  have counted : ∀ answer, v.countInit op answer = v := by
    intro answer
    cases op with
    | recv => exact False.elim quiet
    | send frame => exact False.elim quiet
    | _ => rfl
  refine ⟨?_, ?_⟩
  · cases op with
    | recv => exact False.elim quiet
    | send frame => exact False.elim quiet
    | _ => exact told
  · intro answer _
    have recorded : (steps st).after v (.init op) answer =
        v.recordInit [⟨op, answer⟩] := by
      simp [steps, View.after, View.recordInit, counted]
    simpa [recorded] using holds answer

/-- After the go signal, a program that does not use the channel is only
recorded. -/
theorem wp_quiet
    (st : ContainerState)
    {p : Prog InitOp InitAns α}
    (quiet : OnlyUses Quiet p)
    (told : 0 < v.received)
    {Q : α → View → Prop}
    (holds : ∀ ops value, p.Performs ops value → Q value (v.recordInit ops)) :
    p.wp (initSteps st) v Q := by
  induction quiet generalizing v with
  | ret value =>
      have same : v.recordInit [] = v := by
        simp [View.recordInit]
      simpa [same] using holds [] value (.ret value)
  | @call op next allowed rest inductionHypothesis =>
      refine wp_quietOp st op allowed (fun _ => told) ?_
      intro answer
      refine inductionHypothesis answer told ?_
      intro ops value performed
      have recorded : (v.recordInit [⟨op, answer⟩]).recordInit ops =
          v.recordInit (⟨op, answer⟩ :: ops) := by
        simp [View.recordInit]
      rw [recorded]
      exact holds _ value (.call performed)

private theorem wp_quietAct
    (st : ContainerState)
    {p : InitAct α}
    (quiet : OnlyUses Quiet p.run)
    (told : 0 < v.received)
    {ok : α → View → Prop}
    (okHolds : ∀ ops value, p.run.Performs ops (.ok value) →
      ok value (v.recordInit ops)) :
    p.wp (initSteps st) v ok fun _ _ => True := by
  refine wp_quiet st quiet told ?_
  intro ops result performed
  cases result with
  | ok value =>
      exact okHolds ops value performed
  | error e =>
      trivial

private theorem quiet_setup
    (cfg : ContainerConfig)
    (net : NetworkState) :
    OnlyUses Quiet (Init.setup cfg net).run := by
  have last : OnlyUses Quiet (do
      Fallible.lift (Init.askInit (.writeResolverFiles cfg net))
      Fallible.of (Init.askInit (.enterCwd cfg.cwd))
      Fallible.of (Init.askInit (.applySecurity cfg.security)) :
        InitAct Unit).run := by
    refine Fallible.uses_bind ((OnlyUses.perform trivial).bind fun _ => .ret _) ?_
    intro _
    exact Fallible.uses_bind (.perform trivial) fun _ => .perform trivial
  have network : OnlyUses Quiet ((Fallible.of (Init.askInit
      (.configureInside net)) : InitAct Unit).mapErr fun e =>
        .container ("configuring container network: " ++ e.display)).run := by
    refine (OnlyUses.perform trivial).bind ?_
    intro result
    cases result with
    | ok value => exact .ret _
    | error e => exact .ret _
  -- the continuation after each `if` is the same for both of its branches
  have rest : OnlyUses Quiet (do
      Fallible.of (Init.askInit (.setupFilesystem cfg))
      if cfg.namespaces.net then
        (Fallible.of (Init.askInit (.configureInside net)) : InitAct Unit).mapErr
          fun e => .container ("configuring container network: " ++ e.display)
      Fallible.lift (Init.askInit (.writeResolverFiles cfg net))
      Fallible.of (Init.askInit (.enterCwd cfg.cwd))
      Fallible.of (Init.askInit (.applySecurity cfg.security)) :
        InitAct Unit).run := by
    refine Fallible.uses_bind (.perform trivial) fun _ => ?_
    dsimp only
    split
    · exact Fallible.uses_bind network fun _ => last
    · exact last
  unfold Init.setup
  dsimp only
  split
  · exact Fallible.uses_bind (.perform trivial) fun _ => rest
  · exact rest

private theorem wp_send
    (st : ContainerState)
    (frame : Frame)
    (forked : frame = .started → Forked v.initTrace)
    {ok : Unit → View → Prop}
    (okHolds : ∀ ops, ok () { v.recordInit ops with sent := v.sent + 1 }) :
    (Init.send frame).wp (initSteps st) v ok fun _ _ => True := by
  refine ⟨?_, ?_⟩
  · cases frame with
    | started => exact forked rfl
    | _ => exact fun inside => by simp [inSetup] at inside
  · intro answer _
    cases answer with
    | error e =>
        trivial
    | ok u =>
        exact okHolds [⟨.send frame, .ok ()⟩]

private theorem wp_expectGo
    (st : ContainerState)
    (sent : v.sent = 1)
    (first : v.received = 0)
    {ok : Unit → View → Prop}
    (okHolds : ∀ ops, ok () { v.recordInit ops with received := 1 }) :
    Init.expectGo.wp (initSteps st) v ok fun _ _ => True := by
  rw [Init.expectGo, Fallible.wp_bind]
  refine ⟨⟨sent, first⟩, ?_⟩
  intro answer _
  cases answer with
  | error e =>
      trivial
  | ok received =>
      cases received with
      | none =>
          trivial
      | some frame =>
          by_cases wanted : frame = Init.goFrame
          · rw [wp_ret, Fallible.onResult_ok]
            dsimp only
            rw [if_pos wanted, Fallible.wp_pure]
            have held := okHolds [⟨.recv, .ok (some frame)⟩]
            simpa [steps, View.after, View.countInit, View.recordInit, first]
              using held
          · rw [wp_ret, Fallible.onResult_ok]
            dsimp only
            rw [if_neg wanted]
            cases frame <;> trivial

/-- The part of `run` after the go signal. -/
theorem wp_afterGo
    (st : ContainerState)
    (cfg : ContainerConfig)
    (told : 0 < v.received) :
    (do
      Init.faultCheck "after_go_signal"
      let net ← .lift (Init.askInit .readNetworkState)
      Init.setup cfg net
      Fallible.of (Init.askInit .blockSignals)
      Fallible.of (Init.askInit .signalFd)
      Init.faultCheck "before_exec"
      let child ← Init.spawnWorkload cfg
      Init.send .started
      let status ← .lift (Init.askInit (.supervise child))
      Fallible.lift (Init.askInit .shutdownRemaining)
      return status : InitAct ExitStatus).wp (initSteps st) v
        (fun _ _ => True) fun _ _ => True := by
  simp only [Fallible.wp_bind]
  refine wp_quietAct st (.perform trivial) (by exact told) ?_
  intro ops _ _
  rw [Fallible.wp_lift]
  refine wp_quietOp st .readNetworkState trivial (by exact fun _ => told) ?_
  intro net
  refine wp_quietAct st (quiet_setup cfg net) (by exact told) ?_
  intro setup _ performed
  refine wp_quietAct st (.perform trivial) (by exact told) ?_
  intro ops2 _ _
  refine wp_quietAct st (.perform trivial) (by exact told) ?_
  intro ops3 _ _
  refine wp_quietAct st (.perform trivial) (by exact told) ?_
  intro ops4 _ _
  rw [Init.spawnWorkload]
  simp only [Fallible.wp_bind]
  refine wp_quietAct st (.perform trivial) (by exact told) ?_
  intro ops5 _ _
  refine wp_quietAct st (.perform trivial) (by exact told) ?_
  intro ops6 _ _
  rw [Fallible.wp_of]
  refine wp_quietOp st .forkWorkload trivial (by exact fun _ => told) ?_
  intro answer
  cases answer with
  | error e =>
      trivial
  | ok pid =>
      refine wp_send st .started ?_ ?_
      · intro _
        refine ⟨v.initTrace ++ ops ++ [⟨.readNetworkState, net⟩], setup,
          ops2 ++ ops3 ++ ops4 ++ ops5 ++ ops6, cfg, net, pid, ?_, performed⟩
        simp only [View.recordInit, List.append_assoc]
      · intro ops7
        rw [Fallible.wp_lift]
        refine wp_quietOp st (.supervise pid) trivial (by exact fun _ => told) ?_
        intro status
        rw [wp_ret, Fallible.wp_lift]
        refine wp_quietOp st .shutdownRemaining trivial (by exact fun _ => told) ?_
        intro _
        trivial

/-- Init keeps to the handshake. -/
theorem initProgram_follows
    (st : ContainerState) :
    (steps st).Follows {} initProgram := by
  have leaves : ∀ (v : View) (frame : Frame) (code : Int32),
      frame ≠ .started →
      ((Init.askInit (.send frame)).bind fun _ =>
        Init.askInit (.exit code)).wp (initSteps st) v fun _ _ => True := by
    intro v frame code notStarted
    refine ⟨?_, ?_⟩
    · cases frame with
      | started => exact absurd rfl notStarted
      | _ => exact fun inside => by simp [inSetup] at inside
    · intro _ _
      refine ⟨fun inside => by simp [inSetup] at inside, ?_⟩
      intro _ _
      trivial
  have running : Init.run.wp (initSteps st) {} (fun _ _ => True)
      fun _ _ => True := by
    rw [Init.run, Fallible.wp_bind, Fallible.wp_of]
    refine wp_quietOp st .readConfig trivial (by simp [inSetup]) ?_
    intro answer
    cases answer with
    | error e =>
        trivial
    | ok cfg =>
        refine (Fallible.wp_bind _ _ _ _).mpr ?_
        refine wp_send st .ready (by simp) ?_
        intro ops
        refine (Fallible.wp_bind _ _ _ _).mpr ?_
        refine wp_quietOp st (.fault _) trivial (by simp [inSetup]) ?_
        intro answer
        cases answer with
        | error e =>
            trivial
        | ok u =>
            refine (Fallible.wp_bind _ _ _ _).mpr ?_
            refine wp_expectGo st rfl rfl ?_
            intro ops1
            exact wp_afterGo st cfg Nat.one_pos
  rw [Discipline.Follows, initProgram, wp_map, Init.main, wp_bind]
  refine wp_mono ?_ running
  intro result v' _
  cases result with
  | ok status =>
      exact leaves v' _ _ (by simp)
  | error e =>
      exact leaves v' _ _ (by simp)

end Init

/-! ## The channel and the views -/

section Counts

variable {w w' : Wire} {v : View}

private theorem readFrame?_some
    {queue queue' : List Frame}
    {peerOpen : Bool}
    {frame : Frame}
    (read : readFrame? queue peerOpen (.ok (some frame)) = some queue') :
    queue = frame :: queue' := by
  simp only [readFrame?] at read
  split at read
  · rename_i first
    obtain rfl : queue.tail = queue' := by
      simpa using read
    exact (List.cons_head?_tail first).symm
  · simp at read

private theorem readFrame?_other
    {queue queue' : List Frame}
    {peerOpen : Bool}
    {outcome : Result (Option Frame)}
    (noFrame : ∀ frame, outcome ≠ .ok (some frame))
    (read : readFrame? queue peerOpen outcome = some queue') :
    queue' = queue := by
  cases outcome with
  | error e =>
      simpa [readFrame?] using read.symm
  | ok received =>
      cases received with
      | none =>
          simp only [readFrame?] at read
          split at read
          · rename_i nothing
            simpa [nothing.1] using read.symm
          · simp at read
      | some frame =>
          exact absurd rfl (noFrame frame)

/-- What an operation of the supervisor does to the channel. -/
inductive ParentEffect (w w' : Wire) (v : View) : (op : Op) → Ans op → Prop where
  | received
      {pid : Pid}
      {frame : Frame}
      (queued : w.toParent = frame :: w'.toParent)
      (same : w'.toInit = w.toInit) :
      ParentEffect w w' v (.channel (.recv pid)) (.ok (some frame))
  | told
      {pid : Pid}
      (queued : w'.toInit = w.toInit ++ [Init.goFrame])
      (same : w'.toParent = w.toParent) :
      ParentEffect w w' v (.channel (.sendGo pid)) (.ok ())
  | other
      {op : Op}
      {answer : Ans op}
      (toParent : w'.toParent = w.toParent)
      (toInit : w'.toInit = w.toInit)
      (received : (v.countParent op answer).received = v.received)
      (sent : (v.countParent op answer).sent = v.sent)
      (started : (v.countParent op answer).started = v.started) :
      ParentEffect w w' v op answer

theorem parentEffect_of_answer
    {op : Op}
    {answer : Ans op}
    (answered : w.parentAnswer op answer = some w') :
    ParentEffect w w' v op answer := by
  cases op with
  | channel op =>
      cases op with
      | recv pid =>
          simp only [Wire.parentAnswer, Option.map_eq_some_iff] at answered
          obtain ⟨queue, read, rfl⟩ := answered
          by_cases frame : ∃ frame, answer = .ok (some frame)
          · obtain ⟨frame, rfl⟩ := frame
            exact .received (readFrame?_some read) rfl
          · have noFrame : ∀ f, answer ≠ .ok (some f) :=
              fun f same => frame ⟨f, same⟩
            refine .other (readFrame?_other noFrame read) rfl ?_ ?_ ?_
            all_goals
              cases answer with
              | error e =>
                  rfl
              | ok received =>
                  cases received with
                  | none => rfl
                  | some f => exact absurd rfl (noFrame f)
      | sendGo pid =>
          cases answer with
          | error e =>
              obtain rfl : w = w' := by
                simpa [Wire.parentAnswer] using answered
              exact .other rfl rfl rfl rfl rfl
          | ok u =>
              simp only [Wire.parentAnswer] at answered
              split at answered
              · simp only [Option.some.injEq] at answered
                subst answered
                exact .told rfl rfl
              · simp at answered
      | writeNetstate id net =>
          obtain rfl : w = w' := by
            simpa [Wire.parentAnswer] using answered
          exact .other rfl rfl rfl rfl rfl
  | cloneInit id cgroup =>
      obtain rfl : w = w' := by
        simpa [Wire.parentAnswer] using answered
      cases answer <;> exact .other rfl rfl rfl rfl rfl
  | _ =>
      obtain rfl : w = w' := by
        simpa [Wire.parentAnswer] using answered
      exact .other rfl rfl rfl rfl rfl

theorem uncloned_of_count
    {op : Op}
    {answer : Ans op}
    (uncloned : (v.countParent op answer).cloned = false) :
    v.cloned = false ∧ starts (.parent op) answer = none := by
  cases op with
  | channel op =>
      refine ⟨?_, rfl⟩
      unfold View.countParent at uncloned
      split at uncloned
      · exact uncloned
      · exact uncloned
      · simp at uncloned
      · exact uncloned
  | cloneInit id cgroup =>
      cases answer with
      | error e => exact ⟨uncloned, rfl⟩
      | ok pid => simp [View.countParent] at uncloned
  | _ => exact ⟨uncloned, rfl⟩

/-- What an operation of init does to the channel. -/
inductive InitEffect (w w' : Wire) (v : View) :
    (op : InitOp) → InitAns op → Prop where
  | received
      {frame : Frame}
      (queued : w.toInit = frame :: w'.toInit)
      (same : w'.toParent = w.toParent) :
      InitEffect w w' v .recv (.ok (some frame))
  | told
      {frame : Frame}
      (queued : w'.toParent = w.toParent ++ [frame])
      (same : w'.toInit = w.toInit) :
      InitEffect w w' v (.send frame) (.ok ())
  | other
      {op : InitOp}
      {answer : InitAns op}
      (toParent : w'.toParent = w.toParent)
      (toInit : w'.toInit = w.toInit)
      (received : (v.countInit op answer).received = v.received)
      (sent : (v.countInit op answer).sent = v.sent) :
      InitEffect w w' v op answer

theorem initEffect_of_answer
    {op : InitOp}
    {answer : InitAns op}
    (answered : w.initAnswer op answer = some w') :
    InitEffect w w' v op answer := by
  cases op with
  | recv =>
      simp only [Wire.initAnswer, Option.map_eq_some_iff] at answered
      obtain ⟨queue, read, rfl⟩ := answered
      by_cases frame : ∃ frame, answer = .ok (some frame)
      · obtain ⟨frame, rfl⟩ := frame
        exact .received (readFrame?_some read) rfl
      · have noFrame : ∀ f, answer ≠ .ok (some f) :=
          fun f same => frame ⟨f, same⟩
        refine .other rfl (readFrame?_other noFrame read) ?_ ?_
        all_goals
          cases answer with
          | error e =>
              rfl
          | ok received =>
              cases received with
              | none => rfl
              | some f => exact absurd rfl (noFrame f)
  | send frame =>
      cases answer with
      | error e =>
          obtain rfl : w = w' := by
            simpa [Wire.initAnswer] using answered
          exact .other rfl rfl rfl rfl
      | ok u =>
          simp only [Wire.initAnswer] at answered
          split at answered
          · simp only [Option.some.injEq] at answered
            subst answered
            exact .told rfl rfl
          · simp at answered
  | exit code =>
      simp only [Wire.initAnswer, Option.some.injEq] at answered
      subst answered
      exact .other rfl rfl rfl rfl
  | _ =>
      obtain rfl : w = w' := by
        simpa [Wire.initAnswer] using answered
      exact .other rfl rfl rfl rfl

end Counts

end Handshake

end Myrun
