import Myrun.Interleaving
import Myrun.Lifecycle

namespace Myrun

/-!
# The runtime as a system of processes

Every command runs as a process of its own over the shared host; starting a
detached container forks its shim.
-/

/-- The runtime. -/
def runtime [F64Ops] : System Op Ans where
  World := World
  Pid := Pid
  Happening := World.Happening
  Out := Result Unit
  answer := World.answer
  happen := World.happen
  starts
    | .forkShim id rounds, .ok pid =>
        some (pid, (Command.shim id rounds).program.run)
    | _, _ => none
  bury := World.bury

/-! ## A host on which nothing fails -/

namespace World

/-- The answer of a host on which nothing fails. -/
def hostUsual (w : World) : (op : HostOp) → Option (HostAns op)
  | .fault _ => some (.ok ())
  | .now => some 1
  | .deadlinePassed => some false
  | .sleep => some ()
  | .prepare _ => some (.ok ())
  | .writeConfig _ _ => some (.ok ())
  | .kill _ _ => some (.ok ())
  | .poll _ => some .timeout
  | .cgroupMount => some w.mount
  | .allowMissingControllers => some w.allowMissing
  | .dirExists path => some (decide (path ∈ w.dirs))
  | .fileExists _ => some true
  | .readText _ => some (.ok "")
  | .writeText _ _ => some (.ok ())
  | .addPid _ _ => some (.ok ())
  | .makeDir _ => some (.ok ())
  | .removeEmptyDir path =>
      some (if w.populated path then .busy else .removed)
  | .subdirs path =>
      some (.ok (w.dirs.filterMap (stripLeading (path ++ "/"))))
  | .leaseAllocate subnet id requested gateway =>
      match parseCidr subnet, w.leases.assign subnet id requested gateway with
      | .ok (_, prefixLen), .ok (ip, _) => some (.ok (ip, prefixLen))
      | _, _ => none
  | .leaseRelease _ => some (.ok ())
  | .leaseGc liveIds =>
      some (.ok (w.leases.entries.length -
        (w.leases.keeping liveIds).entries.length))
  | .linkIndex name => some (.ok ((w.link? name).map Link.index))
  | .listLinks => some (.ok (w.links.map Link.name))
  | .createBridge _ => some (.ok ())
  | .createVeth _ _ => some (.ok ())
  | .deleteLink _ => some (.ok ())
  | .addAddress _ _ _ => some (.ok ())
  | .setUp _ => some (.ok ())
  | .setMtu _ _ => some (.ok ())
  | .setMaster _ _ => some (.ok ())
  | .moveToNetns _ _ _ => some (.ok ())
  | .iptables command =>
      some (if (w.runIptables command).isSome then .ok ()
        else .error (.container "iptables failed"))
  | .iptablesDump table => some (.ok (w.dump table))

/-- The same for the operations towards init. -/
def channelUsual : (op : ChannelOp) → Option (ChannelAns op)
  | .recv _ => some (.ok none)
  | .sendGo _ => some (.ok ())
  | .writeNetstate _ _ => some (.ok ())

/-- The same for all operations; `child` is the pid of a new process. -/
def usual (self child : Pid) (w : World) : (op : Op) → Option (Ans op)
  | .host op => w.hostUsual op
  | .channel op => channelUsual op
  | .openLock id => some (.ok { id, incarnation := w.incarnation id })
  | .flock file => if w.holder file = none then some (.ok ()) else none
  | .funlock _ => some ()
  | .readState id =>
      some (match w.state? id with
        | some st => .ok st
        | none => .error (.notFound ("container " ++ shortId id)))
  | .writeState _ _ => some (.ok ())
  | .removeDir _ => some .removed
  | .dirEntries => some (.ok (w.states.map (·.id)).dedup)
  | .stateExists id => some (w.state? id).isSome
  | .launching _ => some ()
  | .cloneInit _ _ => some (.ok child)
  | .procStat pid =>
      some (match w.init? pid with
        | some p =>
            if p.alive then .ok { zombie := false, startTime := p.startTime }
            else .error (.io "no such process")
        | none => .ok { zombie := false, startTime := 1 })
  | .waitPid pid nohang =>
      if nohang then some (.ok none)
      else if w.initAlive pid then none
      else some (.ok (some { code := some 0, signal := none }))
  | .forkShim _ _ => some (.ok child)
  | .getpid => some self
  | .notify _ => some ()
  | .readNotify shim => (w.notices shim).map NotifyRead.notice
  | .spin => none

/-- The same, but init sends the given frame. -/
def sending (frame : Frame) (self child : Pid) (w : World) :
    (op : Op) → Option (Ans op)
  | .channel (.recv _) => some (.ok (some frame))
  | op => w.usual self child op

end World

/-! ## What an operation leaves alone -/

namespace World

/-- An answer with a condition is possible when the condition holds. -/
theorem provided_eq_some
    {w w' : World}
    {c : Prop}
    [Decidable c] :
    w.provided c = some w' ↔ c ∧ w = w' := by
  unfold provided
  split
  · simp_all
  · simp_all

/-- Operations on the host leave the state files alone. -/
theorem hostAnswer_states
    {w w' : World}
    {op : HostOp}
    {answer : HostAns op}
    (answered : w.hostAnswer op answer = some w') :
    w'.states = w.states := by
  cases op with
  | iptables command =>
      cases answer with
      | error e =>
          simp only [hostAnswer, Option.some.injEq] at answered
          rw [answered]
      | ok u =>
          cases command <;>
            simp [hostAnswer, runIptables, provided_eq_some] at answered <;>
            grind
  | _ =>
      all_goals
        (try cases answer) <;>
        simp [hostAnswer, provided_eq_some] at answered <;>
        grind [withoutLink]

/-- Operations on the host leave locks, notices and incarnations alone. -/
theorem hostAnswer_store
    {w w' : World}
    {op : HostOp}
    {answer : HostAns op}
    (answered : w.hostAnswer op answer = some w') :
    w'.holder = w.holder ∧ w'.incarnation = w.incarnation ∧
      w'.notices = w.notices := by
  cases op with
  | iptables command =>
      cases answer with
      | error e =>
          simp only [hostAnswer, Option.some.injEq] at answered
          simp [answered]
      | ok u =>
          cases command <;>
            simp [hostAnswer, runIptables, provided_eq_some] at answered <;>
            grind
  | _ =>
      all_goals
        (try cases answer) <;>
        simp [hostAnswer, provided_eq_some] at answered <;>
        grind [withoutLink]

/-- A state file is found under the id that it records. -/
theorem state?_id
    {w : World}
    {id : String}
    {st : ContainerState}
    (found : w.state? id = some st) :
    st.id = id := by
  simpa using List.find?_some found

/-- The state files alone decide what is found. -/
theorem state?_congr
    {w w' : World}
    (same : w'.states = w.states)
    (id : String) :
    w'.state? id = w.state? id := by
  rw [state?, same, state?]

/-- A record that was written is found. -/
theorem state?_putState_same
    (w : World)
    (st : ContainerState) :
    (w.putState st).state? st.id = some st := by
  simp [state?, putState]

/-- Leaving out one id hides no other. -/
private theorem find?_filter_other
    (states : List ContainerState)
    {dropped id : String}
    (different : dropped ≠ id) :
    (states.filter (·.id ≠ dropped)).find? (·.id = id) =
      states.find? (·.id = id) := by
  rw [List.find?_filter]
  congr 1
  funext st
  by_cases same : st.id = id
  · simp [same, different.symm]
  · simp [same]

/-- Writing a record hides no other. -/
theorem state?_putState_other
    (w : World)
    {st : ContainerState}
    {id : String}
    (different : st.id ≠ id) :
    (w.putState st).state? id = w.state? id := by
  have skipped :
      (st :: w.states.filter (·.id ≠ st.id)).find? (·.id = id) =
        (w.states.filter (·.id ≠ st.id)).find? (·.id = id) := by
    simp [different]
  exact skipped.trans (find?_filter_other w.states different)

/-- A record that was removed is not found. -/
theorem state?_dropState_same
    (w : World)
    (id : String) :
    (w.dropState id).state? id = none := by
  simp [state?, dropState]

/-- Removing a record hides no other. -/
private theorem state?_dropState_other
    (w : World)
    {dropped id : String}
    (different : dropped ≠ id) :
    (w.dropState dropped).state? id = w.state? id :=
  find?_filter_other w.states different

/-- What the operations on the store do to a state file; all others leave it
alone. -/
inductive StateChange (w w' : World) (id : String) : (op : Op) → Ans op → Prop where
  | none
      {op : Op}
      {answer : Ans op}
      (same : w'.state? id = w.state? id) :
      StateChange w w' id op answer
  | written
      {place : SavePoint}
      {st : ContainerState}
      (here : st.id = id)
      (now : w'.state? id = some st) :
      StateChange w w' id (.writeState place st) (.ok ())
  | removed
      {answer : Removal}
      (gone : w'.state? id = .none) :
      StateChange w w' id (.removeDir id) answer

/-- Every step of the world is one of these changes, for each id. -/
theorem stateChange_of_answer
    {w w' : World}
    {self : Pid}
    {op : Op}
    {answer : Ans op}
    (answered : w.answer self op answer = some w')
    (id : String) :
    StateChange w w' id op answer := by
  cases op with
  | host op =>
      have same := hostAnswer_states answered
      exact .none (state?_congr same id)
  | writeState place st =>
      cases answer with
      | error e =>
          obtain rfl : w = w' := by
            simpa [World.answer] using answered
          exact .none rfl
      | ok u =>
          obtain rfl : w.putState st = w' := by
            simpa [World.answer] using answered
          by_cases here : st.id = id
          · exact .written here (here ▸ state?_putState_same w st)
          · exact .none (state?_putState_other w here)
  | removeDir dropped =>
      by_cases here : dropped = id
      · subst here
        cases answer with
        | removed =>
            refine .removed ?_
            simp only [World.answer, Option.some.injEq] at answered
            rw [← answered]
            exact state?_dropState_same w dropped
        | failed stateGone e =>
            simp only [World.answer, Option.some.injEq] at answered
            cases stateGone with
            | false =>
                exact .none (by simp [← answered])
            | true =>
                refine .removed ?_
                rw [← answered]
                exact state?_dropState_same w dropped
      · refine .none ?_
        cases answer with
        | removed =>
            simp only [World.answer, Option.some.injEq] at answered
            rw [← answered]
            exact state?_dropState_other w here
        | failed stateGone e =>
            simp only [World.answer, Option.some.injEq] at answered
            rw [← answered]
            cases stateGone with
            | false =>
                rfl
            | true =>
                exact state?_dropState_other w here
  | spin =>
      exact answer.elim
  | _ =>
      refine .none ?_
      all_goals
        (try cases answer) <;>
        simp [World.answer, provided_eq_some] at answered <;>
        grind [state?]

/-- What an operation does to the locks, the incarnations and the notices. -/
inductive StoreChange (w w' : World) (self : Pid) : (op : Op) → Ans op → Prop where
  | locked
      {file : LockFile}
      (free : w.holder file = none)
      (holder : w'.holder = Function.update w.holder file (some self))
      (incarnation : w'.incarnation = w.incarnation)
      (notices : w'.notices = w.notices) :
      StoreChange w w' self (.flock file) (.ok ())
  | unlocked
      {file : LockFile}
      (holder : w'.holder =
        if w.holder file = some self then Function.update w.holder file none
        else w.holder)
      (incarnation : w'.incarnation = w.incarnation)
      (notices : w'.notices = w.notices) :
      StoreChange w w' self (.funlock file) ()
  | removed
      {id : String}
      (holder : w'.holder = w.holder)
      (incarnation : w'.incarnation =
        Function.update w.incarnation id (w.incarnation id + 1))
      (notices : w'.notices = w.notices) :
      StoreChange w w' self (.removeDir id) .removed
  | notified
      {notice : Notice}
      (holder : w'.holder = w.holder)
      (incarnation : w'.incarnation = w.incarnation)
      (notices : w'.notices = Function.update w.notices self (some notice)) :
      StoreChange w w' self (.notify notice) ()
  | none
      {op : Op}
      {answer : Ans op}
      (holder : w'.holder = w.holder)
      (incarnation : w'.incarnation = w.incarnation)
      (notices : w'.notices = w.notices) :
      StoreChange w w' self op answer

/-- Every step of the world is one of these changes. -/
theorem storeChange_of_answer
    {w w' : World}
    {self : Pid}
    {op : Op}
    {answer : Ans op}
    (answered : w.answer self op answer = some w') :
    StoreChange w w' self op answer := by
  cases op with
  | host op =>
      obtain ⟨holder, incarnation, notices⟩ := hostAnswer_store answered
      exact .none holder incarnation notices
  | flock file =>
      cases answer with
      | error e =>
          obtain rfl : w = w' := by
            simpa [World.answer] using answered
          exact .none rfl rfl rfl
      | ok u =>
          simp only [World.answer] at answered
          split at answered
          · rename_i free
            obtain rfl := Option.some.inj answered
            exact .locked free rfl rfl rfl
          · simp at answered
  | funlock file =>
      simp only [World.answer] at answered
      refine .unlocked ?_ ?_ ?_
      all_goals
        split at answered <;> obtain rfl := Option.some.inj answered <;>
        simp [*]
  | removeDir id =>
      cases answer with
      | removed =>
          obtain rfl := Option.some.inj answered
          exact .removed rfl rfl rfl
      | failed stateGone e =>
          obtain rfl := Option.some.inj answered
          cases stateGone <;> exact .none rfl rfl rfl
  | notify notice =>
      obtain rfl := Option.some.inj answered
      exact .notified rfl rfl rfl
  | spin =>
      exact answer.elim
  | _ =>
      refine .none ?_ ?_ ?_ <;>
      (try cases answer) <;>
        simp [World.answer, provided_eq_some] at answered <;>
        grind [putState]

/-- What happens on its own leaves the state files. -/
theorem happen_states
    {w w' : World}
    {what : Happening}
    (happened : w.happen what = some w') :
    w'.states = w.states := by
  cases what with
  | initDies pid =>
      simp only [happen, Option.some.injEq] at happened
      rw [← happened]
      rfl
  | linkVanishes index =>
      simp only [happen] at happened
      split at happened
      · simp only [Option.some.injEq] at happened
        rw [← happened]
        rfl
      · simp at happened

/-- What happens on its own leaves locks, incarnations and notices. -/
theorem happen_store
    {w w' : World}
    {what : Happening}
    (happened : w.happen what = some w') :
    w'.holder = w.holder ∧ w'.incarnation = w.incarnation ∧
      w'.notices = w.notices := by
  cases what with
  | initDies pid =>
      obtain rfl := Option.some.inj happened
      exact ⟨rfl, rfl, rfl⟩
  | linkVanishes index =>
      simp only [happen] at happened
      split at happened
      · obtain rfl := Option.some.inj happened
        exact ⟨rfl, rfl, rfl⟩
      · simp at happened

end World

/-! ## Programs at their places of use -/

section Lifts

variable {α : Type}

/-- A program of the host runs with its operations tagged. -/
@[simp] theorem run_liftM_host (p : HostAct α) :
    (liftM p : Act α).run = p.run.map Op.host fun _ answer => answer :=
  rfl

/-- A program without errors runs and succeeds. -/
@[simp] theorem run_liftM_proc (p : Proc α) :
    (liftM p : Act α).run = p.bind fun value => .ret (.ok value) :=
  rfl

/-- An action leaves the record and the rollback stack alone. -/
@[simp] theorem run_liftM_task (p : Act α) (s : Launching) :
    (liftM p : Task α).run s = p.run.bind fun result => .ret (result, s) :=
  rfl

/-- A host step with a rollback stack keeps the record. -/
@[simp] theorem run_liftM_hostTask (p : HostTask α) (s : Launching) :
    (liftM p : Task α).run s =
      ((p.run s.undo).map Op.host fun _ answer => answer).bind
        fun (result, undo) => .ret (result, { s with undo }) :=
  rfl

/-- A host step without a rollback stack keeps the record and the stack. -/
@[simp] theorem run_liftM_host_task (p : HostAct α) (s : Launching) :
    (liftM p : Task α).run s =
      (p.run.map Op.host fun _ answer => answer).bind
        fun result => .ret (result, s) :=
  rfl

/-- A transition is made at the time that the clock shows. -/
private theorem transitionNow_yields
    (st : ContainerState)
    (next : Status) :
    (transitionNow st next).run.Yields fun result =>
      ∀ st', result = .ok st' → ∃ now, st.transition next now = .ok st' :=
  fun now _ moved => ⟨now, moved⟩

/-- A thawed container runs again; any other is left alone. -/
theorem thawPaused_yields (st : ContainerState) :
    (Lifecycle.thawPaused st).run.Yields fun result =>
      ∀ st', result = .ok st' →
        st' = st ∨ ∃ now, st.transition .running now = .ok st' := by
  have thawed : (transitionNow st .running).run.Yields fun result =>
      ∀ st', result = .ok st' →
        st' = st ∨ ∃ now, st.transition .running now = .ok st' :=
    (transitionNow_yields st .running).mono fun _ known st' isOk =>
      .inr (known st' isOk)
  unfold Lifecycle.thawPaused
  split
  · refine Prog.Yields.bind (Prog.yields_of_forall (fun _ => trivial) _) ?_
    intro found _
    cases found with
    | error e =>
        intro st' never
        simp at never
    | ok cgroup =>
        cases cgroup with
        | none =>
            exact thawed
        | some cg =>
            refine Prog.Yields.bind
              (Prog.yields_of_forall (fun _ => trivial) _) ?_
            intro outcome _
            cases outcome with
            | error e =>
                intro st' never
                simp at never
            | ok _ =>
                exact thawed
  · intro st' same
    exact .inl (by simpa using same.symm)

/-- An out-of-memory kill is all that `noteOom` notes. -/
theorem noteOom_yields
    (st : ContainerState)
    (cgroup : Option Cgroup) :
    (Supervisor.noteOom st cgroup).run.Yields fun result =>
      ∀ st', result = .ok st' → ∃ oom, st' = { st with oomKilled := oom } := by
  cases cgroup with
  | none =>
      intro st' same
      exact ⟨st.oomKilled, by simpa using same.symm⟩
  | some cg =>
      refine Prog.Yields.bind
        (Prog.yields_of_forall (fun _ => trivial) cg.wasOomKilled.run) ?_
      intro result _
      cases result with
      | error e =>
          intro st' never
          simp at never
      | ok oom =>
          intro st' noted
          cases oom with
          | true => exact ⟨true, by simpa using noted.symm⟩
          | false => exact ⟨st.oomKilled, by simpa using noted.symm⟩

/-! ### Weakest preconditions at a lift -/

open Prog

variable {G : Type} {C : Contract Op Ans G}

/-- Where the host is of no concern, only the outcome of a host program counts.
-/
theorem wp_host_of_neutral
    (neutral : ∀ op, C.Neutral (.host op))
    {p : HostAct α}
    {g : G}
    {ok : α → G → Prop}
    {err : Error → G → Prop}
    (okHolds : ∀ value, ok value g)
    (errHolds : ∀ e, err e g) :
    (liftM p : Act α).wp C g ok err := by
  refine wp_map_neutral neutral _ ?_
  intro result
  cases result with
  | ok value =>
      exact okHolds value
  | error e =>
      exact errHolds e

/-- The same, with what is known about the value. -/
theorem wp_host_of_yields
    (neutral : ∀ op, C.Neutral (.host op))
    {p : HostAct α}
    {P : α → Prop}
    (yields : p.run.Yields fun result => ∀ value, result = .ok value → P value)
    {g : G}
    {ok : α → G → Prop}
    {err : Error → G → Prop}
    (okHolds : ∀ value, P value → ok value g)
    (errHolds : ∀ e, err e g) :
    (liftM p : Act α).wp C g ok err := by
  refine yields.wp_map neutral _ ?_
  intro result known
  cases result with
  | ok value =>
      exact okHolds value (known value rfl)
  | error e =>
      exact errHolds e

/-- Reading the clock, where the host is of no concern. -/
theorem wp_nowMs
    (neutral : ∀ op, C.Neutral (.host op))
    {g : G}
    {ok : UInt64 → G → Prop}
    {err : Error → G → Prop}
    (holds : ∀ now, ok now g) :
    (liftM nowMs : Act UInt64).wp C g ok err :=
  neutral .now g _ holds

/-- A transition at the current time, where the host is of no concern. -/
theorem wp_transitionNow
    (neutral : ∀ op, C.Neutral (.host op))
    {st : ContainerState}
    {next : Status}
    {g : G}
    {ok : ContainerState → G → Prop}
    {err : Error → G → Prop}
    (okHolds : ∀ st' now, st.transition next now = .ok st' → ok st' g)
    (errHolds : ∀ e, err e g) :
    (liftM (transitionNow st next) : Act ContainerState).wp C g ok err := by
  refine neutral .now g _ ?_
  intro now
  cases moved : st.transition next now with
  | ok st' =>
      change Fallible.onResult ok err (st.transition next now) g
      rw [moved]
      exact okHolds st' now moved
  | error e =>
      change Fallible.onResult ok err (st.transition next now) g
      rw [moved]
      exact errHolds e

/-- A host program whose failure is ignored. -/
theorem wp_attempt_of_neutral
    (neutral : ∀ op, C.Neutral (.host op))
    {p : HostAct α}
    {g : G}
    {ok : Result α → G → Prop}
    {err : Error → G → Prop}
    (holds : ∀ result, ok result g) :
    (liftM p.attempt : Act (Result α)).wp C g ok err := by
  rw [Fallible.wp, run_liftM_host, Fallible.run_attempt, Prog.map_bind,
    Prog.wp_bind]
  exact wp_map_neutral neutral _ holds

/-- A host step of a launch, where the host is of no concern. -/
theorem wp_task_host_of_neutral
    (neutral : ∀ op, C.Neutral (.host op))
    {p : HostAct α}
    {s : Launching}
    {g : G}
    {ok : α → Launching → G → Prop}
    {err : Error → Launching → G → Prop}
    (okHolds : ∀ value, ok value s g)
    (errHolds : ∀ e, err e s g) :
    (liftM p : Task α).wp C s g ok err := by
  have inner : (liftM p : Act α).wp C g (fun value => ok value s)
      (fun e => err e s) :=
    wp_host_of_neutral neutral okHolds errHolds
  exact (Staged.wp_liftM (liftM p : Act α) s g).mpr inner

section Channel

variable {err : Error → G → Prop} {g : G}

/-- Receiving a frame, where the channel is of no concern. -/
private theorem wp_recv_of_neutral
    (neutral : ∀ op, C.Neutral (.channel op))
    (pid : Pid)
    {ok : Option Frame → G → Prop}
    (okHolds : ∀ frame, ok frame g)
    (errHolds : ∀ e, err e g) :
    (Supervisor.recv pid).wp C g ok err := by
  refine neutral (.recv pid) g _ ?_
  intro answer
  cases answer with
  | ok frame =>
      exact okHolds frame
  | error e =>
      exact errHolds e

/-- The same when a failure of the receiver is kept as a value. -/
private theorem wp_recv_attempt_of_neutral
    (neutral : ∀ op, C.Neutral (.channel op))
    (pid : Pid)
    {ok : Result (Option Frame) → G → Prop}
    (holds : ∀ received, ok received g) :
    (Supervisor.recv pid).attempt.wp C g ok err := by
  rw [Fallible.wp_attempt]
  exact wp_recv_of_neutral neutral pid (fun frame => holds (.ok frame))
    fun e => holds (.error e)

/-- The frame loop changes nothing but the error of the record. -/
theorem wp_recvLoop_of_neutral
    (neutral : ∀ op, C.Neutral (.channel op))
    (spins : C.Neutral .spin)
    (pid : Pid)
    (st : ContainerState)
    (fromInit : Option ExitStatus)
    (rounds : Nat)
    {ok : ContainerState × Option ExitStatus → G → Prop}
    (holds : ∀ error exit, ok ({ st with error := error }, exit) g) :
    (Supervisor.recvLoop pid st fromInit rounds).wp C g ok err := by
  induction rounds generalizing st fromInit with
  | zero =>
      exact spins g _ fun never => never.elim
  | succ rounds inductionHypothesis =>
      rw [Supervisor.recvLoop, Fallible.wp_bind]
      refine wp_recv_attempt_of_neutral neutral pid ?_
      intro received
      split
      · exact inductionHypothesis st _ holds
      · exact inductionHypothesis _ fromInit holds
      · exact inductionHypothesis st fromInit holds
      · exact holds st.error fromInit
      · exact holds st.error fromInit

/-- Waiting for one frame either succeeds or fails. -/
theorem wp_expectFrame_of_neutral
    (neutral : ∀ op, C.Neutral (.channel op))
    (pid : Pid)
    (want : Frame)
    {ok : Unit → G → Prop}
    (okHolds : ok () g)
    (errHolds : ∀ e, err e g) :
    (Supervisor.expectFrame pid want).wp C g ok err := by
  rw [Supervisor.expectFrame, Fallible.wp_bind]
  refine wp_recv_of_neutral neutral pid ?_ errHolds
  intro received
  cases received with
  | none =>
      exact errHolds _
  | some frame =>
      by_cases wanted : frame = want
      · simpa [wanted] using okHolds
      · cases frame <;> simp [wanted, errHolds]

/-- Writing the network state, where the channel is of no concern. -/
theorem wp_writeNetstate_of_neutral
    (neutral : ∀ op, C.Neutral (.channel op))
    (id : String)
    (net : NetworkState)
    {ok : Unit → G → Prop}
    (okHolds : ok () g)
    (errHolds : ∀ e, err e g) :
    (Supervisor.writeNetstate id net).wp C g ok err := by
  refine neutral (.writeNetstate id net) g _ ?_
  intro answer
  cases answer with
  | ok u =>
      exact okHolds
  | error e =>
      exact errHolds e

/-- Sending the go signal, where the channel is of no concern. -/
theorem wp_sendGo_of_neutral
    (neutral : ∀ op, C.Neutral (.channel op))
    (pid : Pid)
    {ok : Unit → G → Prop}
    (okHolds : ok () g)
    (errHolds : ∀ e, err e g) :
    (Supervisor.sendGo pid).wp C g ok err := by
  refine neutral (.sendGo pid) g _ ?_
  intro answer
  cases answer with
  | ok u =>
      exact okHolds
  | error e =>
      exact errHolds e

end Channel

/-- A rollback step is put on top of the stack. -/
@[simp] theorem wp_pushUndo
    (u : Undo)
    (s : Launching)
    (g : G)
    (ok : Unit → Launching → G → Prop)
    (err : Error → Launching → G → Prop) :
    (liftM (pushUndo u) : Task Unit).wp C s g ok err ↔
      ok () { s with undo := u :: s.undo } g :=
  Iff.rfl

/-- The record of the launch is changed in place. -/
@[simp] theorem wp_setState
    (f : ContainerState → ContainerState)
    (s : Launching)
    (g : G)
    (ok : Unit → Launching → G → Prop)
    (err : Error → Launching → G → Prop) :
    (Supervisor.setState f).wp C s g ok err ↔ ok () { s with st := f s.st } g :=
  Iff.rfl

/-- A host step that only adds to the rollback stack. -/
def Grows (p : HostTask α) : Prop :=
  ∀ undo, (p.run undo).Yields fun result => undo <:+ result.2

/-- A host step that only adds rollback steps, where the host is of no concern.
-/
theorem wp_hostTask_of_neutral
    (neutral : ∀ op, C.Neutral (.host op))
    {p : HostTask α}
    (grows : Grows p)
    {s : Launching}
    {g : G}
    {ok : α → Launching → G → Prop}
    {err : Error → Launching → G → Prop}
    (okHolds : ∀ value undo, s.undo <:+ undo → ok value { s with undo } g)
    (errHolds : ∀ e undo, s.undo <:+ undo → err e { s with undo } g) :
    (liftM p : Task α).wp C s g ok err := by
  rw [Staged.wp, run_liftM_hostTask, Prog.wp_bind]
  refine (grows s.undo).wp_map neutral _ ?_
  rintro ⟨result, undo⟩ older
  cases result with
  | ok value =>
      exact okHolds value undo older
  | error e =>
      exact errHolds e undo older

end Lifts

namespace Grows

variable {α β : Type}

/-- Returning adds no rollback step. -/
private theorem pure (value : α) : Grows (Pure.pure value) :=
  fun _ => List.suffix_rfl

/-- Failing adds no rollback step. -/
private theorem fail (e : Error) : Grows (Staged.fail e : HostTask α) :=
  fun _ => List.suffix_rfl

/-- Pushing a rollback step keeps those below. -/
private theorem push (u : Undo) : Grows (pushUndo u) :=
  fun undo => List.suffix_cons u undo

/-- A host step without a rollback stack adds none. -/
private theorem lift (p : HostAct α) : Grows (liftM p : HostTask α) :=
  fun undo => Prog.Yields.bind (Prog.yields_of_forall (fun _ => trivial) p.run)
    fun _ _ => (List.suffix_rfl : undo <:+ undo)

/-- Steps in sequence only add rollback steps. -/
private theorem bind
    {p : HostTask α}
    {f : α → HostTask β}
    (first : Grows p)
    (second : ∀ value, Grows (f value)) :
    Grows (p >>= f) := by
  intro undo
  refine (first undo).bind ?_
  rintro ⟨result, undo'⟩ older
  cases result with
  | error e =>
      exact older
  | ok value =>
      exact (second value undo').mono fun _ later => older.trans later

/-- `setup_host` only adds rollback steps. -/
theorem setupHost (cfg : ContainerConfig) (pid : Pid) :
    Grows (Network.setupHost cfg pid) := by
  unfold Network.setupHost
  split
  · exact pure _
  · exact pure _
  · refine bind (lift _) ?_
    intro available
    cases available with
    | false =>
        exact fail _
    | true =>
        refine bind (lift _) fun cidr => bind (lift _) fun gateway =>
          bind (lift _) fun _ => bind (lift _) fun bridgeIdx =>
          bind (lift _) fun requested => bind (lift _) fun granted => ?_
        refine bind (push _) fun _ => bind (lift _) fun _ =>
          bind (lift _) fun _ => bind (lift _) fun _ => bind (push _) fun _ =>
          bind (lift _) fun _ => bind (lift _) fun _ => bind (lift _) fun _ =>
          bind (lift _) fun _ => bind ?_ fun _ => pure _
        unfold Network.pushRulesUndo
        split
        · exact pure _
        · exact push _

end Grows

/-! ## Which operations a program uses -/

section Uses

open Prog

variable {P : Op → Prop} {α β : Type}

/-- An action as part of a launch uses what it used. -/
theorem uses_task
    {p : Act α}
    (uses : OnlyUses P p.run)
    (s : Launching) :
    OnlyUses P ((liftM p : Task α).run s) :=
  uses.bind fun result => .ret (result, s)

/-- `process_alive` reads one `stat` file. -/
theorem uses_processAlive
    (stats : ∀ pid, P (.procStat pid))
    (pid : Pid)
    (start : Option UInt64) :
    OnlyUses P (processAlive pid start).run := by
  refine Fallible.uses_bind (Fallible.uses_attempt (.perform (stats pid))) ?_
  intro outcome
  cases outcome with
  | ok stat => exact .ret _
  | error e => exact .ret _

/-- `init_is_alive` reads at most one `stat` file. -/
theorem uses_initIsAlive
    (stats : ∀ pid, P (.procStat pid))
    (st : ContainerState) :
    OnlyUses P st.initIsAlive.run := by
  unfold ContainerState.initIsAlive
  split
  · exact .ret _
  · exact uses_processAlive stats _ _

/-- Reading a start time reads one `stat` file. -/
theorem uses_readStartTime
    (stats : ∀ pid, P (.procStat pid))
    (pid : Pid) :
    OnlyUses P (Supervisor.readStartTime pid).run := by
  refine Fallible.uses_bind (Fallible.uses_attempt (.perform (stats pid))) ?_
  intro outcome
  cases outcome with
  | ok stat => exact .ret _
  | error e => exact .ret _

/-- The search for a name reads records. -/
private theorem uses_nameFree
    (reads : ∀ id, P (.readState id))
    (name : String)
    (ids : List String) :
    OnlyUses P (Supervisor.nameFree name ids).run := by
  induction ids with
  | nil =>
      exact .ret _
  | cons id ids inductionHypothesis =>
      refine Fallible.uses_bind (Fallible.uses_attempt (.perform (reads id))) ?_
      intro outcome
      cases outcome with
      | ok other =>
          by_cases taken : other.name = some name
          · simp only [taken, if_true]
            exact .ret _
          · simp only [taken, if_false]
            exact inductionHypothesis
      | error e => exact inductionHypothesis

/-- The search for containers tests for state files. -/
private theorem uses_existing
    (looks : ∀ id, P (.stateExists id))
    (entries : List String) :
    OnlyUses P (Store.existing entries).run := by
  induction entries with
  | nil =>
      exact .ret _
  | cons entry entries inductionHypothesis =>
      refine Fallible.uses_bind
        ((OnlyUses.perform (looks entry)).bind fun _ => .ret _) ?_
      intro present
      exact Fallible.uses_bind inductionHypothesis fun _ => .ret _

/-- The check of a name lists the containers and reads their records. -/
theorem uses_checkName
    (lists : P .dirEntries)
    (looks : ∀ id, P (.stateExists id))
    (reads : ∀ id, P (.readState id))
    (name : Option String) :
    OnlyUses P (Supervisor.checkName name).run := by
  cases name with
  | none => exact .ret _
  | some name =>
      refine Fallible.uses_bind ?_ fun names => uses_nameFree reads name names
      refine Fallible.uses_bind (.perform lists) ?_
      intro entries
      exact Fallible.uses_bind (uses_existing looks entries) fun _ => .ret _

variable (host : ∀ op, P (.host op))

include host

/-- A host program uses operations of the host. -/
theorem uses_host
    (p : HostAct α) :
    OnlyUses P (liftM p : Act α).run :=
  .map host _ p.run

/-- So does a host step with a rollback stack. -/
theorem uses_hostTask
    (p : HostTask α)
    (s : Launching) :
    OnlyUses P ((liftM p : Task α).run s) :=
  (OnlyUses.map host _ (p.run s.undo)).bind fun _ => .ret _

/-- Creating the cgroup uses operations of the host. -/
theorem uses_createCgroup [F64Ops]
    (id : String)
    (res : Resources)
    (s : Launching) :
    OnlyUses P ((Supervisor.createCgroup id res).run s) := by
  refine (uses_task (uses_host host _) s).bind ?_
  rintro ⟨result, s'⟩
  cases result with
  | error e => exact .ret _
  | ok outcome =>
      cases outcome with
      | ok cg => exact .ret _
      | error e =>
          by_cases survivable :
              (res.isEmpty && e.exitClass = .unsupported) = true
          · simp only [survivable]
            exact .ret _
          · simp only [survivable]
            exact .ret _

/-- `kill_init` looks for the process, signals it and reaps it. -/
theorem uses_killInit
    (stats : ∀ pid, P (.procStat pid))
    (waits : ∀ pid nohang, P (.waitPid pid nohang))
    (st : ContainerState) :
    OnlyUses P (Supervisor.killInit st).run := by
  unfold Supervisor.killInit
  split
  · exact .ret _
  · refine Fallible.uses_bind (uses_initIsAlive stats st) ?_
    intro alive
    cases alive with
    | false => exact .ret _
    | true =>
        refine Fallible.uses_bind (uses_host host _) fun _ => ?_
        exact Fallible.uses_bind
          (Fallible.uses_attempt (.perform (waits st.initPid true))) fun _ => .ret _

/-- A rollback step uses the host and may wait for a process. -/
private theorem uses_undo
    (waits : ∀ pid nohang, P (.waitPid pid nohang))
    (u : Undo) :
    OnlyUses P u.run.run := by
  cases u with
  | cgroup path =>
      exact Fallible.uses_bind (uses_host host _) fun cg => uses_host host _
  | process pid =>
      refine Fallible.uses_bind (uses_host host _) fun _ => ?_
      refine Fallible.uses_bind
        (Fallible.uses_attempt (.perform (waits pid false))) fun _ => ?_
      exact .ret _
  | lease id => exact uses_host host _
  | veth name => exact uses_host host _
  | rules id => exact Fallible.uses_bind (uses_host host _) fun _ => .ret _
  | network id net => exact uses_host host _

/-- So does the whole rollback. -/
theorem uses_unwind
    (waits : ∀ pid nohang, P (.waitPid pid nohang))
    (undo : List Undo) :
    OnlyUses P (Undo.unwind undo).run := by
  induction undo with
  | nil => exact .ret _
  | cons u undo inductionHypothesis =>
      exact Fallible.uses_bind (Fallible.uses_attempt (uses_undo host waits u))
        fun _ => inductionHypothesis

end Uses

end Myrun
