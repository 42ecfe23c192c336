import Myrun.Discipline
import Myrun.Runtime

namespace Myrun

/-!
# What a command does to one container

Every command but `create` keeps to one discipline in what it does to the
record, the lock and the processes of a container: which record it saves after
which one it loaded, what it has learnt about the init process by then, and what
it holds while it waits for a shim.

The discipline is checked here once for every command.  The properties of
interleavings are proved from it, without looking at the programs again.
-/

/-- What a process has done to one container. -/
structure View where
  command : Command
  /-- records it loaded or saved, newest first -/
  seen : List ContainerState := []
  /-- what it read of `/proc` -/
  stats : List (Pid × Result ProcStat) := []
  /-- processes it has waited for until they were gone -/
  waited : List Pid := []
  lock : Option LockFile := none
  /-- a shim it has forked and not heard of -/
  pending : Option Pid := none
  /-- the shim has reported success -/
  heard : Bool := false
  /-- it has passed the status check of `launch` -/
  launched : Bool := false
  cloned : Option Pid := none
  /-- it has recorded the outcome of the launch -/
  recorded : Bool := false

/-- The outcome of `process_alive`. -/
def ProcStat.looksAlive (start : Option UInt64) : Result ProcStat → Bool
  | .ok stat => !stat.zombie && start.all (· = stat.startTime)
  | .error _ => false

/-- Saves that record the outcome of a launch. -/
def SavePoint.recordsLaunch : SavePoint → Result Unit → Bool
  | .launch, .ok _ => true
  | .launchFailed, _ => true
  | _, _ => false

namespace View

/-- Note a record of the container. -/
def note (id : String) (v : View) (st : ContainerState) : View :=
  if st.id = id then { v with seen := st :: v.seen } else v

/-- The view after an operation. -/
def after (id : String) (v : View) : (op : Op) → Ans op → View
  | .readState _, .ok st => v.note id st
  | .writeState place st, answer =>
      if st.id = id then
        { v.note id st with
          recorded := v.recorded || place.recordsLaunch answer }
      else v
  | .flock file, .ok _ =>
      if file.id = id then { v with lock := some file } else v
  | .funlock file, _ => if file.id = id then { v with lock := none } else v
  | .launching i, _ => if i = id then { v with launched := true } else v
  | .cloneInit i _, .ok pid =>
      if i = id then { v with cloned := some pid } else v
  | .procStat pid, answer => { v with stats := (pid, answer) :: v.stats }
  | .waitPid pid nohang, _ =>
      if nohang then v else { v with waited := pid :: v.waited }
  | .forkShim i _, .ok pid =>
      if i = id then { v with pending := some pid } else v
  -- what was loaded before the shim reported is out of date
  | .readNotify _, .notice n =>
      { v with pending := none, heard := n.ok, seen := [] }
  | .readNotify _, _ => { v with pending := none, heard := false, seen := [] }
  | _, _ => v

/-- The init process of a record was found to be gone. -/
def Gone (v : View) (st : ContainerState) : Prop :=
  st.initPid ≤ 0 ∨ st.initPid ∈ v.waited ∨
    ∃ answer, (st.initPid, answer) ∈ v.stats ∧
      ProcStat.looksAlive st.expectedStart answer = false

/-- The init process of an earlier record was found to be gone, after the
container was seen to be live. -/
def Outlived (v : View) : Prop :=
  ∃ newer st older, v.seen = newer ++ st :: older ∧ v.Gone st ∧
    ∃ live ∈ older, live.status.isLive

/-- `delete --force`. -/
def Forced (v : View) : Prop :=
  ∃ id rounds, v.command = .delete id true rounds

/-- A process that launches the container. -/
def Launches (id : String) (v : View) : Prop :=
  ∃ rounds, v.command = .shim id rounds ∨ v.command = .startAttached id rounds

/-- The record has the start time that was read, or none. -/
def TimedBy (v : View) (st : ContainerState) : Prop :=
  st.initStartTime = 0 ∨
    ∃ stat, (st.initPid, .ok stat) ∈ v.stats ∧
      st.initStartTime = stat.startTime

/-- What a process may save after the record it holds.  `faults` tells whether
injected faults can fire. -/
def Saves (faults : Prop) (v : View) (old st : ContainerState) :
    SavePoint → Prop
  | .storeCreate => False
  | .create => False
  | .reconcile =>
      old.status.isLive ∧ v.Gone old ∧ ∃ now, st = old.markGone now
  | .kill => old.status.isLive ∧ st.status.isLive ∧ old.SameLaunch st
  | .stop => old.status.isLive ∧ st.status.isLive ∧ old.SameLaunch st
  | .pause => old.status.isLive ∧ st.status.isLive ∧ old.SameLaunch st
  | .unpause => old.status.isLive ∧ st.status.isLive ∧ old.SameLaunch st
  | .start => v.heard ∧ ∃ shim, st = { old with shimPid := shim }
  | .launch =>
      v.launched ∧ old.status = .created ∧ st.status = .running ∧
        v.cloned = some st.initPid ∧ v.TimedBy st
  | .launchFailed =>
      st.status = .stopped ∧
        if v.launched then
          old.status ≠ .stopped ∧
            (faults ∨ ∀ pid, v.cloned = some pid → pid ∈ v.waited)
        else
          old.status ≠ .created ∧ old.SameLaunch st ∧
            old.exitStatus = st.exitStatus
  | .shim =>
      v.launched ∧ v.recorded ∧ old.status = .running ∧
        ∃ shim, st = { old with shimPid := shim }
  | .waitForExit =>
      v.launched ∧ v.recorded ∧ old.status = .running ∧
        st.status = .stopped ∧ old.SameLaunch st ∧ st.initPid ∈ v.waited
  | .teardown =>
      (∃ (oom : Bool) (now : UInt64), st =
        (if oom then { old with oomKilled := true } else old).markTornDown now) ∧
      (old.status.isLive → v.Gone old ∨ v.Forced ∨ v.Outlived)

/-- After a launch a container that was found stopped is removed only if it
asks for that. -/
def Discards (v : View) : Prop :=
  v.launched ∧ ∃ st rest, v.seen = st :: rest ∧
    (st.status = .stopped → st.config.autoRemove = true)

/-- `delete` after its teardown. -/
def Deletes (id : String) (v : View) : Prop :=
  ∃ force rounds, v.command = .delete id force rounds ∧
    ∃ st old rest, v.seen = st :: old :: rest ∧ old.SameLaunch st ∧
      (force = false → old.status.isLive = false ∧ st.status = old.status)

/-- What a process may do next. -/
def requires (id : String) (faults : Prop) (v : View) : Op → Prop
  | .writeState place st =>
      st.id = id → ∃ old rest, v.seen = old :: rest ∧ v.Saves faults old st place
  | .removeDir i => i = id → v.Discards ∨ v.Deletes id
  | .flock file =>
      file.id = id → (∃ rounds, v.command = .start id rounds) → v.seen = []
  | .funlock file => file.id = id → v.pending = none
  | .launching i =>
      i = id → v.Launches id ∧ v.launched = false ∧
        ∃ st rest, v.seen = st :: rest ∧ st.status = .created
  | .cloneInit i _ => i = id → v.launched ∧ v.cloned = none
  | .forkShim i _ =>
      i = id → (∃ rounds, v.command = .start id rounds) ∧ v.lock.isSome ∧
        v.pending = none ∧ ∃ st rest, v.seen = st :: rest ∧ st.status = .created
  | .readNotify shim =>
      (∃ rounds, v.command = .start id rounds) → v.pending = some shim
  | .notify n =>
      (∃ rounds, v.command = .shim id rounds) →
        (v.launched → v.recorded) ∧ (n.ok → v.recorded)
  | _ => True

end View

/-- Answers that have to be considered. -/
def conductCredible (faults : Prop) : (op : Op) → Ans op → Prop
  | .readState i, answer => ∀ st, answer = .ok st → st.id = i
  | .openLock i, answer => ∀ file, answer = .ok file → file.id = i
  | .dirEntries, answer => ∀ names, answer = .ok names → names.Nodup
  | .host (.fault _), answer => answer = .ok () ∨ faults
  | _, _ => True

/-- What commands do to the container `id`. -/
def conduct (id : String) (faults : Prop) : Discipline Op Ans View where
  requires := View.requires id faults
  credible := conductCredible faults
  after := View.after id

namespace Conduct

open Prog

/-- The discipline as a contract. -/
abbrev rules (id : String) (faults : Prop) : Contract Op Ans View :=
  (conduct id faults).contract

variable {id : String} {faults : Prop} {v : View} {α : Type}

/-- The host is of no concern to the rules. -/
private theorem host_neutral (op : HostOp) :
    (rules id faults).Neutral (.host op) :=
  Discipline.neutral_of (fun _ => trivial) fun _ _ => rfl

/-- Nor is a loop that is given up. -/
private theorem spin_neutral : (rules id faults).Neutral .spin :=
  fun _ _ _ => ⟨trivial, fun never => never.elim⟩

/-- Nor is the channel. -/
private theorem channel_neutral (op : ChannelOp) :
    (rules id faults).Neutral (.channel op) :=
  Discipline.neutral_of (fun _ => trivial) fun _ _ => rfl

/-- The process holds this record of the container. -/
def Holds (id : String) (v : View) (st : ContainerState) : Prop :=
  st.id = id → ∃ rest, v.seen = st :: rest

/-- A later view: the process is at the same stage, has seen more records and
learnt more about init processes. -/
structure Grown (v v' : View) : Prop where
  command : v'.command = v.command
  pending : v'.pending = v.pending
  heard : v'.heard = v.heard
  launched : v'.launched = v.launched
  cloned : v'.cloned = v.cloned
  recorded : v'.recorded = v.recorded
  older : v.seen <:+ v'.seen
  stats : v.stats ⊆ v'.stats
  waited : v.waited ⊆ v'.waited

/-- A later view with the same lock. -/
structure Kept (v v' : View) : Prop extends Grown v v' where
  lock : v'.lock = v.lock

/-- A later view that has seen no further record. -/
structure Same (v v' : View) : Prop extends Kept v v' where
  seen : v'.seen = v.seen

/-- A later view that has seen one further record. -/
structure Noted (id : String) (v v' : View) (st : ContainerState) : Prop
    extends Kept v v' where
  seen : v'.seen = (v.note id st).seen

/-- A view has grown from itself. -/
private theorem Grown.refl (v : View) : Grown v v :=
  ⟨rfl, rfl, rfl, rfl, rfl, rfl, List.suffix_rfl, List.Subset.refl _,
    List.Subset.refl _⟩

/-- A view is the same as itself. -/
private theorem Same.refl (v : View) : Same v v :=
  ⟨⟨.refl v, rfl⟩, rfl⟩

/-- Growth in sequence is growth. -/
private theorem Grown.trans
    {first second third : View}
    (earlier : Grown first second)
    (later : Grown second third) :
    Grown first third :=
  ⟨later.command.trans earlier.command, later.pending.trans earlier.pending,
    later.heard.trans earlier.heard, later.launched.trans earlier.launched,
    later.cloned.trans earlier.cloned, later.recorded.trans earlier.recorded,
    earlier.older.trans later.older,
    List.Subset.trans earlier.stats later.stats,
    List.Subset.trans earlier.waited later.waited⟩

/-- What is kept twice is kept. -/
private theorem Kept.trans
    {first second third : View}
    (earlier : Kept first second)
    (later : Kept second third) :
    Kept first third :=
  ⟨earlier.toGrown.trans later.toGrown, later.lock.trans earlier.lock⟩

/-- What is the same twice is the same. -/
private theorem Same.trans
    {first second third : View}
    (earlier : Same first second)
    (later : Same second third) :
    Same first third :=
  ⟨earlier.toKept.trans later.toKept, later.seen.trans earlier.seen⟩

/-- A note may come after steps that note nothing. -/
private theorem Noted.of_same
    {before : View}
    {st : ContainerState}
    (same : Same v before)
    {v' : View}
    (noted : Noted id before v' st) :
    Noted id v v' st := by
  refine ⟨same.toKept.trans noted.toKept, noted.seen.trans ?_⟩
  unfold View.note
  split
  · simp [same.seen]
  · exact same.seen

/-- Noting a record notes it. -/
private theorem noted_note (v : View) (st : ContainerState) :
    Noted id v (v.note id st) st := by
  refine ⟨?_, rfl⟩
  unfold View.note
  split
  · exact ⟨⟨rfl, rfl, rfl, rfl, rfl, rfl, List.suffix_cons _ _,
      List.Subset.refl _, List.Subset.refl _⟩, rfl⟩
  · exact ⟨.refl v, rfl⟩

/-- The noted record of the container is the last one seen. -/
private theorem Noted.seen_eq
    {v' : View}
    {st : ContainerState}
    (noted : Noted id v v' st)
    (here : st.id = id) :
    v'.seen = st :: v.seen := by
  rw [noted.seen]
  simp [View.note, here]

/-- A noted record is held. -/
private theorem Noted.holds
    {v' : View}
    {st : ContainerState}
    (noted : Noted id v v' st) :
    Holds id v' st :=
  fun here => ⟨v.seen, noted.seen_eq here⟩

/-- The record of another container changes nothing. -/
private theorem Noted.same
    {v' : View}
    {st : ContainerState}
    (noted : Noted id v v' st)
    (other : st.id ≠ id) :
    Same v v' := by
  refine ⟨noted.toKept, noted.seen.trans ?_⟩
  simp [View.note, other]

/-- The same view holds the same record. -/
private theorem Same.holds
    {v' : View}
    {st : ContainerState}
    (same : Same v v')
    (holds : Holds id v st) :
    Holds id v' st := by
  intro here
  rw [same.seen]
  exact holds here

/-- A process that is gone stays gone. -/
private theorem Grown.gone
    {v' : View}
    {st : ContainerState}
    (grown : Grown v v')
    (gone : v.Gone st) :
    v'.Gone st := by
  rcases gone with noPid | waited | ⟨answer, read, dead⟩
  · exact .inl noPid
  · exact .inr (.inl (grown.waited waited))
  · exact .inr (.inr ⟨answer, grown.stats read, dead⟩)

/-! ## The store -/

/-- A record that was loaded is held. -/
private theorem wp_load
    (i : String)
    {ok : ContainerState → View → Prop}
    {err : Error → View → Prop}
    (okHolds : ∀ st v', st.id = i → Noted id v v' st → ok st v')
    (errHolds : ∀ e, err e v) :
    (Store.load i).wp (rules id faults) v ok err := by
  refine ⟨trivial, ?_⟩
  intro answer possible
  cases answer with
  | ok st =>
      exact okHolds st _ (possible st rfl) (noted_note v st)
  | error e =>
      exact errHolds e

/-- A save that does not record the outcome of a launch. -/
theorem wp_save
    (place : SavePoint)
    {st old : ContainerState}
    (notLaunch : place ≠ .launch)
    (notFailed : place ≠ .launchFailed)
    (same : st.id = old.id)
    (holds : Holds id v old)
    (saves : st.id = id → v.Saves faults old st place)
    {ok : Unit → View → Prop}
    {err : Error → View → Prop}
    (okHolds : ∀ v', Noted id v v' st → ok () v')
    (errHolds : ∀ e v', Noted id v v' st → err e v') :
    (Store.save place st).wp (rules id faults) v ok err := by
  have other : ∀ answer, place.recordsLaunch answer = false := by
    intro answer
    cases place <;> first | contradiction | rfl
  have noted : ∀ answer,
      Noted id v (View.after id v (.writeState place st) answer) st := by
    intro answer
    have view : View.after id v (.writeState place st) answer = v.note id st := by
      by_cases here : st.id = id
      · simp [View.after, here, other answer, View.note]
      · simp [View.after, here, View.note]
    rw [view]
    exact noted_note v st
  refine ⟨?_, ?_⟩
  · intro here
    obtain ⟨rest, seen⟩ := holds (same ▸ here)
    exact ⟨old, rest, seen, saves here⟩
  · intro answer _
    cases answer with
    | ok u =>
        exact okHolds _ (noted _)
    | error e =>
        exact errHolds e _ (noted _)

/-- What is said about a process was read in its `stat` file. -/
private theorem wp_processAlive
    (pid : Pid)
    (start : Option UInt64)
    {ok : Bool → View → Prop}
    {err : Error → View → Prop}
    (holds : ∀ answer v', Same v v' → (pid, answer) ∈ v'.stats →
      ok (ProcStat.looksAlive start answer) v') :
    (processAlive pid start).wp (rules id faults) v ok err := by
  have same : ∀ answer, Same v { v with stats := (pid, answer) :: v.stats } :=
    fun answer => ⟨⟨⟨rfl, rfl, rfl, rfl, rfl, rfl, List.suffix_rfl,
      List.subset_cons_self _ _, List.Subset.refl _⟩, rfl⟩, rfl⟩
  rw [processAlive, Fallible.wp_bind, Fallible.wp_attempt]
  refine ⟨trivial, ?_⟩
  intro answer _
  cases answer with
  | ok stat =>
      exact holds (.ok stat) _ (same _) List.mem_cons_self
  | error e =>
      exact holds (.error e) _ (same _) List.mem_cons_self

/-- `init_is_alive`; when it says no, init was found to be gone. -/
theorem wp_initIsAlive
    (st : ContainerState)
    {ok : Bool → View → Prop}
    {err : Error → View → Prop}
    (holds : ∀ alive v', Same v v' → (alive = false → v'.Gone st) →
      ok alive v') :
    st.initIsAlive.wp (rules id faults) v ok err := by
  unfold ContainerState.initIsAlive
  split
  · rename_i noPid
    exact holds false v (.refl v) fun _ => .inl noPid
  · refine wp_processAlive _ _ ?_
    intro answer v' same read
    refine holds _ v' same ?_
    intro dead
    exact .inr (.inr ⟨answer, read, dead⟩)

/-- `reconcile` keeps the record or replaces it by a stopped one. -/
theorem wp_reconcile
    {st : ContainerState}
    (holds : Holds id v st)
    {ok : Bool × ContainerState → View → Prop}
    {err : Error → View → Prop}
    (unchanged : ∀ v', Same v v' → ok (false, st) v')
    (corrected : ∀ now v', Noted id v v' (st.markGone now) →
      ok (true, st.markGone now) v')
    (errHolds : ∀ e now v', Noted id v v' (st.markGone now) → err e v') :
    (Store.reconcile st).wp (rules id faults) v ok err := by
  unfold Store.reconcile
  split
  · exact unchanged v (.refl v)
  · rename_i live
    rw [Fallible.wp_bind]
    refine wp_initIsAlive st ?_
    intro alive v' same gone
    cases alive with
    | true =>
        exact unchanged v' same
    | false =>
        simp only [Bool.false_eq_true, ↓reduceIte]
        rw [Fallible.wp_bind]
        refine wp_nowMs host_neutral ?_
        intro now
        rw [Fallible.wp_bind]
        refine wp_save .reconcile (by decide) (by decide)
          (ContainerState.markGone_id st now) (same.holds holds) ?_ ?_ ?_
        · intro _
          exact ⟨by simpa using live, gone rfl, now, rfl⟩
        · intro v'' noted
          exact corrected now v'' (noted.of_same same)
        · intro e v'' noted
          exact errHolds e now v'' (noted.of_same same)

/-- A reconciled record is held. -/
private theorem wp_loadReconciled
    (i : String)
    {ok : ContainerState → View → Prop}
    {err : Error → View → Prop}
    (okHolds : ∀ st v', st.id = i → Kept v v' → Holds id v' st → ok st v')
    (errHolds : ∀ e v', Kept v v' → err e v') :
    (Store.loadReconciled i).wp (rules id faults) v ok err := by
  rw [Store.loadReconciled, Fallible.wp_bind]
  refine wp_load i ?_ fun e => errHolds e v ⟨.refl v, rfl⟩
  intro st v' here noted
  rw [Fallible.wp_bind]
  refine wp_reconcile noted.holds ?_ ?_ ?_
  · intro v'' same
    exact okHolds st v'' here (noted.toKept.trans same.toKept)
      (same.holds noted.holds)
  · intro now v'' noted'
    exact okHolds _ v'' (by simpa using here)
      (noted.toKept.trans noted'.toKept) noted'.holds
  · intro e now v'' noted'
    exact errHolds e v'' (noted.toKept.trans noted'.toKept)

/-- The view in a block with a lock. -/
def locked (id : String) (v : View) (file : LockFile) : View :=
  if file.id = id then { v with lock := some file } else v

/-- Taking a lock is growth. -/
private theorem locked_grown (v : View) (file : LockFile) :
    Grown v (locked id v file) := by
  unfold locked
  split
  · exact ⟨rfl, rfl, rfl, rfl, rfl, rfl, List.suffix_rfl, List.Subset.refl _,
      List.Subset.refl _⟩
  · exact .refl v

/-- Taking a lock shows no record. -/
private theorem locked_seen (v : View) (file : LockFile) :
    (locked id v file).seen = v.seen := by
  unfold locked
  split
  · rfl
  · rfl

/-- A block with a lock; a shim it forked has been heard of when it ends. -/
theorem wp_withLock
    {i : String}
    {body : Act α}
    {ok : α → View → Prop}
    {err : Error → View → Prop}
    (fresh : i = id → (∃ rounds, v.command = .start id rounds) → v.seen = [])
    (lockFails : ∀ e, err e v)
    (holds : ∀ file, file.id = i →
      body.wp (rules id faults) (locked id v file)
        (fun value v' => (i = id → v'.pending = none) ∧
          ∀ v'', Grown v' v'' → v''.seen = v'.seen → ok value v'')
        (fun e v' => (i = id → v'.pending = none) ∧
          ∀ v'', Grown v' v'' → v''.seen = v'.seen → err e v'')) :
    (Store.withLock i body).wp (rules id faults) v ok err := by
  have released : ∀ (file : LockFile) (v' : View),
      Grown v' (View.after id v' (.funlock file) ()) ∧
        (View.after id v' (.funlock file) ()).seen = v'.seen := by
    intro file v'
    simp only [View.after]
    split
    · exact ⟨⟨rfl, rfl, rfl, rfl, rfl, rfl, List.suffix_rfl,
        List.Subset.refl _, List.Subset.refl _⟩, rfl⟩
    · exact ⟨.refl v', rfl⟩
  rw [Store.withLock, Fallible.wp_bind, Store.lock, Fallible.wp_bind]
  refine ⟨trivial, ?_⟩
  intro opened possible
  cases opened with
  | error e =>
      exact lockFails e
  | ok file =>
      have here : file.id = i := possible file rfl
      rw [Prog.wp_ret, Fallible.onResult_ok, Fallible.wp_bind]
      refine ⟨fun same isStart => fresh (here.symm.trans same) isStart, ?_⟩
      intro flocked _
      cases flocked with
      | error e =>
          exact lockFails e
      | ok u =>
          rw [Prog.wp_ret, Fallible.onResult_ok, Fallible.wp_pure,
            Fallible.wp_bind, Fallible.wp_attempt]
          refine Fallible.wp_consequence ?_ ?_ (holds file here)
          · intro value v' ⟨settled, after⟩
            rw [Fallible.wp_bind]
            refine ⟨fun same => settled (here.symm.trans same), ?_⟩
            intro _ _
            exact after _ (released file v').1 (released file v').2
          · intro e v' ⟨settled, after⟩
            rw [Fallible.wp_bind]
            refine ⟨fun same => settled (here.symm.trans same), ?_⟩
            intro _ _
            exact after _ (released file v').1 (released file v').2

/-! ## The end of a container -/

/-- A process that was waited for is noted. -/
private theorem wp_waitPid
    (pid : Pid)
    (nohang : Bool)
    {ok : Option ExitStatus → View → Prop}
    {err : Error → View → Prop}
    (okHolds : ∀ status v', Same v v' → (nohang = false → pid ∈ v'.waited) →
      ok status v')
    (errHolds : ∀ e v', Same v v' → (nohang = false → pid ∈ v'.waited) →
      err e v') :
    (waitPid pid nohang).wp (rules id faults) v ok err := by
  have same : Same v (if nohang then v else { v with waited := pid :: v.waited }) := by
    split
    · exact .refl v
    · exact ⟨⟨⟨rfl, rfl, rfl, rfl, rfl, rfl, List.suffix_rfl,
        List.Subset.refl _, List.subset_cons_self _ _⟩, rfl⟩, rfl⟩
  have waited : nohang = false →
      pid ∈ (if nohang then v else { v with waited := pid :: v.waited }).waited := by
    rintro rfl
    exact List.mem_cons_self
  refine ⟨trivial, ?_⟩
  intro answer _
  cases answer with
  | ok status =>
      exact okHolds status _ same waited
  | error e =>
      exact errHolds e _ same waited

/-- `kill_init` shows no record. -/
private theorem wp_killInit
    (st : ContainerState)
    {ok : Unit → View → Prop}
    {err : Error → View → Prop}
    (holds : ∀ v', Same v v' → ok () v') :
    (Supervisor.killInit st).wp (rules id faults) v ok err := by
  unfold Supervisor.killInit
  split
  · exact holds v (.refl v)
  · rw [Fallible.wp_bind]
    refine wp_initIsAlive st ?_
    intro alive v' same _
    cases alive with
    | false =>
        exact holds v' same
    | true =>
        simp only [↓reduceIte, Fallible.wp_bind]
        have reaped : ∀ v'', Same v' v'' → ok () v'' :=
          fun v'' later => holds v'' (same.trans later)
        refine wp_attempt_of_neutral host_neutral ?_
        intro _
        rw [Fallible.wp_attempt]
        exact wp_waitPid _ _ (fun _ v'' later _ => reaped v'' later)
          (fun _ v'' later _ => reaped v'' later)

/-- An init that was outlived stays so. -/
private theorem Grown.outlived
    {v' : View}
    (grown : Grown v v')
    (outlived : v.Outlived) :
    v'.Outlived := by
  obtain ⟨newer, st, older, seen, gone, live⟩ := outlived
  obtain ⟨newest, grows⟩ := grown.older
  refine ⟨newest ++ newer, st, older, ?_, grown.gone gone, live⟩
  rw [← grows, seen, List.append_assoc]

/-- What excuses a stop excuses it later. -/
private theorem Grown.excused
    {v' : View}
    {st : ContainerState}
    (grown : Grown v v')
    (excused : v.Gone st ∨ v.Forced ∨ v.Outlived) :
    v'.Gone st ∨ v'.Forced ∨ v'.Outlived := by
  rcases excused with gone | forced | outlived
  · exact .inl (grown.gone gone)
  · refine .inr (.inl ?_)
    rw [View.Forced, grown.command]
    exact forced
  · exact .inr (.inr (grown.outlived outlived))

/-- The record after a teardown. -/
structure TornDown (st st' : ContainerState) : Prop where
  sameLaunch : st.SameLaunch st'
  status : st'.status =
    if st.status.isLive then .stopped else st.status

/-- The record after a teardown is torn down. -/
theorem tornDown_markTornDown
    (st : ContainerState)
    (oom : Bool)
    (now : UInt64) :
    TornDown st
      ((if oom then { st with oomKilled := true } else st).markTornDown now) := by
  have noted : st.SameLaunch (if oom then { st with oomKilled := true } else st) := by
    cases oom with
    | false =>
        exact .refl st
    | true =>
        exact ⟨rfl, rfl, rfl, rfl, rfl⟩
  refine ⟨noted.trans (.markTornDown _ now), ?_⟩
  have status : (if oom then { st with oomKilled := true } else st).status =
      st.status := by
    cases oom <;> rfl
  unfold ContainerState.markTornDown
  rw [status]
  split
  · simp
  · exact status

/-- The record that `teardown` saves is excused and held. -/
private theorem wp_teardown
    {st : ContainerState}
    (holds : Holds id v st)
    (excused : st.id = id → st.status.isLive →
      v.Gone st ∨ v.Forced ∨ v.Outlived)
    {ok : ContainerState → View → Prop}
    {err : Error → View → Prop}
    (okHolds : ∀ st' v', TornDown st st' → Noted id v v' st' → ok st' v')
    (errHolds : ∀ e v', Same v v' → err e v') :
    (Supervisor.teardown st).wp (rules id faults) v ok err := by
  rw [Supervisor.teardown, Fallible.wp_bind]
  refine wp_attempt_of_neutral host_neutral ?_
  intro _
  rw [Fallible.wp_bind]
  refine wp_killInit st ?_
  intro v' same
  have failed : ∀ e, err e v' := fun e => errHolds e v' same
  rw [Fallible.wp_bind]
  refine wp_host_of_neutral host_neutral ?_ failed
  intro oom
  rw [Fallible.wp_bind]
  refine wp_host_of_neutral host_neutral ?_ failed
  intro _
  rw [Fallible.wp_bind]
  refine wp_host_of_neutral host_neutral ?_ failed
  intro now
  have torn := tornDown_markTornDown st oom now
  rw [Fallible.wp_bind, Fallible.wp_attempt]
  refine wp_save .teardown (by decide) (by decide) torn.sameLaunch.id.symm
    (same.holds holds) ?_ ?_ ?_
  · intro here
    refine ⟨⟨oom, now, rfl⟩, ?_⟩
    intro live
    exact same.toGrown.excused
      (excused (torn.sameLaunch.id.trans here) live)
  · intro v'' noted
    exact okHolds _ v'' torn (noted.of_same same)
  · intro e v'' noted
    exact okHolds _ v'' torn (noted.of_same same)

/-! ## Launching -/

/-- Undoing a process waits for it. -/
private theorem wp_undo
    (u : Undo)
    {ok : Unit → View → Prop}
    {err : Error → View → Prop}
    (okHolds : ∀ v', Same v v' → (∀ pid, u = .process pid → pid ∈ v'.waited) →
      ok () v')
    (errHolds : ∀ e v', Same v v' →
      (∀ pid, u = .process pid → pid ∈ v'.waited) → err e v') :
    u.run.wp (rules id faults) v ok err := by
  cases u with
  | process pid =>
      rw [Undo.run, Fallible.wp_bind]
      refine wp_attempt_of_neutral host_neutral ?_
      intro _
      rw [Fallible.wp_bind, Fallible.wp_attempt]
      have reaped : ∀ v', Same v v' → pid ∈ v'.waited → ok () v' := by
        intro v' same waited
        refine okHolds v' same ?_
        rintro _ ⟨rfl⟩
        exact waited
      exact wp_waitPid pid false
        (fun _ v' same waited => reaped v' same (waited rfl))
        (fun _ v' same waited => reaped v' same (waited rfl))
  | cgroup path =>
      rw [Undo.run, Fallible.wp_bind]
      refine wp_host_of_neutral host_neutral ?_
        fun e => errHolds e v (.refl v) (by simp)
      intro cg
      exact wp_host_of_neutral host_neutral
        (fun _ => okHolds v (.refl v) (by simp))
        fun e => errHolds e v (.refl v) (by simp)
  | rules i =>
      rw [Undo.run, Fallible.wp_bind]
      exact wp_host_of_neutral host_neutral
        (fun _ => okHolds v (.refl v) (by simp))
        fun e => errHolds e v (.refl v) (by simp)
  | _ =>
      exact wp_host_of_neutral host_neutral
        (fun _ => okHolds v (.refl v) (by simp))
        fun e => errHolds e v (.refl v) (by simp)

/-- Unwinding waits for every process it has to undo. -/
theorem wp_unwind
    (undo : List Undo)
    {ok : Unit → View → Prop}
    {err : Error → View → Prop}
    (holds : ∀ v', Same v v' →
      (∀ pid, .process pid ∈ undo → pid ∈ v'.waited) → ok () v') :
    (Undo.unwind undo).wp (rules id faults) v ok err := by
  induction undo generalizing v with
  | nil =>
      exact holds v (.refl v) (by simp)
  | cons u rest inductionHypothesis =>
      have next : ∀ v', Same v v' →
          (∀ pid, u = .process pid → pid ∈ v'.waited) →
          (Undo.unwind rest).wp (rules id faults) v' ok err := by
        intro v' same waited
        refine inductionHypothesis ?_
        intro v'' later restWaited
        refine holds v'' (same.trans later) ?_
        intro pid member
        rcases List.mem_cons.mp member with here | there
        · exact later.waited (waited pid here.symm)
        · exact restWaited pid there
      rw [Undo.unwind, Fallible.wp_bind, Fallible.wp_attempt]
      exact wp_undo u next fun _ => next

/-- What is known after a launch that succeeded. -/
structure LaunchOk (id : String) (v v' : View) (st st' : ContainerState)
    (running : Running) : Prop where
  here : st'.id = st.id
  status : st'.status = .running
  initPid : st'.initPid = running.pid
  holds : Holds id v' st'
  command : v'.command = v.command
  outcome : st.id = id → v'.launched ∧ v'.recorded

/-- What is known after a launch that failed after its status check. -/
structure LaunchFailed (id : String) (faults : Prop) (v v' : View)
    (st st' : ContainerState) : Prop where
  here : st'.id = st.id
  command : v'.command = v.command
  outcome : st.id = id → v'.launched ∧
    (∃ old rest, v'.seen = old :: rest ∧ old.status ≠ .stopped) ∧
    (faults ∨ ∀ pid, v'.cloned = some pid → pid ∈ v'.waited)

/-- What is known when the body of a launch fails. -/
structure LaunchBroken (id : String) (faults : Prop) (v v' : View)
    (st : ContainerState) (s : Launching) : Prop where
  here : s.st.id = st.id
  command : v'.command = v.command
  outcome : st.id = id → v'.launched ∧
    (∃ old rest, v'.seen = old :: rest ∧ old.status ≠ .stopped) ∧
    (faults ∨ ∀ pid, v'.cloned = some pid → .process pid ∈ s.undo)

/-- Creating the cgroup keeps the id and the status. -/
private theorem wp_createCgroup [F64Ops]
    (i : String)
    (res : Resources)
    {s : Launching}
    {ok : Option Cgroup → Launching → View → Prop}
    {err : Error → Launching → View → Prop}
    (okHolds : ∀ cg s', s'.st.id = s.st.id → s'.st.status = s.st.status →
      ok cg s' v)
    (errHolds : ∀ e, err e s v) :
    (Supervisor.createCgroup i res).wp (rules id faults) s v ok err := by
  rw [Supervisor.createCgroup, Staged.wp_bind]
  refine wp_task_host_of_neutral host_neutral ?_ errHolds
  intro result
  cases result with
  | ok cg =>
      exact okHolds _ _ rfl rfl
  | error e =>
      simp only
      split
      · exact okHolds none s rfl rfl
      · exact errHolds e

/-- A start time was read in a `stat` file, or is zero. -/
private theorem wp_readStartTime
    (pid : Pid)
    {ok : UInt64 → View → Prop}
    {err : Error → View → Prop}
    (holds : ∀ start v', Same v v' →
      (start = 0 ∨ ∃ stat, (pid, .ok stat) ∈ v'.stats ∧
        start = stat.startTime) → ok start v') :
    (Supervisor.readStartTime pid).wp (rules id faults) v ok err := by
  have same : ∀ answer, Same v { v with stats := (pid, answer) :: v.stats } :=
    fun answer => ⟨⟨⟨rfl, rfl, rfl, rfl, rfl, rfl, List.suffix_rfl,
      List.subset_cons_self _ _, List.Subset.refl _⟩, rfl⟩, rfl⟩
  rw [Supervisor.readStartTime, Fallible.wp_bind, Fallible.wp_attempt]
  refine ⟨trivial, ?_⟩
  intro answer _
  cases answer with
  | ok stat =>
      exact holds _ _ (same _) (.inr ⟨stat, List.mem_cons_self, rfl⟩)
  | error e =>
      exact holds 0 _ (same _) (.inl rfl)

/-- A fault point fails only where faults are on. -/
private theorem wp_fault
    (point : String)
    {s : Launching}
    {ok : Unit → Launching → View → Prop}
    {err : Error → Launching → View → Prop}
    (okHolds : ok () s v)
    (errHolds : faults → ∀ e, err e s v) :
    (liftM (Fault.check point) : Task Unit).wp (rules id faults) s v ok err := by
  refine ⟨trivial, ?_⟩
  intro answer possible
  cases answer with
  | ok u =>
      exact okHolds
  | error e =>
      rcases possible with fine | fired
      · simp at fine
      · exact errHolds fired e

/-- The process holds a record of a created container. -/
def HoldsCreated (v : View) : Prop :=
  ∃ old rest, v.seen = old :: rest ∧ old.status = .created

/-- The view of a launch after it cloned init. -/
structure Cloned (id : String) (v v' : View) (st : ContainerState) (pid : Pid) :
    Prop where
  command : v'.command = v.command
  outcome : st.id = id → v'.launched ∧ v'.cloned = some pid ∧ HoldsCreated v'

/-- A noted record in status created is held as such. -/
private theorem Noted.holdsCreated
    {v' : View}
    {st : ContainerState}
    (noted : Noted id v v' st)
    (here : st.id = id)
    (created : st.status = .created) :
    HoldsCreated v' :=
  ⟨st, v.seen, noted.seen_eq here, created⟩

/-- After `clone` the process is the container's init. -/
private theorem cloned_after
    {st : ContainerState}
    (ready : st.id = id → v.launched ∧ v.cloned = none ∧ HoldsCreated v)
    (placed : Option String)
    (pid : Pid) :
    Cloned id v (View.after id v (.cloneInit st.id placed) (.ok pid)) st pid := by
  simp only [View.after]
  by_cases here : st.id = id
  · rw [if_pos here]
    exact ⟨rfl, fun same => ⟨(ready same).1, rfl, (ready same).2.2⟩⟩
  · rw [if_neg here]
    exact ⟨rfl, fun same => (here same).elim⟩

/-- It stays so while the view is the same. -/
private theorem Cloned.same
    {v' v'' : View}
    {st : ContainerState}
    {pid : Pid}
    (cloned : Cloned id v v' st pid)
    (same : Same v' v'') :
    Cloned id v v'' st pid := by
  refine ⟨same.command.trans cloned.command, ?_⟩
  intro here
  obtain ⟨launched, pidCloned, old, rest, seen, created⟩ := cloned.outcome here
  exact ⟨same.launched.trans launched, same.cloned.trans pidCloned, old, rest,
    same.seen.trans seen, created⟩

/-- After the clone, a launch fails with the clone on its rollback stack. -/
theorem Cloned.broken
    {v' : View}
    {st : ContainerState}
    {pid : Pid}
    (cloned : Cloned id v v' st pid)
    {s : Launching}
    (here : s.st.id = st.id)
    (undone : faults ∨ .process pid ∈ s.undo) :
    LaunchBroken id faults v v' st s := by
  refine ⟨here, cloned.command, ?_⟩
  intro same
  obtain ⟨launched, pidCloned, old, rest, seen, created⟩ := cloned.outcome same
  refine ⟨launched, ⟨old, rest, seen, by simp [created]⟩, ?_⟩
  rcases undone with fired | member
  · exact .inl fired
  · refine .inr ?_
    intro other otherCloned
    rw [pidCloned] at otherCloned
    obtain rfl : pid = other := by
      simpa using otherCloned
    exact member

/-- The save that publishes a launch, and the fault point after it. -/
theorem wp_publish
    (saved : ContainerState)
    {st : ContainerState}
    {pid : Pid}
    {v' : View}
    (cloned : Cloned id v v' st pid)
    (here : saved.id = st.id)
    (status : saved.status = .running)
    (initPid : saved.initPid = pid)
    (timed : v'.TimedBy saved)
    (s : Launching)
    (current : s.st = saved)
    (undone : .process pid ∈ s.undo)
    {cgroup : Option Cgroup}
    {ok : Running → Launching → View → Prop}
    {err : Error → Launching → View → Prop}
    (okHolds : ∀ v'', LaunchOk id v v'' st saved { pid, cgroup } →
      ok { pid, cgroup } s v'')
    (errHolds : ∀ e v'', LaunchBroken id faults v v'' st s → err e s v'') :
    (do
      Store.save .launch saved
      Fault.check "after_start"
      return { pid, cgroup } : Task Running).wp (rules id faults) s v' ok err := by
  have saves : saved.id = id →
      ∃ old rest, v'.seen = old :: rest ∧ v'.Saves faults old saved .launch := by
    intro same
    obtain ⟨launched, pidCloned, old, rest, seen, created⟩ :=
      cloned.outcome (here ▸ same)
    exact ⟨old, rest, seen, launched, created, status, initPid ▸ pidCloned, timed⟩
  have broken : ∀ answer, LaunchBroken id faults v
      (View.after id v' (.writeState .launch saved) answer) st s := by
    intro answer
    simp only [View.after]
    by_cases same : saved.id = id
    · rw [if_pos same]
      obtain ⟨launched, pidCloned, _⟩ := cloned.outcome (here ▸ same)
      refine ⟨by rw [current, here], ?_, fun _ => ⟨?_, ?_, .inr ?_⟩⟩
      · simpa [View.note, same] using cloned.command
      · simpa [View.note, same] using launched
      · exact ⟨saved, v'.seen, by simp [View.note, same], by simp [status]⟩
      · intro other otherCloned
        have isPid : pid = other := by
          simpa [View.note, same, pidCloned] using otherCloned
        exact isPid ▸ undone
    · rw [if_neg same]
      exact cloned.broken (by rw [current, here]) (.inr undone)
  rw [Staged.wp_bind, Staged.wp_liftM]
  refine ⟨saves, ?_⟩
  intro answer _
  cases answer with
  | error e =>
      exact errHolds e _ (broken (.error e))
  | ok u =>
      rw [Prog.wp_ret, Fallible.onResult_ok, Staged.wp_bind]
      refine wp_fault "after_start" ?_ fun _ e => errHolds e _ (broken (.ok ()))
      refine okHolds _ ⟨here, status, initPid, ?_, (broken (.ok ())).command, ?_⟩
      · intro same
        refine ⟨v'.seen, ?_⟩
        change (View.after id v' (.writeState .launch saved) (.ok ())).seen = _
        simp [View.after, View.note, same]
      · intro same
        refine ⟨((broken (.ok ())).outcome same).1, ?_⟩
        change (View.after id v' (.writeState .launch saved) (.ok ())).recorded = _
        simp [View.after, SavePoint.recordsLaunch, here, same]

/-- What is known of a launch at its end or at the step that fails. -/
private theorem wp_launchBody [F64Ops]
    {s : Launching}
    (ready : s.st.id = id → v.launched ∧ v.cloned = none ∧
      HoldsCreated v)
    {ok : Running → Launching → View → Prop}
    {err : Error → Launching → View → Prop}
    (okHolds : ∀ running s' v', LaunchOk id v v' s.st s'.st running →
      ok running s' v')
    (errHolds : ∀ e s' v', LaunchBroken id faults v v' s.st s' →
      err e s' v') :
    (Supervisor.launchBody).wp (rules id faults) s v ok err := by
  simp only [Supervisor.launchBody, Staged.wp_bind, Staged.wp_get]
  have early : ∀ e s', s'.st.id = s.st.id → err e s' v := by
    intro e s' here
    refine errHolds e s' v ⟨here, rfl, ?_⟩
    intro same
    obtain ⟨launched, notCloned, old, rest, seen, oldCreated⟩ := ready same
    refine ⟨launched, ⟨old, rest, seen, by simp [oldCreated]⟩, .inr ?_⟩
    intro pid cloned
    rw [notCloned] at cloned
    simp at cloned
  refine wp_createCgroup _ _ ?_ fun e => early e s rfl
  intro cgroup s1 here1 status1
  have failed1 : ∀ e, err e s1 v := fun e => early e s1 here1
  refine wp_task_host_of_neutral host_neutral ?_ failed1
  intro _
  refine wp_task_host_of_neutral host_neutral ?_ failed1
  intro _
  refine wp_task_host_of_neutral host_neutral ?_ failed1
  intro _
  refine wp_task_host_of_neutral host_neutral ?_ failed1
  intro placed
  refine wp_task_host_of_neutral host_neutral ?_ failed1
  intro _
  rw [Staged.wp_liftM]
  refine ⟨fun same => ⟨(ready same).1, (ready same).2.1⟩, ?_⟩
  intro answer _
  cases answer with
  | error e =>
      exact failed1 e
  | ok pid =>
      have cloned := cloned_after ready placed pid
      refine wp_fault "after_clone" ?_ ?_
      case refine_2 =>
        intro fired e
        exact errHolds e s1 _ (cloned.broken here1 (.inl fired))
      -- from here on a failure finds the clone on the rollback stack
      have late : ∀ e s' v', Cloned id v v' s.st pid → s'.st.id = s.st.id →
          .process pid ∈ s'.undo → err e s' v' :=
        fun e s' v' cloned' here' member =>
          errHolds e s' v' (cloned'.broken here' (.inr member))
      simp only [wp_pushUndo]
      refine wp_task_host_of_neutral host_neutral ?_
        fun e => late e _ _ cloned here1 List.mem_cons_self
      intro _
      simp only [wp_setState]
      rw [Staged.wp_liftM]
      refine wp_readStartTime pid ?_
      intro startTime v' same timed
      have cloned' := cloned.same same
      have failed2 : ∀ e undo, (.process pid :: s1.undo) <:+ undo →
          ∀ st', st'.id = s.st.id → err e { st := st', undo } v' :=
        fun e undo older st' here' => late e _ _ cloned' here'
          (older.subset List.mem_cons_self)
      rw [Staged.wp_liftM]
      refine wp_expectFrame_of_neutral channel_neutral pid .ready ?_
        fun e => failed2 e _ List.suffix_rfl _ here1
      refine wp_hostTask_of_neutral host_neutral (Grows.setupHost _ _) ?_
        fun e undo older => failed2 e undo older _ here1
      intro net undo older
      have older' : (.process pid :: s1.undo) <:+ .network s.st.id net :: undo :=
        older.trans (List.suffix_cons _ _)
      rw [Staged.wp_liftM]
      refine wp_writeNetstate_of_neutral channel_neutral _ net ?_
        fun e => failed2 e _ older' _ here1
      rw [Staged.wp_liftM]
      refine wp_sendGo_of_neutral channel_neutral pid ?_
        fun e => failed2 e _ older' _ here1
      rw [Staged.wp_liftM]
      refine wp_expectFrame_of_neutral channel_neutral pid .started ?_
        fun e => failed2 e _ older' _ here1
      refine (Staged.wp_liftM (liftM (transitionNow _ .running) : Act _) _ _).mpr ?_
      refine wp_transitionNow host_neutral ?_
        fun e => failed2 e _ older' _ here1
      intro st' now moved
      have kept := ContainerState.SameLaunch.transition moved
      have status' : st'.status = .running :=
        ContainerState.transition_status moved
      have here' : st'.id = s.st.id := kept.id.symm.trans here1
      have initPid' : st'.initPid = pid := kept.initPid.symm
      have start' : st'.initStartTime = startTime := kept.initStartTime.symm
      have timed' : v'.TimedBy { st' with error := none } := by
        rcases timed with zero | ⟨stat, read, same'⟩
        · exact .inl (start'.trans zero)
        · exact .inr ⟨stat, initPid' ▸ read, start'.trans same'⟩
      have published : Staged.wp (rules id faults)
          (do
            Store.save .launch { st' with error := none }
            Fault.check "after_start"
            return { pid, cgroup } : Task Running)
          { st := { st' with error := none }
            undo := .network s.st.id net :: undo } v' ok err :=
        wp_publish { st' with error := none } cloned' here' status'
          initPid' timed'
          { st := { st' with error := none }
            undo := .network s.st.id net :: undo } rfl
          (older'.subset List.mem_cons_self)
          (fun v'' launched => okHolds _ _ v'' launched)
          (fun e v'' broken => errHolds e _ v'' broken)
      simpa only [Staged.wp_bind] using published

/-- What is known of it after the rollback. -/
private theorem wp_settle
    {result : Result Running}
    {s : Launching}
    {v' : View}
    {st : ContainerState}
    {Q : Result Running × ContainerState → View → Prop}
    (okHolds : ∀ running, result = .ok running → Q (.ok running, s.st) v')
    (broken : ∀ e, result = .error e → LaunchBroken id faults v v' st s)
    (failed : ∀ e st' v'', LaunchFailed id faults v v'' st st' →
      Q (.error e, st') v'') :
    (Supervisor.settle result s).wp (rules id faults) v' Q := by
  cases result with
  | ok running =>
      exact okHolds running rfl
  | error e =>
      have wasBroken := broken e rfl
      simp only [Supervisor.settle, Prog.wp_bind]
      have unwound : (Undo.unwind s.undo).wp (rules id faults) v'
          (fun _ v'' => Q (.error e, s.st) v'')
          (fun _ v'' => Q (.error e, s.st) v'') := by
        refine wp_unwind s.undo ?_
        intro v'' same waited
        refine failed e s.st v''
          ⟨wasBroken.here, same.command.trans wasBroken.command, ?_⟩
        intro here
        obtain ⟨launched, ⟨old, rest, seen, notStopped⟩, undone⟩ :=
          wasBroken.outcome here
        refine ⟨same.launched.trans launched,
          ⟨old, rest, same.seen.trans seen, notStopped⟩, ?_⟩
        rcases undone with fired | onStack
        · exact .inl fired
        · refine .inr ?_
          intro pid cloned
          exact waited pid (onStack pid (same.cloned ▸ cloned))
      refine Prog.wp_mono ?_ unwound
      intro outcome v'' holds
      cases outcome with
      | ok u =>
          exact holds
      | error e' =>
          exact holds

/-- `launch` refuses, succeeds, or fails with everything undone. -/
private theorem wp_launch [F64Ops]
    {st : ContainerState}
    (holds : st.id = id → st.status = .created → HoldsCreated v)
    (ready : st.id = id →
      v.Launches id ∧ v.launched = false ∧ v.cloned = none)
    {Q : Result Running × ContainerState → View → Prop}
    (refused : st.status ≠ .created →
      Q (.error (Supervisor.notCreated st), st) v)
    (launched : ∀ running st' v', LaunchOk id v v' st st' running →
      Q (.ok running, st') v')
    (failed : ∀ e st' v', LaunchFailed id faults v v' st st' →
      Q (.error e, st') v') :
    (Supervisor.launch st).wp (rules id faults) v Q := by
  unfold Supervisor.launch
  split
  · rename_i notCreated
    exact refused notCreated
  · rename_i created
    have created : st.status = .created := not_not.mp created
    rw [Prog.wp_bind]
    refine ⟨?_, ?_⟩
    · intro here
      exact ⟨(ready here).1, (ready here).2.1, holds here created⟩
    · intro _ _
      have command : (View.after id v (.launching st.id) ()).command =
          v.command := by
        simp only [View.after]
        split <;> rfl
      have inside : st.id = id →
          (View.after id v (.launching st.id) ()).launched ∧
          (View.after id v (.launching st.id) ()).cloned = none ∧
          HoldsCreated (View.after id v (.launching st.id) ()) := by
        intro here
        simp only [View.after, here, ↓reduceIte, true_and]
        exact ⟨(ready here).2.2, holds here created⟩
      rw [Prog.wp_ret, Prog.wp_bind]
      have body : Supervisor.launchBody.wp (rules id faults) { st, undo := [] }
          (View.after id v (.launching st.id) ())
          (fun running s v' =>
            (Supervisor.settle (.ok running) s).wp (rules id faults) v' Q)
          (fun e s v' =>
            (Supervisor.settle (.error e) s).wp (rules id faults) v' Q) := by
        refine wp_launchBody inside ?_ ?_
        · intro running s v' isOk
          exact launched running s.st v'
            { isOk with command := isOk.command.trans command }
        · intro e s v' broken
          exact wp_settle (v := v) (by simp)
            (fun _ _ => { broken with command := broken.command.trans command })
            failed
      refine Prog.wp_mono ?_ body
      rintro ⟨result, s⟩ v' settled
      cases result with
      | ok running =>
          exact settled
      | error e =>
          exact settled

/-! ## The shim -/

/-- A stopped record of a launch that was running. -/
theorem stopped_of_recordExit
    (st : ContainerState)
    (status : ExitStatus)
    (now : UInt64)
    (running : st.status = .running) :
    ∃ moved, (st.recordExit status now).transition .stopped now = .ok moved ∧
      moved.status = .stopped ∧ st.SameLaunch moved := by
  have stillRunning : (st.recordExit status now).status = .running := by
    simp [ContainerState.recordExit, running]
  have moves : (st.recordExit status now).transition .stopped now =
      .ok ((st.recordExit status now).enter .stopped now) := by
    simp [ContainerState.transition, stillRunning, Status.canTransitionTo]
  refine ⟨_, moves, by simp, ?_⟩
  exact (ContainerState.SameLaunch.recordExit st status now).trans (.enter _ _ _)

/-- The shim records the end of the process that it launched. -/
private theorem wp_waitForExit
    {rounds : Nat}
    {st : ContainerState}
    {running : Running}
    (holds : Holds id v st)
    (status : st.status = .running)
    (initPid : st.initPid = running.pid)
    (ready : st.id = id → v.launched ∧ v.recorded)
    {ok : ExitStatus × ContainerState → View → Prop}
    {err : Error → View → Prop}
    (okHolds : ∀ exit st' v', st.SameLaunch st' → st'.status = .stopped →
      Noted id v v' st' → ok (exit, st') v')
    (errHolds : ∀ e v', Kept v v' → err e v') :
    (Supervisor.waitForExit rounds st running).wp (rules id faults) v ok err := by
  rw [Supervisor.waitForExit, Fallible.wp_bind]
  refine wp_recvLoop_of_neutral channel_neutral spin_neutral _ _ _ _ ?_
  intro error fromInit
  rw [Fallible.wp_bind]
  refine wp_waitPid _ _ ?_ fun e v' same _ => errHolds e v' same.toKept
  intro waited v1 same waitedFor
  rw [Fallible.wp_bind]
  refine wp_host_of_yields host_neutral (noteOom_yields _ _) ?_
    fun e => errHolds e v1 same.toKept
  rintro _ ⟨oom, rfl⟩
  rw [Fallible.wp_bind]
  refine wp_host_of_neutral host_neutral ?_ fun e => errHolds e v1 same.toKept
  intro now
  have noted : st.SameLaunch { st with error := error, oomKilled := oom } :=
    ⟨rfl, rfl, rfl, rfl, rfl⟩
  obtain ⟨moved, moves, stopped, sameMoved⟩ := stopped_of_recordExit
    { st with error := error, oomKilled := oom }
    ((fromInit.or waited).getD { code := some (-1), signal := none }) now status
  have sameLaunch := noted.trans sameMoved
  simp only [moves]
  rw [Fallible.wp_bind]
  refine wp_save .waitForExit (by decide) (by decide) sameLaunch.id.symm
    (same.holds holds) ?_ ?_ ?_
  · intro here
    obtain ⟨launched, recorded⟩ := ready (sameLaunch.id.trans here)
    refine ⟨same.launched.trans launched, same.recorded.trans recorded, status,
      stopped, sameLaunch, ?_⟩
    rw [← sameLaunch.initPid, initPid]
    exact waitedFor rfl
  · intro v'' noted
    exact okHolds _ _ v'' sameLaunch stopped (noted.of_same same)
  · intro e v'' noted
    exact errHolds e v'' (same.toKept.trans noted.toKept)

/-- A record is removed where the command may discard or delete it. -/
private theorem wp_remove
    (i : String)
    (mayRemove : i = id → v.Discards ∨ v.Deletes id)
    {ok : Unit → View → Prop}
    {err : Error → View → Prop}
    (okHolds : ok () v)
    (errHolds : ∀ e, err e v) :
    (Store.remove i).wp (rules id faults) v ok err := by
  rw [Store.remove, Fallible.wp_bind]
  refine ⟨mayRemove, ?_⟩
  intro answer _
  cases answer with
  | removed =>
      exact okHolds
  | failed stateGone e =>
      exact errHolds e

/-- The clean-up of a shim keeps the rules. -/
private theorem wp_cleanUp
    {exit : ExitStatus}
    {st : ContainerState}
    (holds : Holds id v st)
    (status : st.status = .stopped)
    (launched : st.id = id → v.launched)
    {ok : Int32 → View → Prop}
    {err : Error → View → Prop}
    (okHolds : ∀ code v', Kept v v' → ok code v')
    (errHolds : ∀ e v', Kept v v' → err e v') :
    (Shim.cleanUp exit st).wp (rules id faults) v ok err := by
  rw [Shim.cleanUp, Fallible.wp_bind]
  refine wp_teardown holds ?_ ?_ fun e v' same => errHolds e v' same.toKept
  · intro _ live
    simp [status, Status.isLive] at live
  · intro st' v' torn noted
    split
    · rename_i autoRemove
      rw [Fallible.wp_bind, Fallible.wp_attempt]
      refine wp_remove _ ?_ (okHolds _ v' noted.toKept)
        fun _ => okHolds _ v' noted.toKept
      intro here
      refine .inl ⟨noted.launched.trans
        (launched (torn.sameLaunch.id.trans here)), st', v.seen,
        noted.seen_eq here, fun _ => autoRemove⟩
    · exact okHolds _ v' noted.toKept

/-- The part of a shim after its launch keeps the rules. -/
private theorem wp_supervise
    {rounds : Nat}
    {st : ContainerState}
    {running : Running}
    (holds : Holds id v st)
    (status : st.status = .running)
    (initPid : st.initPid = running.pid)
    (ready : st.id = id → v.launched ∧ v.recorded)
    {ok : Int32 → View → Prop}
    {err : Error → View → Prop}
    (okHolds : ∀ code v', Kept v v' → ok code v')
    (errHolds : ∀ e v', Kept v v' → err e v')
    (isShim : ∀ rounds', v.command = .shim id rounds' → st.id = id) :
    (Shim.supervise rounds st running).wp (rules id faults) v ok err := by
  rw [Shim.supervise, Fallible.wp_bind, Fallible.wp_liftM]
  refine ⟨trivial, ?_⟩
  intro own _
  rw [Prog.wp_ret, Fallible.wp_bind]
  refine wp_save .shim (by decide) (by decide) ?_ holds ?_ ?_
    fun e v' noted => errHolds e v' noted.toKept
  · rfl
  · intro here
    exact ⟨(ready here).1, (ready here).2, status, own, rfl⟩
  intro v1 noted
  have ready1 : st.id = id → v1.launched ∧ v1.recorded :=
    fun here => ⟨noted.launched.trans (ready here).1,
      noted.recorded.trans (ready here).2⟩
  rw [Fallible.wp_bind, Fallible.wp_liftM]
  refine ⟨?_, ?_⟩
  · rintro ⟨rounds', command⟩
    have here := isShim rounds' (noted.command ▸ command)
    exact ⟨fun _ => (ready1 here).2, fun _ => (ready1 here).2⟩
  intro _ _
  rw [Prog.wp_ret, Fallible.wp_bind]
  refine wp_waitForExit noted.holds status initPid ready1 ?_ ?_
  · intro exit st' v2 same stopped noted'
    refine wp_cleanUp noted'.holds stopped ?_ ?_ ?_
    · intro here
      exact noted'.launched.trans (ready1 (same.id.trans here)).1
    · intro code v3 kept
      exact okHolds code v3 ((noted.toKept.trans noted'.toKept).trans kept)
    · intro e v3 kept
      exact errHolds e v3 ((noted.toKept.trans noted'.toKept).trans kept)
  · intro e v2 kept
    exact errHolds e v2 (noted.toKept.trans kept)

/-- Recording a failed launch. -/
theorem wp_saveFailed
    {st failed : ContainerState}
    (same : failed.id = st.id)
    (saves : st.id = id →
      ∃ old rest, v.seen = old :: rest ∧ v.Saves faults old failed .launchFailed)
    {ok : Unit → View → Prop}
    {err : Error → View → Prop}
    (okHolds : ∀ v', v'.command = v.command → (st.id = id → v'.recorded) →
      ok () v')
    (errHolds : ∀ e v', v'.command = v.command → (st.id = id → v'.recorded) →
      err e v') :
    (Store.save .launchFailed failed).wp (rules id faults) v ok err := by
  have command : ∀ answer,
      (View.after id v (.writeState .launchFailed failed) answer).command =
        v.command := by
    intro answer
    simp only [View.after]
    split
    · exact (noted_note v failed).command
    · rfl
  have recorded : ∀ answer, st.id = id →
      (View.after id v (.writeState .launchFailed failed) answer).recorded := by
    intro answer here
    simp [View.after, same, here, SavePoint.recordsLaunch]
  refine ⟨fun here => saves (same ▸ here), ?_⟩
  intro answer _
  cases answer with
  | ok u =>
      exact okHolds _ (command _) (recorded _)
  | error e =>
      exact errHolds e _ (command _) (recorded _)

/-- The record of a launch that was refused or failed. -/
theorem wp_shimFails
    {st : ContainerState}
    {e : Error}
    (saves : st.id = id → ∃ old rest, v.seen = old :: rest ∧
      ∀ now, v.Saves faults old (Shim.failedState st e now) .launchFailed)
    {ok : Int32 → View → Prop}
    {err : Error → View → Prop}
    (errHolds : ∀ e v', v'.command = v.command → (st.id = id → v'.recorded) →
      err e v') :
    (do
      let now ← nowMs
      let _ ← (Store.save .launchFailed (Shim.failedState st e now)).attempt
      .ofExcept (.error e) : Act Int32).wp (rules id faults) v ok err := by
  rw [Fallible.wp_bind]
  refine wp_nowMs host_neutral ?_
  intro now
  rw [Fallible.wp_bind, Fallible.wp_attempt]
  refine wp_saveFailed rfl ?_ ?_ ?_
  · intro here
    obtain ⟨old, rest, seen, may⟩ := saves here
    exact ⟨old, rest, seen, may now⟩
  · intro v' same recorded
    exact errHolds e v' same recorded
  · intro _ v' same recorded
    exact errHolds e v' same recorded

/-- A whole shim keeps the rules. -/
private theorem wp_shimRun [F64Ops]
    {i : String}
    {rounds : Nat}
    (command : v.command = .shim i rounds)
    (launched : v.launched = false)
    (cloned : v.cloned = none)
    {ok : Int32 → View → Prop}
    {err : Error → View → Prop}
    (okHolds : ∀ code v', ok code v')
    (errHolds : ∀ e v', v'.command = v.command →
      (i = id → v'.launched → v'.recorded) → err e v') :
    (Shim.run i rounds).wp (rules id faults) v ok err := by
  have early : ∀ e v', Kept v v' → err e v' := by
    intro e v' kept
    refine errHolds e v' kept.command ?_
    intro _ wasLaunched
    simp [kept.launched, launched] at wasLaunched
  rw [Shim.run, Fallible.wp_bind]
  refine wp_host_of_neutral host_neutral ?_
    fun e => early e v (Same.refl v).toKept
  intro _
  rw [Fallible.wp_bind]
  refine wp_load i ?_ fun e => early e v (Same.refl v).toKept
  intro st v1 here noted
  rw [Fallible.wp_bind]
  refine wp_host_of_neutral host_neutral ?_ fun e => early e v1 noted.toKept
  intro _
  rw [Fallible.wp_bind, Fallible.wp_liftM]
  have recordedErr : ∀ e v', v'.command = v.command →
      (st.id = id → v'.recorded) → err e v' :=
    fun e v' same recorded => errHolds e v' same
      fun isId _ => recorded (here.trans isId)
  refine wp_launch noted.holdsCreated ?_ ?_ ?_ ?_
  · intro isHere
    refine ⟨⟨rounds, .inl ?_⟩, noted.launched.trans launched,
      noted.cloned.trans cloned⟩
    rw [noted.command, command, ← here, isHere]
  · intro notCreated
    refine wp_shimFails ?_ fun e v' same recorded =>
      recordedErr e v' (same.trans noted.command) recorded
    intro isHere
    obtain ⟨rest, seen⟩ := noted.holds isHere
    refine ⟨st, rest, seen, fun now => ⟨rfl, ?_⟩⟩
    rw [if_neg (by simp [noted.launched, launched])]
    exact ⟨notCreated, ⟨rfl, rfl, rfl, rfl, rfl⟩, rfl⟩
  · intro running st' v2 isOk
    have outcome : st'.id = id → v2.launched ∧ v2.recorded :=
      fun isHere => isOk.outcome (isOk.here.symm.trans isHere)
    refine wp_supervise isOk.holds isOk.status isOk.initPid outcome
      (fun code v' _ => okHolds code v') ?_ ?_
    · intro e v' kept
      refine recordedErr e v'
        ((kept.command.trans isOk.command).trans noted.command) ?_
      intro isHere
      exact kept.recorded.trans (isOk.outcome isHere).2
    · intro rounds' isShim
      rw [isOk.command, noted.command, command] at isShim
      obtain ⟨rfl, _⟩ : i = id ∧ rounds = rounds' := by
        simpa using isShim
      exact isOk.here.trans here
  · intro e st' v2 isFailed
    refine wp_shimFails ?_ fun e' v' same recorded =>
      recordedErr e' v' ((same.trans isFailed.command).trans noted.command)
        fun isHere => recorded (isFailed.here.trans isHere)
    intro isHere
    obtain ⟨wasLaunched, ⟨old, rest, seen, notStopped⟩, undone⟩ :=
      isFailed.outcome (isFailed.here.symm.trans isHere)
    refine ⟨old, rest, seen, fun now => ⟨rfl, ?_⟩⟩
    rw [if_pos wasLaunched]
    exact ⟨notStopped, undone⟩

/-- A shim follows the conduct from its first step. -/
private theorem follows_shim [F64Ops]
    {i : String}
    {rounds : Nat} :
    (conduct id faults).Follows { command := .shim i rounds }
      (Command.program (.shim i rounds)).run := by
  have main : (Shim.main i rounds).wp (rules id faults)
      { command := .shim i rounds } (fun _ _ => True) (fun _ _ => True) := by
    rw [Shim.main, Fallible.wp_bind, Fallible.wp_attempt]
    refine wp_shimRun rfl rfl rfl (fun _ _ => trivial) ?_
    intro e v' command recorded
    rw [Fallible.wp_lift]
    refine ⟨?_, fun _ _ => trivial⟩
    rintro ⟨rounds', isShim⟩
    rw [command] at isShim
    obtain ⟨rfl, _⟩ : i = id ∧ rounds = rounds' := by
      simpa using isShim
    exact ⟨recorded rfl, by simp⟩
  refine Prog.wp_mono ?_ main
  exact fun _ _ _ => trivial

/-! ## The commands -/

/-- A program that keeps to the rules whatever it returns. -/
abbrev Fine (id : String) (faults : Prop) (v : View) (p : Act α) : Prop :=
  p.wp (rules id faults) v (fun _ _ => True) (fun _ _ => True)

/-- An action that is fine follows the conduct. -/
private theorem follows_of_fine
    {p : Act Unit}
    (fine : Fine id faults v p) :
    (conduct id faults).Follows v p.run :=
  Prog.wp_mono (fun _ _ _ => trivial) fine

/-- Its value is of no concern. -/
private theorem Fine.done
    {p : Act α}
    (fine : Fine id faults v p) :
    Fine id faults v (Act.done p) := by
  rw [Fine, Act.done, Fallible.wp_bind]
  exact fine

/-- A shim is forked under the lock for a record in status created. -/
private theorem wp_spawn
    {i : String}
    {rounds : Nat}
    (ready : i = id → (∃ rounds, v.command = .start id rounds) ∧ v.lock.isSome ∧
      v.pending = none ∧ ∃ st rest, v.seen = st :: rest ∧ st.status = .created)
    (isStart : ∀ rounds', v.command = .start id rounds' → i = id)
    {ok : Pid → View → Prop}
    {err : Error → View → Prop}
    (okHolds : ∀ shim v', v'.pending = none → v'.heard → v'.seen = [] →
      ok shim v')
    (errHolds : ∀ e v', (i = id → v'.pending = none) → err e v') :
    (Shim.spawn i rounds).wp (rules id faults) v ok err := by
  rw [Shim.spawn, Fallible.wp_bind]
  refine wp_host_of_neutral host_neutral ?_
    fun e => errHolds e v fun here => (ready here).2.2.1
  intro _
  rw [Fallible.wp_bind, Fallible.wp_of]
  refine ⟨ready, ?_⟩
  intro forked _
  cases forked with
  | error e =>
      exact errHolds e v fun here => (ready here).2.2.1
  | ok shim =>
      rw [Prog.wp_ret, Fallible.onResult_ok, Fallible.wp_bind,
        Fallible.wp_liftM]
      refine ⟨?_, ?_⟩
      · rintro ⟨rounds', command⟩
        change (View.after id v (.forkShim i rounds) (.ok shim)).pending = _
        by_cases here : i = id
        · simp [View.after, here]
        · refine (here (isStart rounds' ?_)).elim
          change (View.after id v (.forkShim i rounds) (.ok shim)).command = _ at command
          simpa [View.after, here] using command
      · intro answer _
        rw [Prog.wp_ret]
        cases answer with
        | failed e =>
            exact errHolds _ _ fun _ => rfl
        | closed =>
            simp only
            rw [Fallible.wp_bind, Fallible.wp_attempt]
            exact wp_waitPid _ _
              (fun _ v' same _ => errHolds _ v' fun _ => same.pending)
              (fun _ v' same _ => errHolds _ v' fun _ => same.pending)
        | notice n =>
            simp only
            split
            · rename_i reported
              exact okHolds shim _ rfl reported rfl
            · rw [Fallible.wp_bind, Fallible.wp_attempt]
              exact wp_waitPid _ _
                (fun _ v' same _ => errHolds _ v' fun _ => same.pending)
                (fun _ v' same _ => errHolds _ v' fun _ => same.pending)

/-- The lock of the container is noted. -/
private theorem locked_lock
    {file : LockFile}
    (here : file.id = id) :
    (locked id v file).lock = some file := by
  simp [locked, here]

/-- `start` follows the conduct. -/
private theorem fine_start
    (i : String)
    (rounds : Nat) :
    Fine id faults { command := .start i rounds }
      (Lifecycle.start i rounds) := by
  refine wp_withLock (fun _ _ => rfl) (fun _ => trivial) ?_
  intro file here
  have grown : Grown { command := .start i rounds }
      (locked id { command := .start i rounds } file) :=
    locked_grown _ file
  have quiet : ∀ v', Kept (locked id { command := .start i rounds } file) v' →
      v'.pending = none :=
    fun v' kept => kept.pending.trans grown.pending
  rw [Fallible.wp_bind]
  refine wp_loadReconciled i ?_
    fun _ v' kept => ⟨fun _ => quiet v' kept, fun _ _ _ => trivial⟩
  intro st v1 hereSt kept holds
  rw [Fallible.wp_bind, Fallible.wp_ofExcept]
  cases startable : Lifecycle.checkStartable i st.status with
  | error e =>
      exact ⟨fun _ => quiet v1 kept, fun _ _ _ => trivial⟩
  | ok u =>
      have created : st.status = .created := by
        revert startable
        cases st.status <;> simp [Lifecycle.checkStartable]
      have command : v1.command = .start i rounds :=
        kept.command.trans grown.command
      rw [Fallible.onResult_ok, Fallible.wp_bind]
      refine wp_spawn ?_ ?_ ?_ fun _ v' settled => ⟨settled, fun _ _ _ => trivial⟩
      · intro isHere
        obtain ⟨rest, seen⟩ := holds (hereSt.trans isHere)
        refine ⟨⟨rounds, by rw [command, isHere]⟩, ?_, quiet v1 kept, st, rest,
          seen, created⟩
        rw [kept.lock, locked_lock (here.trans isHere)]
        rfl
      · intro rounds' isStart
        rw [command] at isStart
        obtain ⟨rfl, _⟩ : i = id ∧ rounds = rounds' := by
          simpa using isStart
        rfl
      · intro shim v2 settled heard _
        rw [Fallible.wp_bind]
        refine wp_load i ?_ fun _ => ⟨fun _ => settled, fun _ _ _ => trivial⟩
        intro st' v3 hereSt' noted
        have settled3 : v3.pending = none := noted.pending.trans settled
        rw [Fallible.wp_bind]
        refine wp_save .start (by decide) (by decide) ?_ noted.holds ?_ ?_ ?_
        · rfl
        · intro _
          exact ⟨noted.heard.trans heard, shim, rfl⟩
        · intro v4 noted'
          exact ⟨fun _ => noted'.pending.trans settled3, fun _ _ _ => trivial⟩
        · intro _ v4 noted'
          exact ⟨fun _ => noted'.pending.trans settled3, fun _ _ _ => trivial⟩

/-- A save of a live record over a live one. -/
theorem wp_saveLive
    (place : SavePoint)
    (live : place ∈ [.kill, .stop, .pause, .unpause])
    {old st : ContainerState}
    (holds : Holds id v old)
    (wasLive : old.status.isLive)
    (isLive : st.status.isLive)
    (same : old.SameLaunch st)
    {ok : Unit → View → Prop}
    {err : Error → View → Prop}
    (okHolds : ∀ v', Noted id v v' st → ok () v')
    (errHolds : ∀ e v', Noted id v v' st → err e v') :
    (Store.save place st).wp (rules id faults) v ok err := by
  have notLaunch : place ≠ .launch := by
    rintro rfl
    simp at live
  have notFailed : place ≠ .launchFailed := by
    rintro rfl
    simp at live
  refine wp_save place notLaunch notFailed same.id.symm holds ?_ okHolds errHolds
  intro _
  simp only [List.mem_cons, List.not_mem_nil, or_false] at live
  rcases live with rfl | rfl | rfl | rfl
  all_goals exact ⟨wasLive, isLive, same⟩

/-- Thawing keeps the launch that the record is about. -/
private theorem wp_thawPaused
    (st : ContainerState)
    (live : st.status.isLive)
    {ok : ContainerState → View → Prop}
    {err : Error → View → Prop}
    (okHolds : ∀ st', st.SameLaunch st' → st'.status.isLive → ok st' v)
    (errHolds : ∀ e, err e v) :
    (liftM (Lifecycle.thawPaused st) : Act _).wp (rules id faults) v ok err := by
  refine wp_host_of_yields host_neutral (thawPaused_yields st) ?_ errHolds
  rintro st' (rfl | ⟨now, moved⟩)
  · exact okHolds st' (.refl st') live
  · refine okHolds st' (.transition moved) ?_
    rw [ContainerState.transition_status moved]
    rfl

/-- A block of a command that takes the lock once and is not a `start`. -/
theorem wp_withLock_quiet
    {i : String}
    {body : Act α}
    {ok : α → View → Prop}
    {err : Error → View → Prop}
    (notStart : ∀ rounds, v.command ≠ .start id rounds)
    (quiet : v.pending = none)
    (lockFails : ∀ e, err e v)
    (holds : ∀ v1, Grown v v1 → v1.seen = v.seen →
      body.wp (rules id faults) v1
        (fun value v' => Grown v1 v' ∧
          ∀ v'', Grown v' v'' → v''.seen = v'.seen → ok value v'')
        (fun e v' => Grown v1 v' ∧
          ∀ v'', Grown v' v'' → v''.seen = v'.seen → err e v'')) :
    (Store.withLock i body).wp (rules id faults) v ok err := by
  refine wp_withLock ?_ lockFails ?_
  · rintro _ ⟨rounds, isStart⟩
    exact (notStart rounds isStart).elim
  · intro file _
    have grown : Grown v (locked id v file) := locked_grown v file
    refine Fallible.wp_consequence ?_ ?_
      (holds (locked id v file) grown (locked_seen v file))
    · intro value v' ⟨later, after⟩
      exact ⟨fun _ => (later.pending.trans grown.pending).trans quiet, after⟩
    · intro e v' ⟨later, after⟩
      exact ⟨fun _ => (later.pending.trans grown.pending).trans quiet, after⟩

/-- `kill` follows the conduct. -/
private theorem fine_kill
    (i : String)
    (signal : Int32)
    (all : Bool) :
    Fine id faults { command := .kill i signal all }
      (Lifecycle.kill i signal all) := by
  refine wp_withLock_quiet (by simp) rfl (fun _ => trivial) ?_
  intro v1 _ _
  rw [Fallible.wp_bind]
  refine wp_loadReconciled i ?_
    fun _ v' kept => ⟨kept.toGrown, fun _ _ _ => trivial⟩
  intro st v2 _ kept holds
  have ended : ∀ v', Grown v2 v' → Grown v1 v' ∧
      ∀ v'', Grown v' v'' → v''.seen = v'.seen → True :=
    fun v' later => ⟨kept.toGrown.trans later, fun _ _ _ => trivial⟩
  split
  · exact ended v2 (.refl v2)
  · rename_i live
    have live : st.status.isLive := by
      simpa using live
    rw [Fallible.wp_bind]
    refine wp_thawPaused st live ?_ fun _ => ended v2 (.refl v2)
    intro st' same live'
    have saved : (Store.save .kill st').wp (rules id faults) v2
        (fun _ v' => Grown v1 v' ∧
          ∀ v'', Grown v' v'' → v''.seen = v'.seen → True)
        (fun _ v' => Grown v1 v' ∧
          ∀ v'', Grown v' v'' → v''.seen = v'.seen → True) :=
      wp_saveLive .kill (by simp) holds live live' same
        (fun v' noted => ended v' noted.toGrown)
        (fun _ v' noted => ended v' noted.toGrown)
    rw [Fallible.wp_bind]
    refine wp_host_of_neutral host_neutral ?_ fun _ => ended v2 (.refl v2)
    intro swept
    cases swept with
    | some cg =>
        simp only
        rw [Fallible.wp_bind]
        exact wp_host_of_neutral host_neutral (fun _ => saved)
          fun _ => ended v2 (.refl v2)
    | none =>
        simp only
        rw [Fallible.wp_bind, Fallible.wp_mapErr]
        exact wp_host_of_neutral host_neutral (fun _ => saved)
          fun _ => ended v2 (.refl v2)

/-- The end of `pause` and `unpause`: change the status and save. -/
theorem wp_moveAndSave
    (place : SavePoint)
    (livePlace : place ∈ [.kill, .stop, .pause, .unpause])
    {st : ContainerState}
    {next : Status}
    (holds : Holds id v st)
    (live : st.status.isLive)
    (nextLive : next.isLive)
    {ok : Unit → View → Prop}
    {err : Error → View → Prop}
    (okHolds : ∀ v', Grown v v' → ok () v')
    (errHolds : ∀ e v', Grown v v' → err e v') :
    (do
      let st ← transitionNow st next
      Store.save place st : Act Unit).wp (rules id faults) v ok err := by
  rw [Fallible.wp_bind]
  refine wp_transitionNow host_neutral ?_ fun e => errHolds e v (.refl v)
  intro st' now moved
  have live' : st'.status.isLive := by
    rw [ContainerState.transition_status moved]
    exact nextLive
  exact wp_saveLive place livePlace holds live live' (.transition moved)
    (fun v' noted => okHolds v' noted.toGrown)
    (fun e v' noted => errHolds e v' noted.toGrown)

/-- `pause` follows the conduct. -/
private theorem fine_pause (i : String) :
    Fine id faults { command := .pause i } (Lifecycle.pause i) := by
  refine wp_withLock_quiet (by simp) rfl (fun _ => trivial) ?_
  intro v1 _ _
  rw [Fallible.wp_bind]
  refine wp_loadReconciled i ?_
    fun _ v' kept => ⟨kept.toGrown, fun _ _ _ => trivial⟩
  intro st v2 _ kept holds
  have ended : ∀ v', Grown v2 v' → Grown v1 v' ∧
      ∀ v'', Grown v' v'' → v''.seen = v'.seen → True :=
    fun v' later => ⟨kept.toGrown.trans later, fun _ _ _ => trivial⟩
  split
  · exact ended v2 (.refl v2)
  · rename_i running
    have live : st.status.isLive := by
      rw [not_not.mp running]
      rfl
    rw [Fallible.wp_bind]
    refine wp_host_of_neutral host_neutral ?_ fun _ => ended v2 (.refl v2)
    intro cg
    rw [Fallible.wp_bind]
    refine wp_host_of_neutral host_neutral ?_ fun _ => ended v2 (.refl v2)
    intro _
    exact wp_moveAndSave .pause (by simp) holds live rfl ended fun _ => ended

/-- `unpause` follows the conduct. -/
private theorem fine_unpause (i : String) :
    Fine id faults { command := .unpause i } (Lifecycle.unpause i) := by
  refine wp_withLock_quiet (by simp) rfl (fun _ => trivial) ?_
  intro v1 _ _
  rw [Fallible.wp_bind]
  refine wp_loadReconciled i ?_
    fun _ v' kept => ⟨kept.toGrown, fun _ _ _ => trivial⟩
  intro st v2 _ kept holds
  have ended : ∀ v', Grown v2 v' → Grown v1 v' ∧
      ∀ v'', Grown v' v'' → v''.seen = v'.seen → True :=
    fun v' later => ⟨kept.toGrown.trans later, fun _ _ _ => trivial⟩
  split
  · exact ended v2 (.refl v2)
  · rename_i paused
    have live : st.status.isLive := by
      rw [not_not.mp paused]
      rfl
    rw [Fallible.wp_bind]
    refine wp_host_of_neutral host_neutral ?_ fun _ => ended v2 (.refl v2)
    intro cg
    rw [Fallible.wp_bind]
    refine wp_host_of_neutral host_neutral ?_ fun _ => ended v2 (.refl v2)
    intro _
    exact wp_moveAndSave .unpause (by simp) holds live rfl ended fun _ => ended

/-! ### Stopping -/

/-- The container was seen to be live. -/
def Pursued (id i : String) (v : View) : Prop :=
  i = id → ∃ live ∈ v.seen, live.status.isLive

/-- A stop that is pursued stays so. -/
private theorem Pursued.grown
    {i : String}
    {v' : View}
    (pursued : Pursued id i v)
    (grown : Grown v v') :
    Pursued id i v' := by
  intro here
  obtain ⟨live, member, isLive⟩ := pursued here
  exact ⟨live, grown.older.subset member, isLive⟩

/-- The first part of `stop` has seen why there is something to stop. -/
private theorem wp_requestStop
    (i : String)
    (notStart : ∀ rounds, v.command ≠ .start id rounds)
    (quiet : v.pending = none)
    {ok : Option ExitStatus → View → Prop}
    {err : Error → View → Prop}
    (nothing : ∀ status v', Grown v v' → ok (some status) v')
    (requested : ∀ v', Grown v v' → Pursued id i v' → ok none v')
    (errHolds : ∀ e v', Grown v v' → err e v') :
    (Lifecycle.requestStop i).wp (rules id faults) v ok err := by
  refine wp_withLock_quiet notStart quiet (fun e => errHolds e v (.refl v)) ?_
  intro v1 locked1 _
  have failed : ∀ e v', Grown v1 v' → Grown v1 v' ∧
      ∀ v'', Grown v' v'' → v''.seen = v'.seen → err e v'' :=
    fun e v' later => ⟨later, fun v'' release _ =>
      errHolds e v'' ((locked1.trans later).trans release)⟩
  rw [Fallible.wp_bind]
  refine wp_loadReconciled i ?_ fun e v' kept => failed e v' kept.toGrown
  intro st v2 here kept holds
  split
  · exact ⟨kept.toGrown, fun v'' release _ =>
      nothing _ v'' ((locked1.trans kept.toGrown).trans release)⟩
  · rename_i live
    have live : st.status.isLive := by
      simpa using live
    have failed2 : ∀ e, Grown v1 v2 ∧
        ∀ v'', Grown v2 v'' → v''.seen = v2.seen → err e v'' :=
      fun e => failed e v2 kept.toGrown
    rw [Fallible.wp_bind]
    refine wp_thawPaused st live ?_ failed2
    intro st1 same1 _
    rw [Fallible.wp_bind]
    refine wp_transitionNow host_neutral ?_ failed2
    intro st2 now moved
    have live2 : st2.status.isLive := by
      rw [ContainerState.transition_status moved]
      rfl
    rw [Fallible.wp_bind]
    refine wp_saveLive .stop (by simp) holds live live2
      (same1.trans (.transition moved)) ?_
      fun e v' noted => failed e v' (kept.toGrown.trans noted.toGrown)
    intro v3 noted
    rw [Fallible.wp_bind]
    refine wp_attempt_of_neutral host_neutral ?_
    intro _
    refine ⟨kept.toGrown.trans noted.toGrown, ?_⟩
    intro v'' release _
    refine requested v''
      ((locked1.trans (kept.toGrown.trans noted.toGrown)).trans release) ?_
    have pursued : Pursued id i v2 := by
      intro isHere
      obtain ⟨rest, seen⟩ := holds (here.trans isHere)
      exact ⟨st, by simp [seen], live⟩
    exact (pursued.grown noted.toGrown).grown release

/-- Waiting for the end of the process keeps the rules. -/
private theorem wp_graceLoop
    (i : String)
    (rounds : Nat)
    {ok : Bool → View → Prop}
    {err : Error → View → Prop}
    (okHolds : ∀ dead v', Grown v v' → ok dead v')
    (errHolds : ∀ e v', Grown v v' → err e v') :
    (Lifecycle.graceLoop i rounds).wp (rules id faults) v ok err := by
  induction rounds generalizing v with
  | zero =>
      exact ⟨trivial, fun never => never.elim⟩
  | succ rounds inductionHypothesis =>
      rw [Lifecycle.graceLoop, Fallible.wp_bind]
      refine wp_host_of_neutral host_neutral ?_ fun e => errHolds e v (.refl v)
      intro late
      cases late with
      | true =>
          exact okHolds false v (.refl v)
      | false =>
          simp only [Bool.false_eq_true, ↓reduceIte]
          rw [Fallible.wp_bind]
          refine wp_load i ?_ fun e => errHolds e v (.refl v)
          intro st v1 _ noted
          rw [Fallible.wp_bind]
          refine wp_initIsAlive st ?_
          intro alive v2 same _
          have grown : Grown v v2 := noted.toGrown.trans same.toGrown
          cases alive with
          | false =>
              exact okHolds true v2 grown
          | true =>
              simp only [Bool.not_true, Bool.false_eq_true, ↓reduceIte]
              rw [Fallible.wp_bind]
              refine wp_host_of_neutral host_neutral ?_
                fun e => errHolds e v2 grown
              intro _
              exact inductionHypothesis
                (fun dead v' later => okHolds dead v' (grown.trans later))
                (fun e v' later => errHolds e v' (grown.trans later))

/-- The second part of `stop` keeps the rules. -/
private theorem wp_forceKill
    (i : String)
    (notStart : ∀ rounds, v.command ≠ .start id rounds)
    (quiet : v.pending = none)
    {ok : Unit → View → Prop}
    {err : Error → View → Prop}
    (okHolds : ∀ v', Grown v v' → ok () v')
    (errHolds : ∀ e v', Grown v v' → err e v') :
    (Lifecycle.forceKill i).wp (rules id faults) v ok err := by
  refine wp_withLock_quiet notStart quiet (fun e => errHolds e v (.refl v)) ?_
  intro v1 locked1 _
  have failed : ∀ e v', Grown v1 v' → Grown v1 v' ∧
      ∀ v'', Grown v' v'' → v''.seen = v'.seen → err e v'' :=
    fun e v' later => ⟨later, fun v'' release _ =>
      errHolds e v'' ((locked1.trans later).trans release)⟩
  rw [Fallible.wp_bind]
  refine wp_load i ?_ fun e => failed e v1 (.refl v1)
  intro st v2 _ noted
  have ended : Grown v1 v2 ∧ ∀ v'', Grown v2 v'' → v''.seen = v2.seen → ok () v'' :=
    ⟨noted.toGrown, fun v'' release _ =>
      okHolds v'' ((locked1.trans noted.toGrown).trans release)⟩
  rw [Fallible.wp_bind]
  refine wp_host_of_neutral host_neutral ?_ fun e => failed e v2 noted.toGrown
  intro cgroup
  cases cgroup with
  | some cg =>
      exact wp_host_of_neutral host_neutral (fun _ => ended)
        fun e => failed e v2 noted.toGrown
  | none =>
      simp only
      rw [Fallible.wp_bind]
      exact wp_attempt_of_neutral host_neutral fun _ => ended

/-- So does waiting for the death that follows. -/
private theorem wp_deathLoop
    (i : String)
    (left : Nat)
    {ok : Unit → View → Prop}
    {err : Error → View → Prop}
    (okHolds : ∀ v', Grown v v' → ok () v')
    (errHolds : ∀ e v', Grown v v' → err e v') :
    (Lifecycle.deathLoop i left).wp (rules id faults) v ok err := by
  induction left generalizing v with
  | zero =>
      exact okHolds v (.refl v)
  | succ left inductionHypothesis =>
      rw [Lifecycle.deathLoop, Fallible.wp_bind]
      refine wp_load i ?_ fun e => errHolds e v (.refl v)
      intro st v1 _ noted
      rw [Fallible.wp_bind]
      refine wp_initIsAlive st ?_
      intro alive v2 same _
      have grown : Grown v v2 := noted.toGrown.trans same.toGrown
      cases alive with
      | false =>
          exact okHolds v2 grown
      | true =>
          simp only [↓reduceIte]
          rw [Fallible.wp_bind]
          refine wp_host_of_neutral host_neutral ?_ fun e => errHolds e v2 grown
          intro _
          exact inductionHypothesis
            (fun v' later => okHolds v' (grown.trans later))
            (fun e v' later => errHolds e v' (grown.trans later))

/-- When a shim is there to record the exit status, init was found to be gone
after the container was live. -/
theorem wp_finalizeLocked
    (i : String)
    (pursued : Pursued id i v)
    {ok : Option ExitStatus → View → Prop}
    {err : Error → View → Prop}
    (tornDown : ∀ status v', Grown v v' → ok (some status) v')
    (leftToShim : ∀ v', Grown v v' → (i = id → v'.Outlived) → ok none v')
    (errHolds : ∀ e v', Grown v v' → err e v') :
    (Lifecycle.finalizeLocked i).wp (rules id faults) v ok err := by
  rw [Lifecycle.finalizeLocked, Fallible.wp_bind]
  refine wp_load i ?_ fun e => errHolds e v (.refl v)
  intro st v1 here noted
  rw [Fallible.wp_bind]
  refine wp_initIsAlive st ?_
  intro alive v2 same gone
  have grown : Grown v v2 := noted.toGrown.trans same.toGrown
  cases alive with
  | true =>
      exact errHolds _ v2 grown
  | false =>
      have isGone : v2.Gone st := gone rfl
      simp only [Bool.false_eq_true, ↓reduceIte]
      have decided : ∀ (shimAlive : Bool) v3, Same v2 v3 →
          (if shimAlive then pure none
            else do
              let st ← Supervisor.teardown st
              pure (some st.exitStatus) : Act (Option ExitStatus)).wp
            (rules id faults) v3 ok err := by
        intro shimAlive v3 same3
        have grown3 : Grown v v3 := grown.trans same3.toGrown
        cases shimAlive with
        | true =>
            refine leftToShim v3 grown3 ?_
            intro isHere
            refine ⟨[], st, v.seen, ?_, same3.toGrown.gone isGone,
              pursued isHere⟩
            rw [same3.seen, same.seen]
            exact noted.seen_eq (here.trans isHere)
        | false =>
            simp only [Bool.false_eq_true, ↓reduceIte]
            rw [Fallible.wp_bind]
            refine wp_teardown ((same.trans same3).holds noted.holds) ?_ ?_ ?_
            · intro _ _
              exact .inl (same3.toGrown.gone isGone)
            · intro st' v4 _ noted'
              exact tornDown _ v4 (grown3.trans noted'.toGrown)
            · intro e v4 same4
              exact errHolds e v4 (grown3.trans same4.toGrown)
      rw [Fallible.wp_bind]
      split
      · refine wp_processAlive _ _ ?_
        intro answer v3 same3 _
        exact decided _ v3 same3
      · exact decided false v2 (.refl v2)

/-- Waiting for the shim records the end only where init was outlived. -/
private theorem wp_awaitShim
    (i : String)
    (left : Nat)
    (outlived : i = id → v.Outlived)
    {ok : ExitStatus → View → Prop}
    {err : Error → View → Prop}
    (okHolds : ∀ status v', Grown v v' → ok status v')
    (errHolds : ∀ e v', Grown v v' → err e v') :
    (Lifecycle.awaitShim i left).wp (rules id faults) v ok err := by
  induction left generalizing v with
  | zero =>
      rw [Lifecycle.awaitShim, Fallible.wp_bind]
      refine wp_load i ?_ fun e => errHolds e v (.refl v)
      intro cur v1 here noted
      rw [Fallible.wp_bind]
      refine wp_teardown noted.holds ?_ ?_ ?_
      · intro isHere _
        exact .inr (.inr (noted.toGrown.outlived
          (outlived (here.symm.trans isHere))))
      · intro st' v2 _ noted'
        exact okHolds _ v2 (noted.toGrown.trans noted'.toGrown)
      · intro e v2 same
        exact errHolds e v2 (noted.toGrown.trans same.toGrown)
  | succ left inductionHypothesis =>
      rw [Lifecycle.awaitShim, Fallible.wp_bind]
      refine wp_load i ?_ fun e => errHolds e v (.refl v)
      intro cur v1 here noted
      split
      · exact okHolds _ v1 noted.toGrown
      · rw [Fallible.wp_bind]
        refine wp_host_of_neutral host_neutral ?_
          fun e => errHolds e v1 noted.toGrown
        intro _
        exact inductionHypothesis
          (fun isHere => noted.toGrown.outlived (outlived isHere))
          (fun status v' later => okHolds status v' (noted.toGrown.trans later))
          (fun e v' later => errHolds e v' (noted.toGrown.trans later))

/-- The last part of `stop` keeps the rules. -/
private theorem wp_finalizeStopped
    (i : String)
    (notStart : ∀ rounds, v.command ≠ .start id rounds)
    (quiet : v.pending = none)
    (pursued : Pursued id i v)
    {ok : ExitStatus → View → Prop}
    {err : Error → View → Prop}
    (okHolds : ∀ status v', Grown v v' → ok status v')
    (errHolds : ∀ e v', Grown v v' → err e v') :
    (Lifecycle.finalizeStopped i).wp (rules id faults) v ok err := by
  rw [Lifecycle.finalizeStopped, Fallible.wp_bind]
  refine wp_withLock_quiet notStart quiet (fun e => errHolds e v (.refl v)) ?_
  intro v1 locked1 _
  refine wp_finalizeLocked i (pursued.grown locked1) ?_ ?_ ?_
  · intro status v2 grown
    refine ⟨grown, ?_⟩
    intro v'' release _
    exact okHolds status v'' ((locked1.trans grown).trans release)
  · intro v2 grown outlived
    refine ⟨grown, ?_⟩
    intro v'' release _
    have later : Grown v v'' := (locked1.trans grown).trans release
    exact wp_awaitShim i 100 (fun isHere => release.outlived (outlived isHere))
      (fun status v' after => okHolds status v' (later.trans after))
      (fun e v' after => errHolds e v' (later.trans after))
  · intro e v2 grown
    refine ⟨grown, ?_⟩
    intro v'' release _
    exact errHolds e v'' ((locked1.trans grown).trans release)

/-- `stop` keeps the rules, whoever calls it. -/
private theorem wp_stop
    (i : String)
    (rounds : Nat)
    (notStart : ∀ rounds, v.command ≠ .start id rounds)
    (quiet : v.pending = none)
    {ok : ExitStatus → View → Prop}
    {err : Error → View → Prop}
    (okHolds : ∀ status v', Grown v v' → ok status v')
    (errHolds : ∀ e v', Grown v v' → err e v') :
    (Lifecycle.stop i rounds).wp (rules id faults) v ok err := by
  rw [Lifecycle.stop, Fallible.wp_bind]
  refine wp_requestStop i notStart quiet okHolds ?_ errHolds
  intro v1 grown1 pursued1
  have notStart' : ∀ v', Grown v v' → ∀ rounds, v'.command ≠ .start id rounds :=
    fun v' grown rounds => grown.command ▸ notStart rounds
  have quiet' : ∀ v', Grown v v' → v'.pending = none :=
    fun v' grown => grown.pending.trans quiet
  have finalize : ∀ v2, Grown v v2 → Pursued id i v2 →
      (Lifecycle.finalizeStopped i).wp (rules id faults) v2 ok err :=
    fun v2 grown2 pursued2 => wp_finalizeStopped i (notStart' v2 grown2)
      (quiet' v2 grown2) pursued2
      (fun status v' later => okHolds status v' (grown2.trans later))
      (fun e v' later => errHolds e v' (grown2.trans later))
  simp only
  rw [Fallible.wp_bind]
  refine wp_graceLoop i rounds ?_ fun e v' later => errHolds e v' (grown1.trans later)
  intro dead v2 grown2
  have later2 := grown1.trans grown2
  have pursued2 := pursued1.grown grown2
  cases dead with
  | true =>
      exact finalize v2 later2 pursued2
  | false =>
      simp only [Bool.false_eq_true, ↓reduceIte]
      rw [Fallible.wp_bind]
      refine wp_forceKill i (notStart' v2 later2) (quiet' v2 later2) ?_
        fun e v' later => errHolds e v' (later2.trans later)
      intro v3 grown3
      have later3 := later2.trans grown3
      rw [Fallible.wp_bind]
      refine wp_deathLoop i 100 ?_ fun e v' later => errHolds e v' (later3.trans later)
      intro v4 grown4
      exact finalize v4 (later3.trans grown4)
        ((pursued2.grown grown3).grown grown4)

/-- After the stop of `delete` a record is held that may be deleted. -/
private theorem wp_stopForDelete
    (i : String)
    (rounds : Nat)
    {force : Bool}
    {st : ContainerState}
    (command : v.command = .delete i force rounds)
    (quiet : v.pending = none)
    (here : st.id = i)
    (holds : Holds id v st)
    {ok : ContainerState → View → Prop}
    {err : Error → View → Prop}
    (okHolds : ∀ st' v', Grown v v' → st'.id = i → Holds id v' st' →
      (force = false → st'.status.isLive = false) → ok st' v')
    (errHolds : ∀ e v', Grown v v' → err e v') :
    (Lifecycle.stopForDelete i st force rounds).wp (rules id faults) v ok err := by
  unfold Lifecycle.stopForDelete
  split
  · rename_i dead
    exact okHolds st v (.refl v) here holds fun _ => by simpa using dead
  · split
    · exact errHolds _ v (.refl v)
    · rename_i forced
      rw [Fallible.wp_bind]
      refine wp_stop i rounds (by simp [command]) quiet ?_ errHolds
      intro _ v1 grown1
      refine wp_load i ?_ fun e => errHolds e v1 grown1
      intro st' v2 here' noted
      refine okHolds st' v2 (grown1.trans noted.toGrown) here' noted.holds ?_
      rintro rfl
      simp at forced

/-- `delete` follows the conduct. -/
private theorem fine_delete
    (i : String)
    (force : Bool)
    (rounds : Nat) :
    Fine id faults { command := .delete i force rounds }
      (Lifecycle.delete i force rounds) := by
  rw [Fine, Lifecycle.delete, Fallible.wp_bind]
  refine wp_withLock_quiet (by simp) rfl (fun _ => trivial) ?_
  intro v1 locked1 _
  refine wp_loadReconciled i ?_
    fun _ v' kept => ⟨kept.toGrown, fun _ _ _ => trivial⟩
  intro st v2 here kept holds
  refine ⟨kept.toGrown, ?_⟩
  intro v3 release seen3
  have grown3 := (locked1.trans kept.toGrown).trans release
  have holds3 : Holds id v3 st := by
    intro isHere
    rw [seen3]
    exact holds isHere
  rw [Fallible.wp_bind]
  refine wp_stopForDelete i rounds grown3.command grown3.pending here holds3 ?_
    fun _ _ _ => trivial
  intro st' v4 grown4 here' holds' dead
  have later4 := grown3.trans grown4
  rw [Fallible.wp_bind]
  refine wp_withLock_quiet (by simp [later4.command]) later4.pending
    (fun _ => trivial) ?_
  intro v5 locked5 seen5
  have later5 := later4.trans locked5
  have holds5 : Holds id v5 st' := by
    intro isHere
    rw [seen5]
    exact holds' isHere
  refine wp_teardown holds5 ?_ ?_
    fun _ v' same => ⟨same.toGrown, fun _ _ _ => trivial⟩
  · intro isHere live
    cases force with
    | false =>
        simp [dead rfl] at live
    | true =>
        exact .inr (.inl ⟨i, rounds, later5.command⟩)
  · intro torn v6 isTorn noted
    refine ⟨noted.toGrown, ?_⟩
    intro v7 release7 seen7
    refine wp_remove i ?_ trivial fun _ => trivial
    intro isHere
    obtain ⟨rest, seen⟩ := holds5 (here'.trans isHere)
    refine .inr ⟨force, rounds, ?_, torn, st', rest, ?_, isTorn.sameLaunch, ?_⟩
    · rw [((later5.trans noted.toGrown).trans release7).command, isHere]
    · rw [seen7, noted.seen_eq (isTorn.sameLaunch.id.symm.trans
        (here'.trans isHere)), seen]
    · intro notForced
      have notLive := dead notForced
      refine ⟨notLive, ?_⟩
      simpa [notLive] using isTorn.status

/-- `wait` follows the conduct. -/
private theorem fine_wait
    (i : String)
    (timed : Bool)
    (rounds : Nat) :
    Fine id faults v (Lifecycle.wait i timed rounds) := by
  induction rounds generalizing v with
  | zero =>
      exact ⟨trivial, fun never => never.elim⟩
  | succ rounds inductionHypothesis =>
      rw [Fine, Lifecycle.wait, Fallible.wp_bind]
      refine wp_loadReconciled i ?_ fun _ _ _ => trivial
      intro st v1 _ _ _
      split
      · exact trivial
      · rw [Fallible.wp_bind]
        refine wp_host_of_neutral host_neutral ?_ fun _ => trivial
        intro late
        cases late with
        | true =>
            exact trivial
        | false =>
            simp only [Bool.false_eq_true, ↓reduceIte]
            rw [Fallible.wp_bind]
            exact wp_host_of_neutral host_neutral
              (fun _ => inductionHypothesis) fun _ => trivial

/-- `inspect` follows the conduct. -/
private theorem fine_inspect (i : String) :
    Fine id faults v (do
      let st ← Store.load i
      let _ ← (Store.reconcile st).attempt
      return () : Act Unit) := by
  rw [Fine, Fallible.wp_bind]
  refine wp_load i ?_ fun _ => trivial
  intro st v1 _ noted
  rw [Fallible.wp_bind, Fallible.wp_attempt]
  exact wp_reconcile noted.holds (fun _ _ => trivial) (fun _ _ _ => trivial)
    fun _ _ _ _ => trivial

/-! ### All containers -/

/-- The search for containers returns some of the entries. -/
private theorem wp_existing
    (names : List String)
    {ok : List String → View → Prop}
    {err : Error → View → Prop}
    (holds : ∀ found, found.Sublist names → ok found v) :
    (Store.existing names).wp (rules id faults) v ok err := by
  induction names generalizing ok with
  | nil =>
      exact holds [] (List.Sublist.refl [])
  | cons name rest inductionHypothesis =>
      rw [Store.existing, Fallible.wp_bind, Fallible.wp_liftM]
      refine ⟨trivial, ?_⟩
      intro present _
      rw [Prog.wp_ret, Fallible.wp_bind]
      refine inductionHypothesis ?_
      intro found sublist
      refine holds _ ?_
      cases present with
      | true =>
          exact sublist.cons_cons name
      | false =>
          exact sublist.cons name

/-- `ids` returns no id twice. -/
private theorem wp_ids
    {ok : List String → View → Prop}
    {err : Error → View → Prop}
    (okHolds : ∀ names, names.Nodup → ok names v)
    (errHolds : ∀ e, err e v) :
    Store.ids.wp (rules id faults) v ok err := by
  rw [Store.ids, Fallible.wp_bind, Fallible.wp_of]
  refine ⟨trivial, ?_⟩
  intro answer possible
  cases answer with
  | error e =>
      exact errHolds e
  | ok entries =>
      have distinct : entries.Nodup := possible entries rfl
      rw [Prog.wp_ret, Fallible.onResult_ok, Fallible.wp_bind]
      refine wp_existing entries ?_
      intro found sublist
      exact okHolds _ ((List.mergeSort_perm found _).nodup_iff.mpr
        (sublist.nodup distinct))

/-- A process holds each of these records, and they are of different
containers. -/
structure HoldsAll (id : String) (v : View) (states : List ContainerState) :
    Prop where
  distinct : (states.map (·.id)).Nodup
  holds : ∀ st ∈ states, Holds id v st

/-- The records that were loaded are held. -/
private theorem wp_loadAll
    (names : List String)
    (distinct : names.Nodup)
    {ok : List ContainerState → View → Prop}
    {err : Error → View → Prop}
    (holds : ∀ states v', Kept v v' → (id ∉ names → Same v v') →
      HoldsAll id v' states → (states.map (·.id)).Sublist names → ok states v') :
    (Store.loadAll names).wp (rules id faults) v ok err := by
  induction names generalizing v ok with
  | nil =>
      exact holds [] v (Same.refl v).toKept (fun _ => .refl v)
        ⟨List.nodup_nil, by simp⟩ (List.Sublist.refl [])
  | cons name rest inductionHypothesis =>
      have restDistinct := (List.nodup_cons.mp distinct).2
      rw [Store.loadAll, Fallible.wp_bind, Fallible.wp_attempt]
      refine wp_load name ?_ ?_
      · intro st v1 here noted
        rw [Fallible.wp_bind]
        refine inductionHypothesis restDistinct ?_
        intro states v2 kept unchanged all sublist
        have fresh : st.id ∉ states.map (·.id) := by
          intro member
          rw [here] at member
          exact (List.nodup_cons.mp distinct).1 (sublist.subset member)
        refine holds (st :: states) v2 (noted.toKept.trans kept) ?_ ?_ ?_
        · intro absent
          have other : st.id ≠ id := by
            rintro rfl
            exact absent (here ▸ List.mem_cons_self)
          refine (noted.same other).trans (unchanged ?_)
          exact fun member => absent (List.mem_cons_of_mem name member)
        · refine ⟨List.nodup_cons.mpr ⟨fresh, all.distinct⟩, ?_⟩
          intro other member
          rcases List.mem_cons.mp member with rfl | later
          · intro isHere
            have absent : id ∉ rest := by
              rw [← isHere, here]
              exact (List.nodup_cons.mp distinct).1
            exact (unchanged absent).holds noted.holds isHere
          · exact all.holds other later
        · simp only [List.map_cons, here]
          exact sublist.cons_cons name
      · intro e
        rw [Fallible.wp_bind]
        refine inductionHypothesis restDistinct ?_
        intro states v1 kept unchanged all sublist
        refine holds states v1 kept ?_ all (sublist.cons name)
        intro absent
        exact unchanged fun member => absent (List.mem_cons_of_mem name member)

/-- The records of `list` are held. -/
private theorem wp_list
    {ok : List ContainerState → View → Prop}
    {err : Error → View → Prop}
    (okHolds : ∀ states v', HoldsAll id v' states → ok states v')
    (errHolds : ∀ e, err e v) :
    Store.list.wp (rules id faults) v ok err := by
  rw [Store.list, Fallible.wp_bind]
  refine wp_ids ?_ errHolds
  intro names distinct
  rw [Fallible.wp_bind]
  refine wp_loadAll names distinct ?_
  intro states v' _ _ all _
  have sorted := List.mergeSort_perm states
    fun a b => decide (a.createdAt ≤ b.createdAt)
  refine okHolds _ v' ⟨(sorted.map _).nodup_iff.mpr all.distinct, ?_⟩
  intro st member
  exact all.holds st (sorted.mem_iff.mp member)

/-- The remaining records are still held after one of another container was
replaced. -/
theorem HoldsAll.tail
    {st : ContainerState}
    {rest : List ContainerState}
    (all : HoldsAll id v (st :: rest))
    {v' : View}
    (kept : st.id ≠ id → Same v v') :
    HoldsAll id v' rest := by
  have distinct := List.nodup_cons.mp all.distinct
  refine ⟨distinct.2, ?_⟩
  intro other member isHere
  have differs : st.id ≠ id := by
    intro same
    refine distinct.1 (List.mem_map.mpr ⟨other, member, ?_⟩)
    exact isHere.trans same.symm
  exact (kept differs).holds
    (all.holds other (List.mem_cons_of_mem st member)) isHere

/-- Reconciling each held record follows the conduct. -/
private theorem fine_reconcileEach
    (states : List ContainerState)
    (all : HoldsAll id v states) :
    Fine id faults v (reconcileEach states) := by
  induction states generalizing v with
  | nil =>
      exact trivial
  | cons st rest inductionHypothesis =>
      rw [Fine, reconcileEach, Fallible.wp_bind, Fallible.wp_attempt]
      refine wp_reconcile (all.holds st List.mem_cons_self) ?_ ?_ ?_
      · intro v' same
        exact inductionHypothesis (all.tail fun _ => same)
      · intro now v' noted
        refine inductionHypothesis (all.tail fun other => noted.same ?_)
        simpa using other
      · intro e now v' noted
        refine inductionHypothesis (all.tail fun other => noted.same ?_)
        simpa using other

/-- The loop of `gc` over the records keeps the rules. -/
private theorem wp_gcStates
    (states : List ContainerState)
    (all : HoldsAll id v states)
    {ok : List String × List String → View → Prop}
    {err : Error → View → Prop}
    (okHolds : ∀ result v', ok result v')
    (errHolds : ∀ e v', err e v') :
    (Supervisor.gcStates states).wp (rules id faults) v ok err := by
  induction states generalizing v ok with
  | nil =>
      exact okHolds _ v
  | cons st rest inductionHypothesis =>
      rw [Supervisor.gcStates, Fallible.wp_bind]
      refine wp_reconcile (all.holds st List.mem_cons_self) ?_ ?_
        fun e _ v' _ => errHolds e v'
      · intro v' same
        simp only [Bool.false_eq_true, ↓reduceIte]
        rw [Fallible.wp_bind, Fallible.wp_pure, Fallible.wp_bind]
        exact inductionHypothesis (all.tail fun _ => same)
          fun _ v'' => okHolds _ v''
      · intro now v' noted
        simp only [↓reduceIte]
        rw [Fallible.wp_bind]
        refine wp_teardown noted.holds ?_ ?_ fun e v'' _ => errHolds e v''
        · intro _ live
          simp [ContainerState.markGone, Status.isLive] at live
        · intro torn v'' isTorn noted'
          rw [Fallible.wp_bind]
          refine inductionHypothesis (all.tail fun other => ?_)
            fun _ last => okHolds _ last
          have markedOther : (st.markGone now).id ≠ id := by
            simpa using other
          exact (noted.same markedOther).trans
            (noted'.same (isTorn.sameLaunch.id ▸ markedOther))

/-- `gc` follows the conduct. -/
private theorem fine_gc : Fine id faults v Supervisor.gc := by
  rw [Fine, Supervisor.gc, Fallible.wp_bind]
  refine wp_list ?_ fun _ => trivial
  intro states v' all
  rw [Fallible.wp_bind]
  refine wp_gcStates states all ?_ fun _ _ => trivial
  intro result v''
  obtain ⟨corrected, live⟩ := result
  simp only
  rw [Fallible.wp_bind]
  refine wp_host_of_neutral host_neutral ?_ fun _ => trivial
  intro _
  rw [Fallible.wp_bind]
  refine wp_host_of_neutral host_neutral ?_ fun _ => trivial
  intro _
  rw [Fallible.wp_bind]
  refine wp_host_of_neutral host_neutral ?_ fun _ => trivial
  intro _
  rw [Fallible.wp_bind]
  exact wp_host_of_neutral host_neutral (fun _ => trivial) fun _ => trivial

/-! ### Attached containers -/

/-- Following the output of a container shows no record. -/
private theorem wp_pollLoop
    (st : ContainerState)
    (rounds : Nat)
    {ok : Unit → View → Prop}
    {err : Error → View → Prop}
    (okHolds : ∀ v', Same v v' → ok () v')
    (errHolds : ∀ e v', Same v v' → err e v') :
    (Attached.pollLoop st rounds).wp (rules id faults) v ok err := by
  induction rounds generalizing v with
  | zero =>
      exact ⟨trivial, fun never => never.elim⟩
  | succ rounds inductionHypothesis =>
      have again : ∀ v1, Same v v1 →
          (Attached.pollLoop st rounds).wp (rules id faults) v1 ok err :=
        fun v1 same => inductionHypothesis
          (fun v' later => okHolds v' (same.trans later))
          (fun e v' later => errHolds e v' (same.trans later))
      rw [Attached.pollLoop, Fallible.wp_bind]
      refine wp_host_of_neutral host_neutral ?_ fun e => errHolds e v (.refl v)
      intro polled
      cases polled with
      | timeout =>
          simp only
          rw [Fallible.wp_bind]
          refine wp_initIsAlive st ?_
          intro alive v1 same _
          cases alive with
          | true =>
              exact again v1 same
          | false =>
              exact okHolds v1 same
      | failed =>
          exact again v (.refl v)
      | ready signals channel =>
          simp only
          rw [Fallible.wp_bind]
          refine wp_host_of_neutral host_neutral ?_ fun e => errHolds e v (.refl v)
          intro _
          cases channel with
          | true =>
              exact okHolds v (.refl v)
          | false =>
              exact again v (.refl v)

/-- `start --attach` follows the conduct. -/
private theorem fine_attached [F64Ops]
    (i : String)
    (rounds : Nat) :
    Fine id faults { command := .startAttached i rounds }
      (Attached.start i rounds) := by
  rw [Fine, Attached.start, Fallible.wp_bind]
  refine wp_load i ?_ fun _ => trivial
  intro st v1 here noted
  split
  · exact trivial
  · rename_i notRefused
    have created : st.status = .created := not_not.mp notRefused
    rw [Attached.run, Fallible.wp_bind, Fallible.wp_liftM]
    refine wp_launch ?_ ?_ ?_ ?_ ?_
    · intro isHere isCreated
      exact noted.holdsCreated isHere isCreated
    · intro isHere
      refine ⟨⟨rounds, .inr ?_⟩, noted.launched, noted.cloned⟩
      rw [noted.command, ← here]
      exact congrArg (Command.startAttached · rounds) isHere
    · intro notCreated
      exact (notCreated created).elim
    · intro running st' v2 isOk
      have outcome : st'.id = id → v2.launched ∧ v2.recorded :=
        fun isHere => isOk.outcome (isOk.here.symm.trans isHere)
      simp only
      rw [Fallible.wp_bind]
      refine wp_host_of_neutral host_neutral ?_ fun _ => trivial
      intro _
      rw [Fallible.wp_bind]
      refine wp_host_of_neutral host_neutral ?_ fun _ => trivial
      intro _
      rw [Fallible.wp_bind]
      refine wp_pollLoop st' rounds ?_ fun _ _ _ => trivial
      intro v3 same
      rw [Fallible.wp_bind]
      refine wp_waitForExit (same.holds isOk.holds) isOk.status isOk.initPid
        (fun isHere => ⟨same.launched.trans (outcome isHere).1,
          same.recorded.trans (outcome isHere).2⟩) ?_ fun _ _ _ => trivial
      intro exit st'' v4 sameLaunch stopped noted'
      refine wp_cleanUp noted'.holds stopped ?_ (fun _ _ _ => trivial)
        fun _ _ _ => trivial
      intro isHere
      exact (noted'.launched.trans same.launched).trans
        (outcome (sameLaunch.id.trans isHere)).1
    · intro e st' v2 isFailed
      simp only
      rw [Fallible.wp_bind, Fallible.wp_attempt]
      refine wp_remove _ ?_ trivial fun _ => trivial
      intro isHere
      obtain ⟨launched, ⟨old, rest, seen, notStopped⟩, _⟩ :=
        isFailed.outcome (isFailed.here.symm.trans isHere)
      exact .inl ⟨launched, old, rest, seen, fun stopped =>
        (notStopped stopped).elim⟩

end Conduct

/-- Every command but `create` keeps to the discipline. -/
theorem Command.follows [F64Ops]
    {command : Command}
    (notCreate : ∀ st, command ≠ .create st)
    (id : String)
    (faults : Prop) :
    (conduct id faults).Follows { command } command.program.run := by
  cases command with
  | create st =>
      exact (notCreate st rfl).elim
  | start i rounds =>
      exact Conduct.follows_of_fine (Conduct.fine_start i rounds).done
  | startAttached i rounds =>
      exact Conduct.follows_of_fine (Conduct.fine_attached i rounds).done
  | shim i rounds =>
      exact Conduct.follows_shim
  | kill i signal all =>
      exact Conduct.follows_of_fine (Conduct.fine_kill i signal all)
  | stop i rounds =>
      refine Conduct.follows_of_fine (Conduct.Fine.done ?_)
      exact Conduct.wp_stop i rounds (by simp) rfl (fun _ _ _ => trivial)
        fun _ _ _ => trivial
  | pause i =>
      exact Conduct.follows_of_fine (Conduct.fine_pause i)
  | unpause i =>
      exact Conduct.follows_of_fine (Conduct.fine_unpause i)
  | delete i force rounds =>
      exact Conduct.follows_of_fine (Conduct.fine_delete i force rounds)
  | wait i timed rounds =>
      exact Conduct.follows_of_fine (Conduct.fine_wait i timed rounds).done
  | list =>
      refine Conduct.follows_of_fine ?_
      rw [Conduct.Fine, Command.program, Fallible.wp_bind]
      refine Conduct.wp_list ?_ fun _ => trivial
      intro states v' all
      exact Conduct.fine_reconcileEach states all
  | inspect i =>
      exact Conduct.follows_of_fine (Conduct.fine_inspect i)
  | gc =>
      exact Conduct.follows_of_fine Conduct.fine_gc.done

/-! ## Runs of commands -/

/-- A world in which commands are about to run. -/
def Command.launchpad [F64Ops] (world : World)
    (commands : Pid → Option Command) : runtime.Config where
  world
  process pid := (commands pid).map fun command => command.program.run

/-- The view of a process at the start. -/
def View.first (commands : Pid → Option Command) (pid : Pid) : View where
  command := (commands pid).getD .list

/-- The view of a forked shim. -/
def View.begun : (op : Op) → Ans op → View
  | .forkShim id rounds, _ => { command := .shim id rounds }
  | _, _ => { command := .list }

/-- A step leaves the command. -/
theorem View.after_command
    {id : String}
    {v : View}
    {op : Op}
    {answer : Ans op} :
    (v.after id op answer).command = v.command := by
  cases op <;> (try cases answer) <;> simp only [View.after, View.note] <;>
    (try split) <;> rfl

/-- The views of the processes after a run of commands. -/
def commandViews [F64Ops] (id : String) (faults : Prop)
    (commands : Pid → Option Command) :
    List runtime.Event → runtime.Pid → View :=
  System.views (conduct id faults) View.begun (View.first commands)

/-- No injected fault fires, unless they may. -/
def faultFree (faults : Prop) : (op : Op) → Ans op → Prop
  | .host (.fault _), answer => answer = .ok () ∨ faults
  | _, _ => True

/-- Where faults are on, every answer is allowed. -/
theorem faultFree_of_allowed
    {op : Op}
    (answer : Ans op) :
    faultFree True op answer := by
  cases op with
  | host op =>
      cases op with
      | fault point =>
          exact .inr trivial
      | _ =>
          exact trivial
  | _ =>
      exact trivial

/-- The answers of the world are credible. -/
theorem World.credible_of_answer
    {w w' : World}
    {self : Pid}
    {op : Op}
    {answer : Ans op}
    {faults : Prop}
    (answered : w.answer self op answer = some w')
    (quiet : faultFree faults op answer) :
    conductCredible faults op answer := by
  cases op with
  | readState i =>
      rintro st rfl
      have found : w.state? i = some st := by
        have known := World.provided_eq_some.mp answered
        exact known.1
      exact World.state?_id found
  | openLock i =>
      rintro file rfl
      have known := World.provided_eq_some.mp answered
      rw [known.1]
  | dirEntries =>
      rintro names rfl
      have known := World.provided_eq_some.mp answered
      rw [known.1]
      exact List.nodup_dedup _
  | host op =>
      cases op with
      | fault point =>
          exact quiet
      | _ =>
          exact trivial
  | _ =>
      exact trivial

/-- Every command follows the conduct on its way from launch to end. -/
theorem Command.disciplined [F64Ops]
    {world : World}
    {commands : Pid → Option Command}
    (noCreate : ∀ pid st, commands pid ≠ some (.create st))
    {allowed : List runtime.Event → runtime.Config → runtime.Event → Prop}
    {faults : Prop}
    (quiet : ∀ past c pid op answer,
      allowed past c (.call pid op answer) → faultFree faults op answer)
    (id : String) :
    System.Disciplined (conduct id faults) View.begun (View.first commands)
      allowed (Command.launchpad world commands) where
  initially := by
    intro pid p running
    obtain ⟨command, isCommand, rfl⟩ := Option.map_eq_some_iff.mp running
    have first : View.first commands pid = { command } := by
      simp [View.first, isCommand]
    rw [first]
    refine Command.follows ?_ id faults
    rintro st rfl
    exact noCreate pid st isCommand
  started := by
    intro op answer child p starts
    cases op with
    | forkShim i rounds =>
        cases answer with
        | error e =>
            simp [runtime] at starts
        | ok pid =>
            obtain ⟨rfl, rfl⟩ := Prod.mk.inj (Option.some.inj starts)
            exact Command.follows (by simp) id faults
    | _ =>
        simp [runtime] at starts
  answers := by
    intro past c pid op answer world' answered permitted
    exact World.credible_of_answer answered
      (quiet past c pid op answer permitted)

/-! ## The effect of one operation -/

/-- The record of the container that an operation wrote. -/
def Op.saved? (id : String) : (op : Op) → Ans op →
    Option (SavePoint × ContainerState)
  | .writeState place st, .ok _ =>
      if st.id = id then some (place, st) else none
  | _, _ => none

/-- The record of the container that an operation read. -/
def Op.loaded? (id : String) : (op : Op) → Ans op → Option ContainerState
  | .readState i, .ok st => if i = id then some st else none
  | _, _ => none

/-- What an operation does to the record of the container, in the store and in
the view of the process. -/
inductive RecordEffect (id : String) (w w' : World) (v v' : View) :
    (op : Op) → Ans op → Prop where
  | wrote
      {place : SavePoint}
      {st : ContainerState}
      (here : st.id = id)
      (file : w'.state? id = some st)
      (seen : v'.seen = st :: v.seen) :
      RecordEffect id w w' v v' (.writeState place st) (.ok ())
  | failedToWrite
      {place : SavePoint}
      {st : ContainerState}
      {e : Error}
      (here : st.id = id)
      (file : w'.state? id = w.state? id)
      (seen : v'.seen = st :: v.seen) :
      RecordEffect id w w' v v' (.writeState place st) (.error e)
  | read
      {st : ContainerState}
      (file : w'.state? id = w.state? id)
      (found : w.state? id = some st)
      (seen : v'.seen = st :: v.seen) :
      RecordEffect id w w' v v' (.readState id) (.ok st)
  | other
      {op : Op}
      {answer : Ans op}
      (notSaved : op.saved? id answer = none)
      (notLoaded : op.loaded? id answer = none)
      (file : w'.state? id = w.state? id ∨
        (∃ i, op = .removeDir i ∧ i = id) ∧ w'.state? id = none)
      (seen : v'.seen = v.seen ∨ v'.seen = []) :
      RecordEffect id w w' v v' op answer

/-- What a step of the world does to the record and the view of it. -/
theorem recordEffect_of_answer
    {w w' : World}
    {self : Pid}
    {op : Op}
    {answer : Ans op}
    (answered : w.answer self op answer = some w')
    (id : String)
    (v : View) :
    RecordEffect id w w' v (v.after id op answer) op answer := by
  have change := World.stateChange_of_answer answered id
  cases op with
  | writeState place st =>
      by_cases here : st.id = id
      · have seen : (v.after id (.writeState place st) answer).seen =
            st :: v.seen := by
          simp [View.after, View.note, here]
        cases answer with
        | ok u =>
            refine .wrote here ?_ seen
            obtain rfl : w.putState st = w' := by
              simpa [World.answer] using answered
            exact here ▸ World.state?_putState_same w st
        | error e =>
            refine .failedToWrite here ?_ seen
            obtain rfl : w = w' := by
              simpa [World.answer] using answered
            rfl
      · refine .other ?_ rfl ?_ (.inl ?_)
        · cases answer <;> simp [Op.saved?, here]
        · cases change with
          | none same =>
              exact .inl same
          | written isHere _ =>
              exact (here isHere).elim
        · simp [View.after, here]
  | readState i =>
      have file : w'.state? id = w.state? id := by
        cases change with
        | none same =>
            exact same
      cases answer with
      | error e =>
          exact .other rfl rfl (.inl file) (.inl rfl)
      | ok st =>
          have found : w.state? i = some st :=
            (World.provided_eq_some.mp answered).1
          by_cases here : i = id
          · subst here
            refine .read file found ?_
            simp [View.after, View.note, World.state?_id found]
          · have other : st.id ≠ id := by
              rw [World.state?_id found]
              exact here
            refine .other rfl ?_ (.inl file) (.inl ?_)
            · simp [Op.loaded?, here]
            · simp [View.after, View.note, other]
  | removeDir i =>
      refine .other rfl rfl ?_ (.inl rfl)
      cases change with
      | none same =>
          exact .inl same
      | removed gone =>
          exact .inr ⟨⟨id, rfl, rfl⟩, gone⟩
  | readNotify shim =>
      have file : w'.state? id = w.state? id := by
        cases change with
        | none same =>
            exact same
      refine .other rfl rfl (.inl file) (.inr ?_)
      cases answer <;> rfl
  | spin =>
      exact answer.elim
  | _ =>
      have file : w'.state? id = w.state? id := by
        cases change with
        | none same =>
            exact same
      refine .other rfl rfl (.inl file) (.inl ?_)
      first
        | rfl
        | (simp only [View.after]; split <;> rfl)
        | (cases answer <;> simp only [View.after]; split <;> rfl)

end Myrun
