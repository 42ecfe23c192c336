import Mathlib.Logic.Relation
import Myrun.Runtime

namespace Myrun

namespace Records

/-!
# The records of a container over its life

What every operation of the runtime does to the state files when it runs alone:
which records it writes, and from which.  The contract `records` knows the files
and requires of every write that the new record is sound after the old one; each
operation is shown to meet it.
-/

/-- One status leads to another along the edges of the state machine. -/
def Leads : Status → Status → Prop :=
  Relation.ReflTransGen fun a b => a.canTransitionTo b = true

private theorem Leads.edge
    {a b : Status}
    (edge : a.canTransitionTo b = true) :
    Leads a b :=
  .single edge

/-- Every status leads to the last one. -/
theorem leads_stopped (a : Status) : Leads a .stopped := by
  cases a with
  | stopped => exact .refl
  | _ => exact .single rfl

/-- A record whose fields agree with its status. -/
structure Valid (st : ContainerState) : Prop where
  live : st.status.isLive = true → 0 < st.initPid ∧ 0 < st.startedAt
  stopped : st.status = .stopped ↔ 0 < st.finishedAt
  unset : st.status ≠ .stopped →
    st.exitCode = none ∧ st.exitSignal = none ∧ st.finishedAt = 0

/-- A record that may replace another one, or be the first. -/
structure Sound (before : Option ContainerState) (st : ContainerState) :
    Prop where
  valid : Valid st
  leads : ∀ old, before = some old → Leads old.status st.status

/-- The state files. -/
abbrev Files := String → Option ContainerState

/-- All records agree with their status. -/
def AllValid (files : Files) : Prop :=
  ∀ id st, files id = some st → Valid st

/-- What an operation requires of the state files and does to them, when no
other process interferes. -/
def records : Prog.Contract Op Ans Files where
  spec
    | .readState id, files, Q => ∀ answer,
        (∀ st, answer = .ok st → files id = some st ∧ st.id = id) → Q answer files
    | .stateExists id, files, Q => Q (files id).isSome files
    | .writeState _ st, files, Q => Sound (files st.id) st ∧
        Q (.ok ()) (Function.update files st.id (some st)) ∧ ∀ e, Q (.error e) files
    | .removeDir id, files, Q => ∀ answer,
        Q answer files ∧ Q answer (Function.update files id none)
    | .host .now, files, Q => ∀ now : UInt64, 0 < now → Q now files
    | .cloneInit _ _, files, Q => ∀ answer,
        (∀ pid, answer = .ok pid → 0 < pid) → Q answer files
    | _, files, Q => ∀ answer, Q answer files
  mono := by
    intro op files Q R weaker holds
    cases op with
    | host op =>
        cases op with
        | now => exact fun now positive => weaker _ _ (holds now positive)
        | _ => exact fun answer => weaker _ _ (holds answer)
    | readState id => exact fun answer known => weaker _ _ (holds answer known)
    | stateExists id => exact weaker _ _ holds
    | writeState place st =>
        exact ⟨holds.1, weaker _ _ holds.2.1, fun e => weaker _ _ (holds.2.2 e)⟩
    | removeDir id =>
        exact fun answer => ⟨weaker _ _ (holds answer).1, weaker _ _ (holds answer).2⟩
    | cloneInit id cgroup =>
        exact fun answer known => weaker _ _ (holds answer known)
    | _ => exact fun answer => weaker _ _ (holds answer)

/-! ## Valid records -/

section Valid

variable {st : ContainerState} {now : UInt64}

private theorem finishedBy_pos
    (st : ContainerState)
    (positive : 0 < now) :
    0 < (st.finishedBy now).finishedAt := by
  unfold ContainerState.finishedBy
  split
  · exact positive
  · rename_i set
    exact UInt64.pos_iff_ne_zero.mpr set

private theorem startedBy_pos
    (st : ContainerState)
    (known : 0 < st.startedAt ∨ 0 < now) :
    0 < (st.startedBy now).startedAt := by
  unfold ContainerState.startedBy
  split
  · rename_i unset
    rcases known with set | positive
    · exact absurd unset (UInt64.pos_iff_ne_zero.mp set)
    · exact positive
  · rename_i set
    exact UInt64.pos_iff_ne_zero.mpr set

/-- A stopped record with the time at which it stopped is valid. -/
theorem valid_of_stopped
    (stopped : st.status = .stopped)
    (finished : 0 < st.finishedAt) :
    Valid st where
  live isLive := by
    simp [stopped, Status.isLive] at isLive
  stopped := ⟨fun _ => finished, fun _ => stopped⟩
  unset notStopped := absurd stopped notStopped

/-- A record that is not stopped is valid when nothing of its end is set. -/
theorem valid_of_unset
    (notStopped : st.status ≠ .stopped)
    (live : st.status.isLive = true → 0 < st.initPid ∧ 0 < st.startedAt)
    (exitCode : st.exitCode = none)
    (exitSignal : st.exitSignal = none)
    (finishedAt : st.finishedAt = 0) :
    Valid st where
  live := live
  stopped := by
    rw [finishedAt]
    exact ⟨fun stopped => absurd stopped notStopped, fun positive =>
      absurd positive (UInt64.lt_irrefl 0)⟩
  unset _ := ⟨exitCode, exitSignal, finishedAt⟩

private theorem startedBy_eq
    (st : ContainerState)
    (now : UInt64) :
    st.startedBy now = { st with startedAt := (st.startedBy now).startedAt } := by
  unfold ContainerState.startedBy
  split <;> rfl

/-- Entering a status that is not the last one. -/
theorem Valid.enter
    (valid : Valid st)
    {next : Status}
    (edge : st.status.canTransitionTo next = true)
    (notStopped : next ≠ .stopped)
    (known : next.isLive = true → 0 < st.initPid ∧
      (0 < st.startedAt ∨ next = .running ∧ 0 < now)) :
    Valid (st.enter next now) := by
  have stillOpen : st.status ≠ .stopped := by
    intro stopped
    rw [stopped] at edge
    simp [Status.canTransitionTo] at edge
  obtain ⟨exitCode, exitSignal, finishedAt⟩ := valid.unset stillOpen
  have unset : (st.enter next now).exitCode = none ∧
      (st.enter next now).exitSignal = none ∧
      (st.enter next now).finishedAt = 0 := by
    cases next with
    | stopped => exact absurd rfl notStopped
    | running =>
        simp only [ContainerState.enter]
        rw [startedBy_eq]
        exact ⟨exitCode, exitSignal, finishedAt⟩
    | _ => exact ⟨exitCode, exitSignal, finishedAt⟩
  refine valid_of_unset ?_ ?_ unset.1 unset.2.1 unset.2.2
  · simpa using notStopped
  · rw [ContainerState.enter_status]
    intro live
    obtain ⟨hasInit, hasStarted⟩ := known live
    cases next with
    | running =>
        have started : 0 < st.startedAt ∨ 0 < now :=
          hasStarted.imp_right And.right
        refine ⟨?_, startedBy_pos { st with status := .running } started⟩
        simp only [ContainerState.enter]
        rw [startedBy_eq]
        exact hasInit
    | paused => exact ⟨hasInit, hasStarted.resolve_right (by simp)⟩
    | stopping => exact ⟨hasInit, hasStarted.resolve_right (by simp)⟩
    | _ => simp [Status.isLive] at live

/-- A live record that moves on to another live status, or stays. -/
theorem Valid.transition_live
    (valid : Valid st)
    (live : st.status.isLive = true)
    {next : Status}
    (nextLive : next.isLive = true)
    {st' : ContainerState}
    (moved : st.transition next now = .ok st') :
    Valid st' ∧ Leads st.status st'.status := by
  rcases ContainerState.transition_cases moved with ⟨_, rfl⟩ | ⟨edge, rfl⟩
  · exact ⟨valid, .refl⟩
  · refine ⟨valid.enter edge ?_ ?_, ?_⟩
    · rintro rfl
      simp [Status.isLive] at nextLive
    · exact fun _ => ⟨(valid.live live).1, .inl (valid.live live).2⟩
    · rw [ContainerState.enter_status]
      exact .edge edge

private theorem Valid.markGone
    (st : ContainerState)
    (positive : 0 < now) :
    Valid (st.markGone now) := by
  have finished := finishedBy_pos { st with status := .stopped } positive
  refine valid_of_stopped ?_ finished
  simp [ContainerState.markGone]

private theorem Valid.markTornDown
    (valid : Valid st)
    (positive : 0 < now) :
    Valid (st.markTornDown now) := by
  unfold ContainerState.markTornDown
  split
  · refine valid_of_stopped ?_ (finishedBy_pos _ positive)
    simp
  · exact valid

private theorem Valid.oomKilled
    (valid : Valid st)
    (oom : Bool) :
    Valid { st with oomKilled := oom } :=
  ⟨valid.live, valid.stopped, valid.unset⟩

end Valid

/-! ## The store -/

section Store

open Prog

variable {α : Type} {files : Files} {err : Error → Files → Prop}

/-- An operation that leaves the state files alone. -/
def Calm : Op → Prop
  | .writeState _ _ => False
  | .removeDir _ => False
  | _ => True

private theorem neutral_of_calm
    {op : Op}
    (calm : Calm op) :
    records.Neutral op := by
  intro files Q holds
  cases op with
  | writeState place st => exact False.elim calm
  | removeDir id => exact False.elim calm
  | host op =>
      cases op with
      | now => exact fun now _ => holds now
      | _ => exact holds
  | readState id => exact fun answer _ => holds answer
  | stateExists id => exact holds _
  | cloneInit id cgroup => exact fun answer _ => holds answer
  | _ => exact holds

private theorem host_neutral (op : HostOp) : records.Neutral (.host op) :=
  neutral_of_calm trivial

private theorem channel_neutral (op : ChannelOp) : records.Neutral (.channel op) :=
  neutral_of_calm trivial

/-- A program that leaves the state files alone. -/
theorem wp_calm
    {p : Act α}
    (calm : OnlyUses Calm p.run)
    {ok : α → Files → Prop}
    (okHolds : ∀ value, ok value files)
    (errHolds : ∀ e, err e files) :
    p.wp records files ok err := by
  have neutral : OnlyUses records.Neutral p.run := calm.mono fun _ => neutral_of_calm
  refine neutral.wp ?_
  intro result
  cases result with
  | ok value => exact okHolds value
  | error e => exact errHolds e

theorem calm_host (op : HostOp) : Calm (.host op) :=
  trivial

theorem calm_procStat (pid : Pid) : Calm (.procStat pid) :=
  trivial

private theorem calm_waitPid (pid : Pid) (nohang : Bool) : Calm (.waitPid pid nohang) :=
  trivial

theorem wp_host
    {p : HostAct α}
    {ok : α → Files → Prop}
    (okHolds : ∀ value, ok value files)
    (errHolds : ∀ e, err e files) :
    (liftM p : Act α).wp records files ok err :=
  wp_calm (uses_host calm_host p) okHolds errHolds

private theorem wp_now
    {ok : UInt64 → Files → Prop}
    (holds : ∀ now, 0 < now → ok now files) :
    (liftM nowMs : Act UInt64).wp records files ok err :=
  holds

theorem wp_transition
    {st : ContainerState}
    {next : Status}
    {ok : ContainerState → Files → Prop}
    (okHolds : ∀ st' now, 0 < now → st.transition next now = .ok st' →
      ok st' files)
    (errHolds : ∀ e, err e files) :
    (liftM (transitionNow st next) : Act ContainerState).wp records files ok
      err := by
  intro now positive
  change Fallible.onResult ok err (st.transition next now) files
  cases moved : st.transition next now with
  | ok st' => exact okHolds st' now positive moved
  | error e => exact errHolds e

theorem wp_load
    {id : String}
    {ok : ContainerState → Files → Prop}
    (okHolds : ∀ st, files id = some st → st.id = id → ok st files)
    (errHolds : ∀ e, err e files) :
    (Store.load id).wp records files ok err := by
  intro answer known
  cases answer with
  | ok st => exact okHolds st (known st rfl).1 (known st rfl).2
  | error e => exact errHolds e

theorem wp_save
    {place : SavePoint}
    {st : ContainerState}
    (sound : Sound (files st.id) st)
    {ok : Unit → Files → Prop}
    (okHolds : ok () (Function.update files st.id (some st)))
    (errHolds : ∀ e, err e files) :
    (Store.save place st).wp records files ok err :=
  ⟨sound, okHolds, errHolds⟩

theorem wp_initIsAlive
    (st : ContainerState)
    {ok : Bool → Files → Prop}
    (okHolds : ∀ alive, ok alive files)
    (errHolds : ∀ e, err e files) :
    st.initIsAlive.wp records files ok err :=
  wp_calm (uses_initIsAlive calm_procStat st) okHolds errHolds

private theorem AllValid.update
    (valid : AllValid files)
    {st : ContainerState}
    (new : Valid st) :
    AllValid (Function.update files st.id (some st)) := by
  intro id old found
  by_cases same : id = st.id
  · subst same
    rw [Function.update_self] at found
    obtain rfl := Option.some.inj found
    exact new
  · rw [Function.update_of_ne same] at found
    exact valid id old found

private theorem AllValid.remove
    (valid : AllValid files)
    (id : String) :
    AllValid (Function.update files id none) := by
  intro other old found
  by_cases same : other = id
  · subst same
    simp at found
  · rw [Function.update_of_ne same] at found
    exact valid other old found

theorem wp_remove
    (valid : AllValid files)
    {id : String}
    {ok : Unit → Files → Prop}
    (okHolds : ∀ files', AllValid files' → ok () files')
    (errHolds : ∀ e files', AllValid files' → err e files') :
    (Store.remove id).wp records files ok err := by
  rw [Store.remove, Fallible.wp_bind, Fallible.wp_liftM]
  intro answer
  cases answer with
  | removed => exact ⟨okHolds _ valid, okHolds _ (valid.remove id)⟩
  | failed stateGone e =>
      exact ⟨errHolds e _ valid, errHolds e _ (valid.remove id)⟩

/-- A record that is in its file, among valid ones. -/
structure Current (files : Files) (st : ContainerState) : Prop where
  valid : AllValid files
  here : files st.id = some st

theorem Current.save
    {st new : ContainerState}
    (current : Current files st)
    (valid : Valid new)
    (same : new.id = st.id)
    (leads : Leads st.status new.status) :
    Sound (files new.id) new ∧
      Current (Function.update files new.id (some new)) new := by
  refine ⟨⟨valid, ?_⟩, current.valid.update valid, by simp⟩
  intro old found
  rw [same, current.here] at found
  obtain rfl := Option.some.inj found
  exact leads

private theorem sound_of_stopped
    {st : ContainerState}
    (valid : Valid st)
    (stopped : st.status = .stopped)
    (before : Option ContainerState) :
    Sound before st :=
  ⟨valid, fun old _ => stopped ▸ leads_stopped old.status⟩

theorem wp_reconcile
    {st : ContainerState}
    (current : Current files st)
    {ok : Bool × ContainerState → Files → Prop}
    (okHolds : ∀ corrected st' files', Current files' st' → st'.id = st.id →
      ok (corrected, st') files')
    (errHolds : ∀ e, err e files) :
    (Store.reconcile st).wp records files ok err := by
  unfold Store.reconcile
  split
  · exact okHolds false st files current rfl
  · rw [Fallible.wp_bind]
    refine wp_initIsAlive st ?_ errHolds
    intro alive
    cases alive with
    | true => exact okHolds false st files current rfl
    | false =>
        refine (Fallible.wp_bind _ _ _ _).mpr ?_
        refine wp_now ?_
        intro now positive
        have stopped : (st.markGone now).status = .stopped := by
          simp [ContainerState.markGone]
        have saved := current.save (Valid.markGone st positive)
          (ContainerState.markGone_id st now) (stopped ▸ leads_stopped _)
        refine (Fallible.wp_bind _ _ _ _).mpr ?_
        refine wp_save saved.1 ?_ errHolds
        exact okHolds true _ _ saved.2 (ContainerState.markGone_id st now)

theorem wp_loadReconciled
    {id : String}
    (valid : AllValid files)
    {ok : ContainerState → Files → Prop}
    (okHolds : ∀ st files', Current files' st → st.id = id → ok st files')
    (errHolds : ∀ e, err e files) :
    (Store.loadReconciled id).wp records files ok err := by
  rw [Store.loadReconciled, Fallible.wp_bind]
  refine wp_load ?_ errHolds
  intro st found sameId
  rw [Fallible.wp_bind]
  refine wp_reconcile ⟨valid, sameId ▸ found⟩ ?_ errHolds
  intro corrected st' files' current sameId'
  exact okHolds st' files' current (sameId'.trans sameId)

theorem wp_withLock
    {id : String}
    {body : Act α}
    {ok : α → Files → Prop}
    (holds : body.wp records files ok err)
    (errHolds : ∀ e, err e files) :
    (Store.withLock id body).wp records files ok err := by
  rw [Store.withLock, Fallible.wp_bind]
  refine wp_calm ?_ ?_ errHolds
  · refine Fallible.uses_bind (.perform trivial) fun _ => ?_
    exact Fallible.uses_bind (.perform trivial) fun _ => .ret _
  · intro file
    rw [Fallible.wp_bind, Fallible.wp_attempt]
    have unlocking : records.Neutral (.funlock file) := neutral_of_calm trivial
    refine Fallible.wp_consequence ?_ ?_ holds
    · intro value files' held
      exact unlocking _ _ fun _ => held
    · intro e files' held
      exact unlocking _ _ fun _ => held

end Store

/-! ## The end of a container -/

section Ends

open Prog

variable {α : Type} {files : Files} {err : Error → Files → Prop}

private theorem wp_killInit
    (st : ContainerState)
    {ok : Unit → Files → Prop}
    (okHolds : ok () files)
    (errHolds : ∀ e, err e files) :
    (Supervisor.killInit st).wp records files ok err :=
  wp_calm (uses_killInit calm_host calm_procStat calm_waitPid st)
    (fun _ => okHolds) errHolds

/-- A record that a teardown may write: it is in its file, or it is stopped. -/
def Fits (files : Files) (st : ContainerState) : Prop :=
  files st.id = some st ∨ st.status = .stopped

private theorem markTornDown_status
    (st : ContainerState)
    (now : UInt64) :
    (st.markTornDown now).status =
      if st.status.isLive then .stopped else st.status := by
  unfold ContainerState.markTornDown
  split <;> simp

private theorem leads_markTornDown
    (st : ContainerState)
    (now : UInt64) :
    Leads st.status (st.markTornDown now).status := by
  rw [markTornDown_status]
  split
  · exact leads_stopped _
  · exact .refl

private theorem Fits.sound
    {st : ContainerState}
    {now : UInt64}
    (fits : Fits files st)
    (valid : Valid st)
    (positive : 0 < now)
    (oom : Bool) :
    Sound (files st.id)
      (({ st with oomKilled := oom } : ContainerState).markTornDown now) := by
  refine ⟨(valid.oomKilled oom).markTornDown positive, ?_⟩
  intro old found
  rcases fits with here | stopped
  · rw [here] at found
    obtain rfl := Option.some.inj found
    exact leads_markTornDown ({ st with oomKilled := oom } : ContainerState) now
  · rw [markTornDown_status]
    simp only [stopped, Status.isLive]
    exact leads_stopped _

theorem wp_teardown
    {st : ContainerState}
    (all : AllValid files)
    (valid : Valid st)
    (fits : Fits files st)
    {ok : ContainerState → Files → Prop}
    (okHolds : ∀ st' files', AllValid files' → st'.id = st.id → ok st' files')
    (errHolds : ∀ e, err e files) :
    (Supervisor.teardown st).wp records files ok err := by
  rw [Supervisor.teardown]
  simp only [Fallible.wp_bind]
  refine wp_host ?_ errHolds
  intro _
  refine wp_killInit st ?_ errHolds
  refine wp_host ?_ errHolds
  intro oom
  refine wp_host ?_ errHolds
  intro _
  refine wp_now ?_
  intro now positive
  rw [Fallible.wp_attempt]
  have record : ∃ killed, (if oom = true then { st with oomKilled := true }
      else st) = { st with oomKilled := killed } := by
    cases oom with
    | true => exact ⟨true, rfl⟩
    | false => exact ⟨st.oomKilled, rfl⟩
  obtain ⟨killed, isRecord⟩ := record
  rw [isRecord]
  have sound := fits.sound valid positive killed
  have sameId := ContainerState.markTornDown_id
    ({ st with oomKilled := killed } : ContainerState) now
  refine wp_save ?_ ?_ ?_
  · rw [sameId]
    exact sound
  · exact okHolds _ _ (all.update sound.valid) sameId
  · intro e
    exact okHolds _ _ all sameId

private theorem spin_neutral : records.Neutral .spin :=
  neutral_of_calm trivial

/-- The record of an exit. -/
theorem exited
    (st : ContainerState)
    (running : st.status = .running)
    (exit : ExitStatus)
    {now : UInt64}
    (positive : 0 < now) :
    ∃ moved, (st.recordExit exit now).transition .stopped now = .ok moved ∧
      moved.id = st.id ∧ moved.status = .stopped ∧ Valid moved := by
  have stillRunning : (st.recordExit exit now).status = .running := by
    simp [ContainerState.recordExit, running]
  have moves : (st.recordExit exit now).transition .stopped now =
      .ok ((st.recordExit exit now).enter .stopped now) := by
    simp [ContainerState.transition, stillRunning, Status.canTransitionTo]
  refine ⟨_, moves, ?_, by simp, ?_⟩
  · simp [ContainerState.enter, ContainerState.recordExit]
  · exact valid_of_stopped (by simp) (finishedBy_pos _ positive)

theorem wp_waitForExit
    {rounds : Nat}
    {st : ContainerState}
    {running : Running}
    (all : AllValid files)
    (isRunning : st.status = .running)
    {ok : ExitStatus × ContainerState → Files → Prop}
    (okHolds : ∀ exit st' files', AllValid files' → st'.status = .stopped →
      Valid st' → ok (exit, st') files')
    (errHolds : ∀ e, err e files) :
    (Supervisor.waitForExit rounds st running).wp records files ok err := by
  rw [Supervisor.waitForExit, Fallible.wp_bind]
  refine wp_recvLoop_of_neutral channel_neutral spin_neutral _ _ _ _ ?_
  intro error fromInit
  rw [Fallible.wp_bind]
  refine wp_calm (.perform trivial) ?_ errHolds
  intro waited
  rw [Fallible.wp_bind]
  refine wp_host_of_yields host_neutral (noteOom_yields _ _) ?_ errHolds
  rintro _ ⟨oom, rfl⟩
  rw [Fallible.wp_bind]
  refine wp_now ?_
  intro now positive
  obtain ⟨moved, moves, sameId, stopped, valid⟩ := exited
    { st with error := error, oomKilled := oom } isRunning
    ((fromInit.or waited).getD { code := some (-1), signal := none }) positive
  simp only [moves]
  rw [Fallible.wp_bind]
  refine wp_save (sound_of_stopped valid stopped _) ?_ errHolds
  exact okHolds _ moved _ (all.update valid) stopped valid

/-- The end of the shim, after the exit was recorded. -/
theorem wp_cleanUp
    (exit : ExitStatus)
    {st : ContainerState}
    (all : AllValid files)
    (stopped : st.status = .stopped)
    (valid : Valid st) :
    (Shim.cleanUp exit st).wp records files (fun _ files' => AllValid files')
      fun _ files' => AllValid files' := by
  rw [Shim.cleanUp, Fallible.wp_bind]
  refine wp_teardown all valid (.inr stopped) ?_ fun _ => all
  intro st' files' all' _
  split
  · rw [Fallible.wp_bind, Fallible.wp_attempt]
    exact wp_remove all' (fun _ => id) fun _ _ => id
  · exact all'

end Ends

/-! ## Launching -/

section Launch

open Prog

variable {files : Files} {st : ContainerState}

/-- A record as `launch` fills it in before it runs: what its status and the
times depend on is as it was. -/
structure Draft (st draft : ContainerState) : Prop where
  id : draft.id = st.id
  status : draft.status = st.status
  exitCode : draft.exitCode = st.exitCode
  exitSignal : draft.exitSignal = st.exitSignal
  finishedAt : draft.finishedAt = st.finishedAt

/-- What holds when a launch has failed. -/
def LaunchFailed (st : ContainerState) (_ : Error) (s : Launching)
    (files : Files) : Prop :=
  AllValid files ∧ s.st.id = st.id

private theorem wp_createCgroup [F64Ops]
    (id : String)
    (res : Resources)
    {s : Launching}
    (draft : Draft st s.st)
    (all : AllValid files)
    {ok : Option Cgroup → Launching → Files → Prop}
    (okHolds : ∀ cgroup s', Draft st s'.st → ok cgroup s' files) :
    (Supervisor.createCgroup id res).wp records s files ok (LaunchFailed st) := by
  have failed : ∀ e, LaunchFailed st e s files := fun _ => ⟨all, draft.id⟩
  rw [Supervisor.createCgroup, Staged.wp_bind]
  refine wp_task_host_of_neutral host_neutral ?_ failed
  intro result
  cases result with
  | ok cg =>
      exact okHolds _ _ ⟨draft.id, draft.status, draft.exitCode,
        draft.exitSignal, draft.finishedAt⟩
  | error e =>
      simp only
      split
      · exact okHolds none s draft
      · exact failed e

/-- The record of a launch that succeeds. -/
theorem started
    {draft moved : ContainerState}
    {now : UInt64}
    (moves : draft.transition .running now = .ok moved)
    (isDraft : Draft st draft)
    (valid : Valid st)
    (created : st.status = .created)
    (hasInit : 0 < draft.initPid)
    (positive : 0 < now) :
    Valid moved ∧ Leads st.status moved.status := by
  have draftValid : Valid draft := by
    obtain ⟨exitCode, exitSignal, finishedAt⟩ := valid.unset (by simp [created])
    refine valid_of_unset ?_ ?_ (isDraft.exitCode.trans exitCode)
      (isDraft.exitSignal.trans exitSignal) (isDraft.finishedAt.trans finishedAt)
    · simp [isDraft.status, created]
    · intro live
      simp [isDraft.status, created, Status.isLive] at live
  rcases ContainerState.transition_cases moves with ⟨same, _⟩ | ⟨edge, rfl⟩
  · rw [isDraft.status, created] at same
    simp at same
  · refine ⟨draftValid.enter edge (by simp) fun _ =>
      ⟨hasInit, .inr ⟨rfl, positive⟩⟩, ?_⟩
    rw [ContainerState.enter_status, created]
    exact .edge rfl

private theorem wp_launchBody [F64Ops]
    (current : Current files st)
    (created : st.status = .created) :
    Supervisor.launchBody.wp records { st, undo := [] } files
      (fun _ s files' => Current files' s.st ∧ s.st.status = .running)
      (LaunchFailed st) := by
  have all := current.valid
  simp only [Supervisor.launchBody, Staged.wp_bind, Staged.wp_get]
  refine wp_createCgroup _ _ ⟨rfl, rfl, rfl, rfl, rfl⟩ all ?_
  intro cgroup s draft
  have failed : ∀ e undo st', st'.id = st.id →
      LaunchFailed st e { st := st', undo } files :=
    fun _ _ _ sameId => ⟨all, sameId⟩
  have failedHere : ∀ e, LaunchFailed st e s files := fun _ => ⟨all, draft.id⟩
  refine wp_task_host_of_neutral host_neutral ?_ failedHere
  intro _
  refine wp_task_host_of_neutral host_neutral ?_ failedHere
  intro _
  refine wp_task_host_of_neutral host_neutral ?_ failedHere
  intro _
  refine wp_task_host_of_neutral host_neutral ?_ failedHere
  intro placed
  refine wp_task_host_of_neutral host_neutral ?_ failedHere
  intro _
  rw [Staged.wp_liftM]
  intro answer known
  cases answer with
  | error e =>
      exact failedHere e
  | ok pid =>
      have hasInit : 0 < pid := known pid rfl
      refine wp_task_host_of_neutral host_neutral ?_ failedHere
      intro _
      simp only [wp_pushUndo]
      refine wp_task_host_of_neutral host_neutral ?_ fun e => failed e _ _ draft.id
      intro _
      simp only [wp_setState]
      rw [Staged.wp_liftM]
      refine wp_calm (uses_readStartTime calm_procStat pid) ?_
        fun e => failed e _ _ draft.id
      intro startTime
      rw [Staged.wp_liftM]
      refine wp_expectFrame_of_neutral channel_neutral pid .ready ?_
        fun e => failed e _ _ draft.id
      refine wp_hostTask_of_neutral host_neutral (Grows.setupHost _ _) ?_
        fun e undo _ => failed e undo _ draft.id
      intro net undo _
      rw [Staged.wp_liftM]
      refine wp_writeNetstate_of_neutral channel_neutral _ net ?_
        fun e => failed e _ _ draft.id
      rw [Staged.wp_liftM]
      refine wp_sendGo_of_neutral channel_neutral pid ?_
        fun e => failed e _ _ draft.id
      rw [Staged.wp_liftM]
      refine wp_expectFrame_of_neutral channel_neutral pid .started ?_
        fun e => failed e _ _ draft.id
      refine (Staged.wp_liftM (liftM (transitionNow _ .running) : Act _) _ _).mpr ?_
      refine wp_transition ?_ fun e => failed e _ _ draft.id
      intro moved now positive moves
      obtain ⟨valid, leads⟩ := started moves
        ⟨draft.id, draft.status, draft.exitCode, draft.exitSignal,
          draft.finishedAt⟩ (all _ _ current.here) created hasInit positive
      have sameId : moved.id = st.id :=
        (ContainerState.SameLaunch.transition moves).id.symm.trans draft.id
      have cleared : Valid { moved with error := none } :=
        ⟨valid.live, valid.stopped, valid.unset⟩
      have isRunning : moved.status = .running :=
        ContainerState.transition_status moves
      obtain ⟨sound, published⟩ := current.save cleared sameId leads
      rw [Staged.wp_liftM]
      refine wp_save sound ?_ fun e => failed e _ _ sameId
      refine wp_task_host_of_neutral host_neutral ?_
        fun e => ⟨published.valid, sameId⟩
      intro _
      exact ⟨published, isRunning⟩

/-- `launch`: a record that runs and is in its file, or a failure. -/
theorem wp_launch [F64Ops]
    (current : Current files st)
    {Q : Result Running × ContainerState → Files → Prop}
    (okHolds : ∀ running st' files', Current files' st' →
      st'.status = .running → Q (.ok running, st') files')
    (errHolds : ∀ e st' files', AllValid files' → st'.id = st.id →
      Q (.error e, st') files') :
    (Supervisor.launch st).wp records files Q := by
  unfold Supervisor.launch
  split
  · exact errHolds _ st files current.valid rfl
  · rename_i created
    rw [wp_bind]
    intro _
    rw [wp_ret, wp_bind]
    refine wp_mono ?_ (wp_launchBody current (not_not.mp created))
    rintro ⟨result, s⟩ files' known
    cases result with
    | ok running =>
        exact okHolds running s.st files' known.1 known.2
    | error e =>
        simp only [Supervisor.settle, wp_bind]
        have unwound : OnlyUses Calm (Undo.unwind s.undo).run :=
          uses_unwind calm_host calm_waitPid s.undo
        refine (unwound.mono fun _ => neutral_of_calm).wp ?_
        intro _
        exact errHolds e s.st files' known.1 known.2

end Launch

/-! ## The operations -/

section Operations

open Prog

variable {files : Files} {α : Type}

/-- An operation after which all records are valid. -/
def Keeps (p : Act α) : Prop :=
  ∀ files, AllValid files → p.wp records files (fun _ files' => AllValid files')
    fun _ files' => AllValid files'

/-- The shim up to its report: `run` until `notify`. -/
def launched [F64Ops] (id : String) : Act (ContainerState × Running) := do
  prepare .openStore
  let st ← Store.load id
  prepare .redirectOutput
  let (result, st) ← Supervisor.launch st
  match result with
  | .ok running => do
      let own ← ask .getpid
      let st := { st with shimPid := own }
      Store.save .shim st
      ask (.notify
        { ok := true, message := st.id ++ " " ++ toString running.pid.toInt })
      return (st, running)
  | .error e => do
      let now ← nowMs
      let _ ← (Store.save .launchFailed (Shim.failedState st e now)).attempt
      .ofExcept (.error e)

private theorem Valid.failedState
    (st : ContainerState)
    (e : Error)
    {now : UInt64}
    (positive : 0 < now) :
    Valid (Shim.failedState st e now) :=
  valid_of_stopped rfl positive

theorem wp_launched [F64Ops]
    (id : String)
    (all : AllValid files) :
    (launched id).wp records files
      (fun result files' => AllValid files' ∧ result.1.status = .running)
      fun _ files' => AllValid files' := by
  rw [launched, Fallible.wp_bind]
  refine wp_host ?_ fun _ => all
  intro _
  rw [Fallible.wp_bind]
  refine wp_load ?_ fun _ => all
  intro st found sameId
  rw [Fallible.wp_bind]
  refine wp_host ?_ fun _ => all
  intro _
  rw [Fallible.wp_bind, Fallible.wp_liftM]
  refine wp_launch ⟨all, sameId ▸ found⟩ ?_ ?_
  · intro running st' files' current isRunning
    refine (Fallible.wp_bind _ _ _ _).mpr ?_
    rw [Fallible.wp_liftM]
    intro own
    have valid := current.valid _ _ current.here
    obtain ⟨sound, saved⟩ := current.save
      (⟨valid.live, valid.stopped, valid.unset⟩ : Valid { st' with shimPid := own })
      rfl .refl
    refine (Fallible.wp_bind _ _ _ _).mpr ?_
    refine wp_save sound ?_ fun _ => current.valid
    refine (Fallible.wp_bind _ _ _ _).mpr ?_
    rw [Fallible.wp_liftM]
    intro _
    exact ⟨saved.valid, isRunning⟩
  · intro e st' files' all' sameId'
    refine (Fallible.wp_bind _ _ _ _).mpr ?_
    refine wp_now ?_
    intro now positive
    have valid := Valid.failedState st' e positive
    refine (Fallible.wp_bind _ _ _ _).mpr ?_
    rw [Fallible.wp_attempt]
    refine wp_save (sound_of_stopped valid rfl _) ?_ ?_
    · exact all'.update valid
    · intro _
      exact all'

/-- The shim is its launch, its wait and its end. -/
theorem shim_run_eq [F64Ops]
    (id : String)
    (rounds : Nat) :
    Shim.run id rounds = (do
      let (st, running) ← launched id
      let (status, st) ← Supervisor.waitForExit rounds st running
      Shim.cleanUp status st) := by
  simp only [Shim.run, launched, Fallible.bind_assoc]
  congr 1
  funext _
  congr 1
  funext st
  congr 1
  funext _
  congr 1
  funext outcome
  obtain ⟨result, st'⟩ := outcome
  cases result with
  | ok running =>
      simp only [Shim.supervise, Fallible.bind_assoc]
      rfl
  | error e =>
      simp only [Fallible.bind_assoc]
      rfl

private theorem valid_new
    (now : UInt64)
    (config : ContainerConfig) :
    Valid (.new now config) :=
  valid_of_unset (by simp [ContainerState.new])
    (by simp [ContainerState.new, Status.isLive]) rfl rfl rfl

private theorem wp_storeCreate
    {st : ContainerState}
    (all : AllValid files)
    (valid : Valid st)
    {ok : Unit → Files → Prop}
    (okHolds : ∀ files', Current files' st → ok () files') :
    (Supervisor.storeCreate st).wp records files ok
      fun _ files' => AllValid files' := by
  have first : (liftM (ask (.stateExists st.id)) : Act Bool).wp records files
      (fun present files' => present = (files st.id).isSome ∧ files' = files)
      fun _ files' => AllValid files' :=
    ⟨rfl, rfl⟩
  rw [Supervisor.storeCreate, Fallible.wp_bind]
  refine Fallible.wp_consequence ?_ (fun _ _ => id) first
  rintro present files' ⟨isPresent, same⟩
  subst same
  cases present with
  | true => exact all
  | false =>
      have absent : files' st.id = none := by
        simpa using isPresent.symm
      refine (Fallible.wp_bind _ _ _ _).mpr ?_
      refine wp_calm (uses_checkName trivial (fun _ => trivial) (fun _ => trivial) _)
        ?_ fun _ => all
      intro _
      refine (Fallible.wp_bind _ _ _ _).mpr ?_
      refine wp_host ?_ fun _ => all
      intro _
      refine wp_save ⟨valid, by simp [absent]⟩ ?_ fun _ => all
      exact okHolds _ ⟨all.update valid, by simp⟩

/-- `create` of a new container. -/
theorem keeps_create
    (now : UInt64)
    (config : ContainerConfig) :
    Keeps (Supervisor.create (.new now config)) := by
  intro files all
  rw [Supervisor.create]
  simp only [Fallible.wp_bind]
  refine wp_host ?_ fun _ => all
  intro _
  refine wp_storeCreate all (valid_new now config) ?_
  intro files' current
  refine wp_host ?_ fun _ => current.valid
  intro _
  refine wp_transition ?_ fun _ => current.valid
  intro st' now' _ moved
  rcases ContainerState.transition_cases moved with ⟨same, _⟩ | ⟨edge, rfl⟩
  · simp [ContainerState.new] at same
  · have valid : Valid ((ContainerState.new now config).enter .created now') :=
      (valid_new now config).enter edge (by simp) (by simp [Status.isLive])
    obtain ⟨sound, saved⟩ := current.save valid rfl (.edge edge)
    exact wp_save sound saved.valid fun _ => current.valid

/-- A thawed record: nothing changed, or a paused container runs again. -/
theorem wp_thawPaused
    {st : ContainerState}
    (current : Current files st)
    (live : st.status.isLive = true)
    {ok : ContainerState → Files → Prop}
    (okHolds : ∀ st', Valid st' → st'.id = st.id → st'.status.isLive = true →
      Leads st.status st'.status → ok st' files) :
    (liftM (Lifecycle.thawPaused st) : Act ContainerState).wp records files ok
      fun _ files' => AllValid files' := by
  have valid := current.valid _ _ current.here
  refine wp_host_of_yields host_neutral (thawPaused_yields st) ?_
    fun _ => current.valid
  rintro st' (rfl | ⟨now, moved⟩)
  · exact okHolds st' valid rfl live .refl
  · obtain ⟨valid', leads⟩ := valid.transition_live live rfl moved
    refine okHolds st' valid' (ContainerState.SameLaunch.transition moved).id.symm
      ?_ leads
    rw [ContainerState.transition_status moved]
    rfl

end Operations

end Records

end Myrun
