import Myrun.Config
import Myrun.ConfigValidate

namespace Myrun

/-!
# Container state

The record that `src/runtime/state.rs` keeps for every container, and its
state machine.  A state file is represented by the record it holds.
-/

/-- A process id, `pid_t`. -/
abbrev Pid := Int32

/-- `ExitStatus` of `src/sys/process.rs`. -/
structure ExitStatus where
  code : Option Int32
  signal : Option Int32
  deriving Repr, DecidableEq

/-- `Status`. -/
inductive Status where
  | creating
  | created
  | running
  | paused
  | stopping
  | stopped
  deriving Repr, DecidableEq

namespace Status

/-- `Status::as_str`. -/
def asStr : Status → String
  | creating => "creating"
  | created => "created"
  | running => "running"
  | paused => "paused"
  | stopping => "stopping"
  | stopped => "stopped"

/-- `Status::parse`. -/
def parse (s : String) : Result Status :=
  match s with
  | "creating" => .ok creating
  | "created" => .ok created
  | "running" => .ok running
  | "paused" => .ok paused
  | "stopping" => .ok stopping
  | "stopped" => .ok stopped
  | other => .error (.parse ("unknown container status " ++ debugStr other))

/-- `Status::is_live`. -/
def isLive : Status → Bool
  | running => true
  | paused => true
  | stopping => true
  | _ => false

/-- `Status::can_transition_to`. -/
def canTransitionTo : Status → Status → Bool
  | creating, created => true
  | creating, stopped => true
  | created, running => true
  | created, stopped => true
  | running, paused => true
  | running, stopping => true
  | running, stopped => true
  | paused, running => true
  | paused, stopping => true
  | paused, stopped => true
  | stopping, stopped => true
  | _, _ => false

end Status

/-- `NetworkState`, with its defaults. -/
structure NetworkState where
  mode : String := "none"
  bridge : Option String := none
  hostVeth : Option String := none
  containerVeth : Option String := none
  ip : Option String := none
  prefixLen : UInt8 := 24
  gateway : Option String := none
  published : List PortMapping := []
  deriving Repr, DecidableEq

/-- `ContainerState`. -/
structure ContainerState where
  id : String
  name : Option String
  status : Status
  initPid : Pid
  initStartTime : UInt64
  shimPid : Pid
  createdAt : UInt64
  startedAt : UInt64
  finishedAt : UInt64
  exitCode : Option Int32
  exitSignal : Option Int32
  oomKilled : Bool
  error : Option String
  cgroupPath : Option String
  network : NetworkState
  config : ContainerConfig
  deriving Repr, DecidableEq

namespace ContainerState

/-- `ContainerState::new`, at a given time. -/
def new (now : UInt64) (config : ContainerConfig) : ContainerState where
  id := config.id
  name := config.name
  status := .creating
  initPid := 0
  initStartTime := 0
  shimPid := 0
  createdAt := now
  startedAt := 0
  finishedAt := 0
  exitCode := none
  exitSignal := none
  oomKilled := false
  error := none
  cgroupPath := none
  network := { mode := config.network.mode.asStr }
  config := config

/-- Fill in `started_at` unless it is set. -/
def startedBy (st : ContainerState) (now : UInt64) : ContainerState :=
  if st.startedAt = 0 then { st with startedAt := now } else st

/-- Fill in `finished_at` unless it is set. -/
def finishedBy (st : ContainerState) (now : UInt64) : ContainerState :=
  if st.finishedAt = 0 then { st with finishedAt := now } else st

/-- The assignments of `transition` once the change is known to be legal. -/
def enter (st : ContainerState) (next : Status) (now : UInt64) :
    ContainerState :=
  let moved := { st with status := next }
  match next with
  | .running => moved.startedBy now
  | .stopped => moved.finishedBy now
  | _ => moved

/-- `ContainerState::transition`, at a given time. -/
def transition (st : ContainerState) (next : Status) (now : UInt64) :
    Result ContainerState :=
  if st.status = next then .ok st
  else if st.status.canTransitionTo next then .ok (st.enter next now)
  else
    .error (.invalidState ("container " ++ shortId st.id ++
      " cannot go from " ++ st.status.asStr ++ " to " ++ next.asStr))

/-- `ContainerState::record_exit`, at a given time. -/
def recordExit (st : ContainerState) (status : ExitStatus) (now : UInt64) :
    ContainerState :=
  { st with exitCode := status.code, exitSignal := status.signal }.finishedBy now

/-- The recorded exit status. -/
def exitStatus (st : ContainerState) : ExitStatus where
  code := st.exitCode
  signal := st.exitSignal

/-- The start time that `init_is_alive` compares with: none when it could not
be read. -/
def expectedStart (st : ContainerState) : Option UInt64 :=
  if st.initStartTime = 0 then none else some st.initStartTime

/-- The assignments of `reconcile` to a container whose init is gone. -/
def markGone (st : ContainerState) (now : UInt64) : ContainerState :=
  let stopped := { st with status := .stopped }.finishedBy now
  { stopped with
    error := stopped.error.or
      (some "init process disappeared without recording an exit status") }

/-- The assignments at the end of `teardown`. -/
def markTornDown (st : ContainerState) (now : UInt64) : ContainerState :=
  if st.status.isLive then { st with status := .stopped }.finishedBy now
  else st

@[simp] theorem startedBy_status (st : ContainerState) (now : UInt64) :
    (st.startedBy now).status = st.status := by
  unfold startedBy
  split <;> rfl

@[simp] theorem finishedBy_status (st : ContainerState) (now : UInt64) :
    (st.finishedBy now).status = st.status := by
  unfold finishedBy
  split <;> rfl

@[simp] theorem finishedBy_id (st : ContainerState) (now : UInt64) :
    (st.finishedBy now).id = st.id := by
  unfold finishedBy
  split <;> rfl

@[simp] theorem markGone_id (st : ContainerState) (now : UInt64) :
    (st.markGone now).id = st.id := by
  simp [markGone]

@[simp] theorem markTornDown_id (st : ContainerState) (now : UInt64) :
    (st.markTornDown now).id = st.id := by
  unfold markTornDown
  split
  · simp
  · rfl

@[simp] theorem enter_status
    (st : ContainerState)
    (next : Status)
    (now : UInt64) :
    (st.enter next now).status = next := by
  cases next <;> simp [enter]

@[simp] theorem enter_name
    (st : ContainerState)
    (next : Status)
    (now : UInt64) :
    (st.enter next now).name = st.name := by
  cases next <;> simp only [enter, startedBy, finishedBy] <;> split <;> rfl

/-- A transition changes nothing, or follows an edge. -/
theorem transition_cases
    {st st' : ContainerState}
    {next : Status}
    {now : UInt64}
    (moved : st.transition next now = .ok st') :
    st.status = next ∧ st' = st ∨
      st.status.canTransitionTo next = true ∧ st' = st.enter next now := by
  unfold transition at moved
  split at moved
  · rename_i same
    exact .inl ⟨same, (Except.ok.inj moved).symm⟩
  · split at moved
    · rename_i legal
      exact .inr ⟨legal, (Except.ok.inj moved).symm⟩
    · simp at moved

theorem transition_name
    {st st' : ContainerState}
    {next : Status}
    {now : UInt64}
    (moved : st.transition next now = .ok st') :
    st'.name = st.name := by
  rcases transition_cases moved with ⟨_, rfl⟩ | ⟨_, rfl⟩
  · rfl
  · simp

theorem transition_status
    {st st' : ContainerState}
    {next : Status}
    {now : UInt64}
    (moved : st.transition next now = .ok st') :
    st'.status = next := by
  rcases transition_cases moved with ⟨same, rfl⟩ | ⟨_, rfl⟩
  · exact same
  · simp

/-- Two records of one launch: what `launch` filled in is the same. -/
structure SameLaunch (a b : ContainerState) : Prop where
  id : a.id = b.id
  initPid : a.initPid = b.initPid
  initStartTime : a.initStartTime = b.initStartTime
  cgroupPath : a.cgroupPath = b.cgroupPath
  network : a.network = b.network

namespace SameLaunch

theorem refl (a : ContainerState) : a.SameLaunch a :=
  ⟨rfl, rfl, rfl, rfl, rfl⟩

theorem trans
    {a b c : ContainerState}
    (first : a.SameLaunch b)
    (second : b.SameLaunch c) :
    a.SameLaunch c :=
  ⟨first.id.trans second.id, first.initPid.trans second.initPid,
    first.initStartTime.trans second.initStartTime,
    first.cgroupPath.trans second.cgroupPath,
    first.network.trans second.network⟩

private theorem startedBy (st : ContainerState) (now : UInt64) :
    st.SameLaunch (st.startedBy now) := by
  unfold ContainerState.startedBy
  split <;> exact ⟨rfl, rfl, rfl, rfl, rfl⟩

private theorem finishedBy (st : ContainerState) (now : UInt64) :
    st.SameLaunch (st.finishedBy now) := by
  unfold ContainerState.finishedBy
  split <;> exact ⟨rfl, rfl, rfl, rfl, rfl⟩

theorem enter (st : ContainerState) (next : Status) (now : UInt64) :
    st.SameLaunch (st.enter next now) := by
  have moved : st.SameLaunch { st with status := next } :=
    ⟨rfl, rfl, rfl, rfl, rfl⟩
  cases next with
  | running =>
      exact moved.trans (startedBy _ now)
  | stopped =>
      exact moved.trans (finishedBy _ now)
  | _ =>
      exact moved

theorem transition
    {st st' : ContainerState}
    {next : Status}
    {now : UInt64}
    (moved : st.transition next now = .ok st') :
    st.SameLaunch st' := by
  rcases transition_cases moved with ⟨_, rfl⟩ | ⟨_, rfl⟩
  · exact refl _
  · exact enter st next now

theorem recordExit (st : ContainerState) (status : ExitStatus) (now : UInt64) :
    st.SameLaunch (st.recordExit status now) :=
  have filled : st.SameLaunch
      { st with exitCode := status.code, exitSignal := status.signal } :=
    ⟨rfl, rfl, rfl, rfl, rfl⟩
  filled.trans (finishedBy _ now)

theorem markGone (st : ContainerState) (now : UInt64) :
    st.SameLaunch (st.markGone now) := by
  have stopped : st.SameLaunch { st with status := .stopped } :=
    ⟨rfl, rfl, rfl, rfl, rfl⟩
  have finished := stopped.trans (finishedBy _ now)
  exact ⟨finished.id, finished.initPid, finished.initStartTime,
    finished.cgroupPath, finished.network⟩

theorem markTornDown (st : ContainerState) (now : UInt64) :
    st.SameLaunch (st.markTornDown now) := by
  unfold ContainerState.markTornDown
  split
  · have stopped : st.SameLaunch { st with status := .stopped } :=
      ⟨rfl, rfl, rfl, rfl, rfl⟩
    exact stopped.trans (finishedBy _ now)
  · exact refl st

end SameLaunch

end ContainerState

end Myrun
