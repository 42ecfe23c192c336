import Myrun.Supervisor

namespace Myrun

/-!
# The shim and the lifecycle operations

The shim of `src/runtime/shim.rs`, which owns a detached container, the verbs of
`src/runtime/lifecycle.rs`, and the attached supervisor of `src/main.rs`.
-/

namespace Shim

/-- The record of a launch that failed. -/
def failedState (st : ContainerState) (e : Error) (now : UInt64) :
    ContainerState :=
  { st with
    error := some e.display
    status := .stopped
    finishedAt := now }

/-- The end of `run`, after `wait_for_exit`. -/
def cleanUp (status : ExitStatus) (st : ContainerState) : Act Int32 := do
  let st ← Supervisor.teardown st
  if st.config.autoRemove then
    let _ ← (Store.remove st.id).attempt
    return status.exitCode
  else return status.exitCode

/-- `run` once the launch succeeded. -/
def supervise (rounds : Nat) (st : ContainerState) (running : Running) :
    Act Int32 := do
  let own ← ask .getpid
  let st := { st with shimPid := own }
  Store.save .shim st
  ask (.notify
    { ok := true, message := st.id ++ " " ++ toString running.pid.toInt })
  let (status, st) ← Supervisor.waitForExit rounds st running
  cleanUp status st

/-- `run`. -/
def run [F64Ops] (id : String) (rounds : Nat) : Act Int32 := do
  prepare .openStore
  let st ← Store.load id
  prepare .redirectOutput
  let (result, st) ← Supervisor.launch st
  match result with
  | .ok running => supervise rounds st running
  | .error e => do
      -- the launch has rolled back; record why
      let now ← nowMs
      let _ ← (Store.save .launchFailed (failedState st e now)).attempt
      .ofExcept (.error e)

/-- `main`. -/
def main [F64Ops] (id : String) (rounds : Nat) : Act Unit := do
  match ← (run id rounds).attempt with
  | .ok _ => return ()
  | .error e =>
      Fallible.lift (ask (.notify { ok := false, message := e.display }))

/-- `spawn`: the pid of the shim once it reported success. -/
def spawn (id : String) (rounds : Nat) : Act Pid := do
  prepare .notifyPipe
  let pid ← .of (ask (.forkShim id rounds))
  match ← ask (.readNotify pid) with
  | .failed e => .ofExcept (.error (.io ("reading shim status: " ++ e.display)))
  | .closed => do
      let _ ← (waitPid pid true).attempt
      .ofExcept (.error (.container
        ("the container shim exited without reporting a status; " ++
          "check the container log for details")))
  | .notice n =>
      if n.ok then return pid
      else do
        let _ ← (waitPid pid true).attempt
        .ofExcept (.error (.container n.message))

end Shim

namespace Lifecycle

/-- Is the deadline of a wait over? -/
def deadlinePassed : HostAct Bool :=
  .lift (askHost .deadlinePassed)

/-- `cgroup_of`. -/
def cgroupOf (st : ContainerState) : HostAct (Option Cgroup) :=
  match st.cgroupPath with
  | none => return none
  | some path => do
      match ← (Cgroup.attach path).attempt with
      | .ok cg => return some cg
      | .error _ => return none

/-- The refusals of `start`. -/
def checkStartable (id : String) (status : Status) : Result Unit :=
  match status with
  | .created => .ok ()
  | .running | .paused =>
      .error (.invalidState
        ("container " ++ shortId id ++ " is already running"))
  | other =>
      .error (.invalidState ("container " ++ shortId id ++ " is " ++
        other.asStr ++ " and cannot be started again; create a new one"))

/-- `start`. -/
def start (id : String) (rounds : Nat) : Act ContainerState :=
  Store.withLock id do
    let st ← Store.loadReconciled id
    .ofExcept (checkStartable id st.status)
    let shim ← Shim.spawn id rounds
    -- the shim owns the state file from here; re-read what it wrote
    let st ← Store.load id
    let st := { st with shimPid := shim }
    Store.save .start st
    return st

/-- A frozen container cannot act on a signal: thaw it. -/
def thawPaused (st : ContainerState) : HostAct ContainerState :=
  if st.status = .paused then do
    match ← cgroupOf st with
    | some cg => do
        let _ ← cg.thaw.attempt
        transitionNow st .running
    | none => transitionNow st .running
  else return st

/-- The cgroup that `kill` sweeps: only for `SIGKILL` to everything. -/
def sweptCgroup (st : ContainerState) (signal : Int32) (all : Bool) :
    HostAct (Option Cgroup) :=
  if all && signal = sigkill then cgroupOf st else return none

/-- `kill`. -/
def kill (id : String) (signal : Int32) (all : Bool) : Act Unit :=
  Store.withLock id do
    let st ← Store.loadReconciled id
    if !st.status.isLive then
      .ofExcept (.error (.invalidState
        ("container " ++ shortId id ++ " is " ++ st.status.asStr)))
    else do
      let st ← thawPaused st
      match ← sweptCgroup st signal all with
      | some cg => do
          cg.killAll
          Store.save .kill st
      | none => do
          (killPid st.initPid signal).mapErr fun e =>
            .container ("signalling container " ++ shortId id ++ ": " ++
              e.display)
          Store.save .kill st

/-- The locked part of `finalize_stopped`; nothing when a shim is there to
record the exit status itself. -/
def finalizeLocked (id : String) : Act (Option ExitStatus) := do
  let st ← Store.load id
  if ← st.initIsAlive then
    .ofExcept (.error (.container
      ("container " ++ shortId id ++ " is still alive after being killed")))
  else do
    let shimAlive ←
      (if 0 < st.shimPid then processAlive st.shimPid none else return false)
    if shimAlive then return none
    else do
      let st ← Supervisor.teardown st
      return some st.exitStatus

/-- The rest of `finalize_stopped`: wait for the shim, at most 100 times. -/
def awaitShim (id : String) : Nat → Act ExitStatus
  | 0 => do
      let cur ← Store.load id
      let cur ← Supervisor.teardown cur
      return cur.exitStatus
  | left + 1 => do
      let cur ← Store.load id
      if cur.status = .stopped && cur.exitCode.isSome then
        return cur.exitStatus
      else do
        sleep
        awaitShim id left

/-- `finalize_stopped`. -/
def finalizeStopped (id : String) : Act ExitStatus := do
  match ← Store.withLock id (finalizeLocked id) with
  | some status => return status
  | none => awaitShim id 100

/-- The first block of `stop`: the status when there is nothing to stop. -/
def requestStop (id : String) : Act (Option ExitStatus) :=
  Store.withLock id do
    let st ← Store.loadReconciled id
    if !st.status.isLive then return some st.exitStatus
    else do
      let st ← thawPaused st
      let st ← transitionNow st .stopping
      Store.save .stop st
      let _ ← (killPid st.initPid sigterm).attempt
      return none

/-- The grace period of `stop`: whether init went away in time. -/
def graceLoop (id : String) : Nat → Act Bool
  | 0 => spin
  | rounds + 1 => do
      if ← deadlinePassed then return false
      else do
        let st ← Store.load id
        if !(← st.initIsAlive) then return true
        else do
          sleep
          graceLoop id rounds

/-- The kill block of `stop`. -/
def forceKill (id : String) : Act Unit :=
  Store.withLock id do
    let st ← Store.load id
    match ← cgroupOf st with
    | some cg => cg.killAll
    | none => do
        let _ ← (killPid st.initPid sigkill).attempt
        return ()

/-- Wait for the kernel after `SIGKILL`, at most 100 times. -/
def deathLoop (id : String) : Nat → Act Unit
  | 0 => return ()
  | left + 1 => do
      let st ← Store.load id
      if ← st.initIsAlive then
        sleep
        deathLoop id left
      else return ()

/-- `stop`. -/
def stop (id : String) (rounds : Nat) : Act ExitStatus := do
  match ← requestStop id with
  | some status => return status
  | none => do
      if ← graceLoop id rounds then finalizeStopped id
      else do
        forceKill id
        deathLoop id 100
        finalizeStopped id

/-- A container's cgroup, or the given refusal. -/
def requireCgroup (st : ContainerState) (message : String) :
    HostAct Cgroup := do
  match ← cgroupOf st with
  | some cg => return cg
  | none => .ofExcept (.error (.unsupported message))

/-- `pause`. -/
def pause (id : String) : Act Unit :=
  Store.withLock id do
    let st ← Store.loadReconciled id
    if st.status ≠ .running then
      .ofExcept (.error (.invalidState ("container " ++ shortId id ++ " is " ++
        st.status.asStr ++ ", not running")))
    else do
      let cg ← requireCgroup st
        "pausing needs a cgroup; this container was started without one"
      cg.freeze
      let st ← transitionNow st .paused
      Store.save .pause st

/-- `unpause`. -/
def unpause (id : String) : Act Unit :=
  Store.withLock id do
    let st ← Store.loadReconciled id
    if st.status ≠ .paused then
      .ofExcept (.error (.invalidState ("container " ++ shortId id ++ " is " ++
        st.status.asStr ++ ", not paused")))
    else do
      let cg ← requireCgroup st "this container has no cgroup to unfreeze"
      cg.thaw
      let st ← transitionNow st .running
      Store.save .unpause st

/-- A live container is deleted only by force. -/
def stopForDelete (id : String) (st : ContainerState) (force : Bool)
    (rounds : Nat) : Act ContainerState :=
  if !st.status.isLive then return st
  else if !force then
    .ofExcept (.error (.invalidState ("container " ++ shortId id ++ " is " ++
      st.status.asStr ++ "; stop it first or use --force")))
  else do
    let _ ← stop id rounds
    Store.load id

/-- `delete`. -/
def delete (id : String) (force : Bool) (rounds : Nat) : Act Unit := do
  let st ← Store.withLock id (Store.loadReconciled id)
  let st ← stopForDelete id st force rounds
  let _ ← Store.withLock id (Supervisor.teardown st)
  Store.remove id

/-- `wait`; `timed` when a timeout was given. -/
def wait (id : String) (timed : Bool) : Nat → Act ExitStatus
  | 0 => spin
  | rounds + 1 => do
      let st ← Store.loadReconciled id
      if !st.status.isLive then return st.exitStatus
      else do
        let late ← (if timed then deadlinePassed else return false : HostAct Bool)
        if late then
          .ofExcept (.error (.container
            ("timed out waiting for container " ++ shortId id)))
        else do
          sleep
          wait id timed rounds

end Lifecycle

/-! ## Commands of the command line -/

namespace Attached

/-- Forward each signal to the container. -/
def forward (pid : Pid) : List Int32 → HostAct Unit
  | [] => return ()
  | signal :: rest => do
      let _ ← (killPid pid signal).attempt
      forward pid rest

/-- `poll_fds`. -/
def poll (pid : Pid) : HostAct Poll :=
  .lift (askHost (.poll pid))

/-- The poll loop of `run_attached`. -/
def pollLoop (st : ContainerState) : Nat → Act Unit
  | 0 => spin
  | rounds + 1 => do
      match ← poll st.initPid with
      | .timeout => do
          if ← st.initIsAlive then pollLoop st rounds
          else return ()
      | .failed => pollLoop st rounds
      | .ready signals channel => do
          forward st.initPid signals
          if channel then return () else pollLoop st rounds

/-- `run_attached`. -/
def run [F64Ops] (st : ContainerState) (rounds : Nat) : Act Int32 := do
  let (result, st) ← Supervisor.launch st
  match result with
  | .error e => do
      let _ ← (Store.remove st.id).attempt
      .ofExcept (.error e)
  | .ok running => do
      prepare .blockSignals
      prepare .signalFd
      pollLoop st rounds
      let (status, st) ← Supervisor.waitForExit rounds st running
      Shim.cleanUp status st

/-- `start --attach`, after the name was resolved. -/
def start [F64Ops] (id : String) (rounds : Nat) : Act Int32 := do
  let st ← Store.load id
  if st.status ≠ .created then
    .ofExcept (.error (.invalidState ("container " ++ shortId id ++ " is " ++
      st.status.asStr ++ ", not created")))
  else
    run { st with config := { st.config with detach := false } } rounds

end Attached

/-- `list`: every container is reconciled, failures are ignored. -/
def reconcileEach : List ContainerState → Act Unit
  | [] => return ()
  | st :: rest => do
      let _ ← (Store.reconcile st).attempt
      reconcileEach rest

/-- The commands of the runtime, and the shim process. -/
inductive Command where
  | create (st : ContainerState)
  | start (id : String) (rounds : Nat)
  | startAttached (id : String) (rounds : Nat)
  | shim (id : String) (rounds : Nat)
  | kill (id : String) (signal : Int32) (all : Bool)
  | stop (id : String) (rounds : Nat)
  | pause (id : String)
  | unpause (id : String)
  | delete (id : String) (force : Bool) (rounds : Nat)
  | wait (id : String) (timed : Bool) (rounds : Nat)
  | list
  | inspect (id : String)
  | gc

/-- Discard the value of a program. -/
def Act.done {α : Type} (p : Act α) : Act Unit := do
  let _ ← p
  return ()

/-- The program of a command. -/
def Command.program [F64Ops] : Command → Act Unit
  | create st => Act.done (Supervisor.create st)
  | start id rounds => Act.done (Lifecycle.start id rounds)
  | startAttached id rounds => Act.done (Attached.start id rounds)
  | shim id rounds => Shim.main id rounds
  | kill id signal all => Lifecycle.kill id signal all
  | stop id rounds => Act.done (Lifecycle.stop id rounds)
  | pause id => Lifecycle.pause id
  | unpause id => Lifecycle.unpause id
  | delete id force rounds => Lifecycle.delete id force rounds
  | wait id timed rounds => Act.done (Lifecycle.wait id timed rounds)
  | list => do
      let states ← Store.list
      reconcileEach states
  | inspect id => do
      let st ← Store.load id
      let _ ← (Store.reconcile st).attempt
      return ()
  | gc => Act.done Supervisor.gc

end Myrun
