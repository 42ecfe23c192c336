import Myrun.Network

namespace Myrun

/-!
# The supervisor

`src/runtime/supervisor.rs` with the rollback of `src/rollback.rs`: creating,
launching, waiting for and tearing down a container, and collecting what
crashed ones left behind.

Loops without a bound in the source (waiting for frames) are followed for a
number of rounds; a loop that needs more stays in `Op.spin`, so every finite
behaviour is covered by some number of rounds.
-/

/-- A loop that goes on. -/
def spin {α : Type} : Act α :=
  Fallible.of ((ask .spin).bind fun never => nomatch (never : Empty))

/-- `ExitStatus::exit_code`. -/
def ExitStatus.exitCode (status : ExitStatus) : Int32 :=
  match status.code, status.signal with
  | some c, _ => c
  | none, some s => 128 + s
  | none, none => 255

/-- `ContainerState::transition`, now. -/
def transitionNow (st : ContainerState) (next : Status) :
    HostAct ContainerState := do
  let now ← nowMs
  .ofExcept (st.transition next now)

namespace Undo

/-- An undo action. -/
def run : Undo → Act Unit
  | cgroup path => do
      let cg ← Cgroup.attach path
      cg.remove
  | process pid => do
      let _ ← (killPid pid sigkill).attempt
      let _ ← (waitPid pid false).attempt
      return ()
  | lease id => Network.releaseLease id
  | veth name => Network.deleteHostVeth name
  | rules id => do
      let _ ← PacketFilter.cleanup id
      return ()
  | network id net => Network.teardown id net

/-- `Rollback::unwind`: errors are logged and do not stop it. -/
def unwind : List Undo → Act Unit
  | [] => return ()
  | u :: rest => do
      let _ ← u.run.attempt
      unwind rest

end Undo

/-- The state of a launch: the record and the rollback stack. -/
structure Launching where
  st : ContainerState
  undo : List Undo

/-- A step of a launch. -/
abbrev Task := Staged Op Ans Error Launching

/-- A step on the host, as a step of a launch. -/
def HostTask.embed {α : Type} (p : HostTask α) : Task α :=
  fun s => ((p.run s.undo).map Op.host fun _ answer => answer).bind
    fun (result, undo) => .ret (result, { s with undo })

instance (priority := low) : MonadLift HostTask Task where
  monadLift := HostTask.embed

/-- A started container: its init process and its cgroup. -/
structure Running where
  pid : Pid
  cgroup : Option Cgroup

namespace Supervisor

/-- The name scan of `Store::create`. -/
def nameFree (name : String) : List String → Act Unit
  | [] => return ()
  | id :: rest => do
      match ← (Store.load id).attempt with
      | .ok other =>
          if other.name = some name then
            .ofExcept (.error (.alreadyExists ("container name " ++
              debugStr name ++ " (used by " ++ shortId id ++ ")")))
          else nameFree name rest
      | .error _ => nameFree name rest

/-- The name check of `Store::create`. -/
def checkName : Option String → Act Unit
  | none => return ()
  | some name => do
      let names ← Store.ids
      nameFree name names

/-- Write `config.json`, which init reads. -/
def writeConfig (id : String) (config : ContainerConfig) : HostAct Unit :=
  .of (askHost (.writeConfig id config))

/-- `Store::create`. -/
def storeCreate (st : ContainerState) : Act Unit := do
  if ← ask (.stateExists st.id) then
    .ofExcept (.error (.alreadyExists ("container " ++ shortId st.id)))
  else do
    checkName st.name
    writeConfig st.id st.config
    Store.save .storeCreate st

/-- `create`. -/
def create (st : ContainerState) : Act ContainerState := do
  Fault.check "before_state_create"
  storeCreate st
  Fault.check "after_state_create"
  let st ← transitionNow st .created
  Store.save .create st
  return st

/-! ## Launching -/

/-- Change the record of the launch. -/
def setState (f : ContainerState → ContainerState) : Task Unit :=
  .modify fun s => { s with st := f s.st }

/-- Step 1 of `launch`. -/
def createCgroup [F64Ops] (id : String) (res : Resources) :
    Task (Option Cgroup) := do
  match ← (Cgroup.create id res).attempt with
  | .ok cg => do
      pushUndo (.cgroup cg.path)
      setState fun st => { st with cgroupPath := some cg.path }
      return some cg
  | .error e =>
      -- no limits were asked for, so a missing hierarchy is survivable
      if res.isEmpty && e.exitClass = .unsupported then return none
      else .fail e

/-- The cgroup that `clone3` is asked to place the child in. -/
def cloneCgroup : Option Cgroup → HostAct (Option String)
  | none => return none
  | some cg => do
      match ← (prepare (.openCgroup cg.path)).attempt with
      | .ok _ => return some cg.path
      | .error _ => return none

/-- Move the child into its cgroup when `clone3` could not place it. -/
def placeChild (cgroup : Option Cgroup) (placed : Option String) (pid : Pid) :
    HostAct Unit :=
  match cgroup with
  | none => return ()
  | some cg => if placed.isSome then return () else cg.addPid pid

/-- `clone_child`. -/
def cloneChild (id : String) (cgroup : Option String) : Act Pid :=
  .of (ask (.cloneInit id cgroup))

/-- The start time of a process, 0 when it cannot be read. -/
def readStartTime (pid : Pid) : Act UInt64 := do
  match ← (Fallible.of (ask (.procStat pid)) : Act ProcStat).attempt with
  | .ok stat => return stat.startTime
  | .error _ => return 0

/-- `tag_name` of a frame from init. -/
def frameName : Frame → String
  | .ready => "ready"
  | .started => "started"
  | .error _ => "error"
  | .exit _ => "exit"
  | .other tag => if tag = 71 then "go" else "unknown"

/-- `Channel::recv`. -/
def recv (pid : Pid) : Act (Option Frame) :=
  .of (ask (.channel (.recv pid)))

/-- `Channel::expect`, for a given frame. -/
def expectFrame (pid : Pid) (want : Frame) : Act Unit := do
  match ← recv pid with
  | none =>
      .ofExcept (.error (.container
        ("container init exited before sending " ++ frameName want)))
  | some frame =>
      if frame = want then return ()
      else
        match frame with
        | .error message => .ofExcept (.error (.container message))
        | _ =>
            .ofExcept (.error (.container ("expected " ++ frameName want ++
              " from container init, got " ++ frameName frame)))

/-- `write_netstate`. -/
def writeNetstate (id : String) (net : NetworkState) : Act Unit :=
  .of (ask (.channel (.writeNetstate id net)))

/-- `send_tag(TAG_GO)`. -/
def sendGo (pid : Pid) : Act Unit :=
  .of (ask (.channel (.sendGo pid)))

/-- The body of `launch` after its status check. -/
def launchBody [F64Ops] : Task Running := do
  let start ← Staged.get
  let id := start.st.id
  let cfg := start.st.config
  -- 1. cgroup
  let cgroup ← createCgroup id cfg.resources
  -- 2. sealed copy of ourselves
  prepare .sealedSelfExe
  -- 3. clone
  prepare .channelPair
  prepare .execPlan
  let placed ← cloneCgroup cgroup
  Fault.check "before_clone"
  let pid ← cloneChild id placed
  Fault.check "after_clone"
  pushUndo (.process pid)
  placeChild cgroup placed pid
  setState fun st => { st with initPid := pid }
  let startTime ← readStartTime pid
  setState fun st => { st with initStartTime := startTime }
  -- 4. wait for the namespaces
  expectFrame pid .ready
  -- 5. network
  let net ← Network.setupHost cfg pid
  setState fun st => { st with network := net }
  pushUndo (.network id net)
  -- 6. hand the network details to init
  writeNetstate id net
  -- 7/8. go, and wait for confirmation
  sendGo pid
  expectFrame pid .started
  let s ← Staged.get
  let st ← transitionNow s.st .running
  setState fun _ => { st with error := none }
  Store.save .launch { st with error := none }
  Fault.check "after_start"
  return { pid, cgroup }

/-- The end of `launch`: dropping a rollback stack that was not committed runs
its actions, newest first. -/
def settle (result : Result Running) (s : Launching) :
    Proc (Result Running × ContainerState) :=
  match result with
  | .ok running => .ret (.ok running, s.st)
  | .error e => (Undo.unwind s.undo).run.bind fun _ => .ret (.error e, s.st)

/-- The refusal of `launch`. -/
def notCreated (st : ContainerState) : Error :=
  .invalidState ("container " ++ shortId st.id ++ " is " ++ st.status.asStr ++
    ", not created; cannot start it")

/-- `launch`: the outcome and the record as it was left. -/
def launch [F64Ops] (st : ContainerState) :
    Proc (Result Running × ContainerState) :=
  if st.status ≠ .created then .ret (.error (notCreated st), st)
  else
    -- marks that the status check was passed
    (ask (.launching st.id)).bind fun _ =>
      (launchBody.run { st, undo := [] }).bind fun (result, s) =>
        settle result s

/-! ## The end of a container -/

/-- The exit status of an exit frame. -/
def exitOfFrame (code signal : Int32) : ExitStatus where
  code := if 0 ≤ code then some code else none
  signal := if 0 < signal then some signal else none

/-- The frame loop of `wait_for_exit`. -/
def recvLoop (pid : Pid) (st : ContainerState) (fromInit : Option ExitStatus) :
    Nat → Act (ContainerState × Option ExitStatus)
  | 0 => spin
  | rounds + 1 => do
      match ← (recv pid).attempt with
      | .ok (some (.exit (some (code, signal)))) =>
          recvLoop pid st (some (exitOfFrame code signal)) rounds
      | .ok (some (.error message)) =>
          recvLoop pid { st with error := some message } fromInit rounds
      | .ok (some _) => recvLoop pid st fromInit rounds
      | .ok none => return (st, fromInit)
      | .error _ => return (st, fromInit)

/-- Note an out-of-memory kill. -/
def noteOom (st : ContainerState) : Option Cgroup → HostAct ContainerState
  | none => return st
  | some cg => do
      let killed ← cg.wasOomKilled
      return if killed then { st with oomKilled := true } else st

/-- `wait_for_exit`: the status and the record as it was saved. -/
def waitForExit (rounds : Nat) (st : ContainerState) (running : Running) :
    Act (ExitStatus × ContainerState) := do
  let (st, fromInit) ← recvLoop running.pid st none rounds
  let waited ← waitPid running.pid false
  let status := (fromInit.or waited).getD { code := some (-1), signal := none }
  let st ← noteOom st running.cgroup
  let now ← nowMs
  let st := st.recordExit status now
  -- an illegal transition is ignored
  let st :=
    match st.transition .stopped now with
    | .ok moved => moved
    | .error _ => st
  Store.save .waitForExit st
  return (status, st)

/-- Kill an init process that is still there. -/
def killInit (st : ContainerState) : Act Unit := do
  if st.initPid ≤ 0 then return ()
  if ← st.initIsAlive then
    let _ ← (killPid st.initPid sigkill).attempt
    let _ ← (waitPid st.initPid true).attempt
    return ()
  return ()

/-- Kill and remove the recorded cgroup; whether it saw an out-of-memory
kill. -/
def removeCgroup : Option String → HostAct Bool
  | none => return false
  | some path => do
      match ← (Cgroup.attach path).attempt with
      | .error _ => return false
      | .ok cg => do
          let oom ← cg.wasOomKilled
          let _ ← cg.killAll.attempt
          let _ ← cg.remove.attempt
          return oom

/-- `teardown`: the record as it was left. -/
def teardown (st : ContainerState) : Act ContainerState := do
  let _ ← (Fault.check "before_teardown").attempt
  killInit st
  let oom ← removeCgroup st.cgroupPath
  let st := if oom then { st with oomKilled := true } else st
  Network.teardown st.id st.network
  let now ← nowMs
  let st := st.markTornDown now
  let _ ← (Store.save .teardown st).attempt
  return st

/-! ## Garbage collection -/

/-- The first loop of `gc`: what was corrected, and the live containers. -/
def gcStates : List ContainerState → Act (List String × List String)
  | [] => return ([], [])
  | st :: rest => do
      let (corrected, st) ← Store.reconcile st
      let st ← (if corrected then teardown st else return st)
      let (report, live) ← gcStates rest
      return (
        if corrected then
          (shortId st.id ++ ": marked stopped (init process was gone)") :: report
        else report,
        if st.status.isLive then st.id :: live else live)

/-- Delete each interface; the names of those deleted. -/
def deleteVeths : List String → HostAct (List String)
  | [] => return []
  | name :: rest => do
      let deletion : HostAct Unit := do
        prepare .openNetlink
        let index ← Network.linkIndexRequired name
        Network.deleteLink index
      let outcome ← deletion.attempt
      let others ← deleteVeths rest
      return if outcome.toBool then
        ("deleted orphaned interface " ++ name) :: others else others

/-- The interfaces part of `gc`. -/
def gcVeths (live : List String) : HostAct (List String) := do
  match ← (Network.orphanedVeths live).attempt with
  | .ok names => deleteVeths names
  | .error _ => return []

/-- The leases part of `gc`. -/
def gcLeases (live : List String) : HostAct (List String) := do
  match ← (Fallible.of (askHost (.leaseGc live)) : HostAct Nat).attempt with
  | .ok n =>
      return if 0 < n then
        ["released " ++ toString n ++ " stale IP lease(s)"] else []
  | .error _ => return []

/-- The shared resources, removed only when no container is live. -/
def gcShared (live : List String) : HostAct (List String) :=
  if !live.isEmpty then return []
  else do
    let bridge ← (Network.removeBridgeIfUnused defaultBridge).attempt
    let first :=
      match bridge with
      | .ok true => ["removed unused bridge " ++ defaultBridge]
      | _ => []
    let count ← PacketFilter.ruleCount "base"
    if 0 < count then
      PacketFilter.teardownBase
      return first ++ ["removed " ++ toString count ++ " shared iptables rule(s)"]
    else return first

/-- `gc`. -/
def gc : Act (List String) := do
  let states ← Store.list
  let (corrected, live) ← gcStates states
  let n ← Cgroup.gcEmpty live
  let cgroups :=
    if 0 < n then ["removed " ++ toString n ++ " orphaned cgroup(s)"] else []
  let leases ← gcLeases live
  let veths ← gcVeths live
  let shared ← gcShared live
  return corrected ++ cgroups ++ leases ++ veths ++ shared

end Supervisor

end Myrun
