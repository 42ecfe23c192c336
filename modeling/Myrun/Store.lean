import Myrun.Host

namespace Myrun

/-!
# The state store

`Store` of `src/runtime/state.rs`: locking, loading, saving and removing
containers, and reconciling a record with the process it describes.
-/

/-- `process_alive`. -/
def processAlive (pid : Pid) (start : Option UInt64) : Act Bool := do
  match ← (Fallible.of (ask (.procStat pid)) : Act ProcStat).attempt with
  | .ok stat => return !stat.zombie && start.all (· = stat.startTime)
  | .error _ => return false

/-- `ContainerState::init_is_alive`. -/
def ContainerState.initIsAlive (st : ContainerState) : Act Bool :=
  if st.initPid ≤ 0 then return false
  else processAlive st.initPid st.expectedStart

/-- `wait_pid`. -/
def waitPid (pid : Pid) (nohang : Bool) : Act (Option ExitStatus) :=
  .of (ask (.waitPid pid nohang))

namespace Store

/-- `Store::lock`: open the lock file, then wait for it. -/
def lock (id : String) : Act LockFile := do
  let file ← .of (ask (.openLock id))
  Fallible.of (ask (.flock file))
  return file

/-- Dropping a `FileLock`. -/
def unlock (file : LockFile) : Act Unit :=
  .lift (ask (.funlock file))

/-- A block that starts with `let _lock = store.lock(id)?`. -/
def withLock {α : Type} (id : String) (body : Act α) : Act α := do
  let file ← lock id
  let result ← body.attempt
  unlock file
  .ofExcept result

/-- `Store::load`. -/
def load (id : String) : Act ContainerState :=
  .of (ask (.readState id))

/-- `Store::save`. -/
def save (place : SavePoint) (st : ContainerState) : Act Unit :=
  .of (ask (.writeState place st))

/-- `Store::remove`. -/
def remove (id : String) : Act Unit := do
  match ← ask (.removeDir id) with
  | .removed => return ()
  | .failed _ e => .ofExcept (.error e)

/-- The names among `entries` that have a state file. -/
def existing : List String → Act (List String)
  | [] => return []
  | name :: rest => do
      let present ← ask (.stateExists name)
      let others ← existing rest
      return if present then name :: others else others

/-- `Store::ids`. -/
def ids : Act (List String) := do
  let entries ← .of (ask .dirEntries)
  let names ← existing entries
  return names.mergeSort fun a b => decide (a ≤ b)

/-- The readable ones of the given containers. -/
def loadAll : List String → Act (List ContainerState)
  | [] => return []
  | id :: rest => do
      let loaded ← (load id).attempt
      let others ← loadAll rest
      match loaded with
      | .ok st => return st :: others
      | .error _ => return others

/-- `Store::list`. -/
def list : Act (List ContainerState) := do
  let names ← ids
  let states ← loadAll names
  return states.mergeSort fun a b => decide (a.createdAt ≤ b.createdAt)

/-- `Store::reconcile`: whether the record was corrected, and the record. -/
def reconcile (st : ContainerState) : Act (Bool × ContainerState) :=
  if !st.status.isLive then return (false, st)
  else do
    if ← st.initIsAlive then return (false, st)
    let now ← nowMs
    let marked := st.markGone now
    save .reconcile marked
    return (true, marked)

/-- `load_reconciled` of `src/runtime/supervisor.rs`. -/
def loadReconciled (id : String) : Act ContainerState := do
  let st ← load id
  let (_, st) ← reconcile st
  return st

end Store

end Myrun
