import Myrun.Discipline
import Myrun.MountTable
import Myrun.Volumes

namespace Myrun

/-!
# The root of a container

`setup` of `src/runtime/filesystem.rs`: propagation to the host is stopped, the
rootfs is bound on itself and populated, the process pivots into it and lets go
of the old root, and sensitive paths are masked.

Which mount a path leads to is the kernel's business: links and the layout of
the host decide it, and it may change, except that a path which was mounted on
leads to what was mounted there.
-/

/-- The operations of `setup`. -/
inductive RootOp where
  | volume (op : VolumeOp)
  | mount (source : Option String) (target : String) (fstype : Option String)
      (flags : UInt64) (data : Option String)
  | mknod (path : String) (mode : UInt32) (major minor : UInt64)
  | pathExists (path : String)
  /-- `symlink_metadata` and `is_dir` -/
  | isDirectory (path : String)
  | removeFile (path : String)
  | symlink (target link : String)
  | chdir (path : String)
  | pivotRoot (newRoot putOld : String)
  | umount (target : String) (flags : Int32)
  | fault (point : String)

/-- The answers to these operations. -/
abbrev RootAns : RootOp → Type
  | .volume op => VolumeAns op
  | .mount _ _ _ _ _ => Result Unit
  | .mknod _ _ _ _ => Result Unit
  | .pathExists _ => Bool
  | .isDirectory _ => Option Bool
  | .removeFile _ => Result Unit
  | .symlink _ _ => Result Unit
  | .chdir _ => Result Unit
  | .pivotRoot _ _ => Result Unit
  | .umount _ _ => Result Unit
  | .fault _ => Result Unit

abbrev RootAct := Fallible RootOp RootAns Error

namespace RootSetup

open Volumes

/-- One operation. -/
abbrev askRoot (op : RootOp) : Prog RootOp RootAns (RootAns op) :=
  Prog.perform op

/-- A program of `mount_volumes` and its helpers. -/
def fromVolume {α : Type} (p : VolumeAct α) : RootAct α :=
  .of (Prog.map .volume (fun _ answer => answer) p.run)

/-- `MS_NOEXEC`, `MS_PRIVATE`, `MS_STRICTATIME`, `MNT_DETACH`. -/
def msNoexec : UInt64 := 8
def msPrivate : UInt64 := 262144
def msStrictatime : UInt64 := 16777216
def mntDetach : Int32 := 2

/-- `mount`. -/
def mountCall (source : Option String) (target : String)
    (fstype : Option String) (flags : UInt64) (data : Option String) :
    RootAct Unit :=
  .of (askRoot (.mount source target fstype flags data))

/-- `make_rprivate`. -/
def makeRprivate (path : String) : RootAct Unit :=
  mountCall none path none (msRec ||| msPrivate) none

/-- `bind`, of one mount only. -/
def bindOne (source target : String) : RootAct Unit :=
  mountCall (some source) target none msBind none

/-- `chdir`. -/
def chdir (path : String) : RootAct Unit :=
  .of (askRoot (.chdir path))

/-- `crate::fault::check`. -/
def faultCheck (point : String) : RootAct Unit :=
  .of (askRoot (.fault point))

/-- `DEVICES`. -/
def devices : List (String × UInt64 × UInt64 × UInt32) :=
  [("null", 1, 3, 0o666), ("zero", 1, 5, 0o666), ("full", 1, 7, 0o666),
    ("random", 1, 8, 0o666), ("urandom", 1, 9, 0o666), ("tty", 5, 0, 0o666)]

/-- `DEV_SYMLINKS`. -/
def devSymlinks : List (String × String) :=
  [("/proc/self/fd", "fd"), ("/proc/self/fd/0", "stdin"),
    ("/proc/self/fd/1", "stdout"), ("/proc/self/fd/2", "stderr"),
    ("/proc/kcore", "core")]

/-- The first loop of `make_devices`. -/
def makeNodes (devDir : String) :
    List (String × UInt64 × UInt64 × UInt32) → RootAct Unit
  | [] => return ()
  | (name, major, minor, mode) :: rest => do
      let target := pushPath devDir name
      let made : RootAct Unit := .of (askRoot (.mknod target mode major minor))
      match ← made.attempt with
      | .ok _ => makeNodes devDir rest
      | .error e =>
          let host := pushPath "/dev" name
          if ← Fallible.lift (askRoot (.pathExists host)) then do
            fromVolume (.of (askVolume (.touch target)))
            (bindOne host target).mapErr fun e2 =>
              .container ("could not provide /dev/" ++ name ++
                ": mknod said " ++ e.display ++ ", bind said " ++ e2.display)
            makeNodes devDir rest
          else makeNodes devDir rest

/-- The last loop of `make_devices`. -/
def makeLinks (devDir : String) : List (String × String) → RootAct Unit
  | [] => return ()
  | (target, name) :: rest => do
      let link := pushPath devDir name
      if ← Fallible.lift (askRoot (.pathExists link)) then makeLinks devDir rest
      else do
        let _ ← Fallible.lift (askRoot (.symlink target link))
        makeLinks devDir rest

/-- `make_devices`. -/
def makeDevices (devDir : String) : RootAct Unit := do
  makeNodes devDir devices
  let ptmx := pushPath devDir "ptmx"
  let _ ← Fallible.lift (askRoot (.removeFile ptmx))
  let _ ← Fallible.lift (askRoot (.symlink "pts/ptmx" ptmx))
  makeLinks devDir devSymlinks

/-- The `/sys` part of `mount_standard`. -/
def mountSys (sysDir : String) : RootAct Unit := do
  let mounted ← (mountCall (some "sysfs") sysDir (some "sysfs")
    (msNosuid ||| msNoexec ||| msNodev ||| msRdonly) none).attempt
  match mounted with
  | .ok _ => return ()
  | .error _ => do
      fromVolume (bind "/sys" sysDir)
      fromVolume (remountRo sysDir msRec)

/-- `mount_standard`. -/
def mountStandard (root : String) (cfg : ContainerConfig) : RootAct Unit := do
  let procDir := join root "proc"
  fromVolume (mkdirP (pathComponents procDir) 0o755)
  mountCall (some "proc") procDir (some "proc")
    (msNosuid ||| msNoexec ||| msNodev) none
  let sysDir := join root "sys"
  fromVolume (mkdirP (pathComponents sysDir) 0o755)
  mountSys sysDir
  let devDir := join root "dev"
  fromVolume (mkdirP (pathComponents devDir) 0o755)
  mountCall (some "tmpfs") devDir (some "tmpfs")
    (msNosuid ||| msStrictatime) (some "mode=755,size=65536k")
  let pts := pushPath devDir "pts"
  fromVolume (mkdirP (pathComponents pts) 0o755)
  let _ ← (mountCall (some "devpts") pts (some "devpts")
    (msNosuid ||| msNoexec) (some "gid=5,mode=620,ptmxmode=666")).attempt
  let shm := pushPath devDir "shm"
  fromVolume (mkdirP (pathComponents shm) 0o755)
  mountCall (some "shm") shm (some "tmpfs")
    (msNosuid ||| msNoexec ||| msNodev) (some "mode=1777,size=65536k")
  let mqueue := pushPath devDir "mqueue"
  fromVolume (mkdirP (pathComponents mqueue) 0o755)
  let _ ← (mountCall (some "mqueue") mqueue (some "mqueue")
    (msNosuid ||| msNoexec ||| msNodev) none).attempt
  let tmp := join root "tmp"
  fromVolume (mkdirP (pathComponents tmp) 0o1777)
  mountCall (some "tmpfs") tmp (some "tmpfs") (msNosuid ||| msNodev)
    (some "mode=1777,size=131072k")
  makeDevices devDir
  fromVolume (mountVolumes root cfg.mounts)

/-- `mask_paths`. A path that is missing, or cannot be masked, is passed
over. -/
def maskPaths : List String → RootAct Unit
  | [] => return ()
  | path :: rest => do
      match ← Fallible.lift (askRoot (.isDirectory path)) with
      | none => maskPaths rest
      | some isDir => do
          let _ ← (if isDir then
              mountCall (some "tmpfs") path (some "tmpfs")
                (msRdonly ||| msNosuid ||| msNodev ||| msNoexec)
                (some "size=0k")
            else bindOne "/dev/null" path).attempt
          maskPaths rest

/-- `readonly_paths`. -/
def readonlyPaths : List String → RootAct Unit
  | [] => return ()
  | path :: rest => do
      if ← Fallible.lift (askRoot (.pathExists path)) then
        match ← (fromVolume (bind path path)).attempt with
        | .error _ => readonlyPaths rest
        | .ok _ => do
            let _ ← (fromVolume (remountRo path msRec)).attempt
            readonlyPaths rest
      else readonlyPaths rest

/-- The pivot, and the end of the old root. -/
def enterRoot (root : String) : RootAct Unit := do
  chdir root
  Fallible.of (askRoot (.pivotRoot "." "."))
  Fallible.of (askRoot (.umount "." mntDetach))
  chdir "/"

/-- `setup`. -/
def setup (cfg : ContainerConfig) : RootAct Unit := do
  let root := cfg.rootfs
  makeRprivate "/"
  fromVolume (bind root root)
  mountStandard root cfg
  if cfg.readOnly then fromVolume (remountRo root 0)
  faultCheck "before_pivot_root"
  enterRoot root
  faultCheck "after_pivot_root"
  if cfg.security.privileged then return ()
  else do
    maskPaths cfg.security.maskedPaths
    readonlyPaths cfg.security.readonlyPaths

end RootSetup

/-! ## The mount namespaces -/

/-- What a mount was made by. -/
structure MountCall where
  source : Option String
  fstype : Option String
  flags : UInt64
  deriving Repr, DecidableEq

/-- The mounts of the host and of the process, and where the process is. -/
structure RootWorld where
  table : MountTable MountCall
  /-- the namespace of the process -/
  space : Nat
  root : Nat
  cwd : Nat
  /-- the old root, on top of the new one -/
  stacked : Option Nat
  /-- the mount that a path leads to -/
  names : String → Nat
  /-- the mounts below a path, which a recursive bind takes along -/
  below : String → List Nat
  /-- the paths that the process has mounted on -/
  settled : List String

/-- What others do meanwhile. -/
inductive RootHappening where
  | mount (on : Nat) (shared : Option Nat)
  | umount (id : Nat)
  | rename (path : String) (id : Nat) (below : List Nat)

namespace RootWorld

open MountTable Volumes RootSetup

/-- A mount of the process's namespace. -/
def own (w : RootWorld) (id : Nat) : Option (Mount MountCall) :=
  (w.table.find id).filter fun m => m.space = w.space

/-- One mount of a recursive bind, on top of the first. -/
def graft (space top : Nat) (call : MountCall) (t : MountTable MountCall)
    (id : Nat) : MountTable MountCall :=
  match t.find id, t.find top with
  | some source, some on =>
      if source.space = space ∧ on.space = space then
        t.attach on source.shared (some call)
      else t
  | _, _ => t

/-- What is on a path now leads to the new mount. -/
def settle (w : RootWorld) (target : String) (table : MountTable MountCall) :
    RootWorld :=
  { w with
    table
    names := Function.update w.names target w.table.next
    settled := target :: w.settled }

/-- After a successful `mount`. A remount changes the flags of a mount, which
the table does not have; of the changes of propagation only the one of the whole
namespace is followed. -/
def mounted (w : RootWorld) (call : MountCall) (target : String) :
    Option RootWorld :=
  match w.own (w.names target) with
  | none => none
  | some d =>
      if call.flags &&& msRemount ≠ 0 then some w
      else if call.flags &&& msPrivate ≠ 0 then
        if target = "/" ∧ call.flags &&& msRec ≠ 0 then
          some { w with table := w.table.privatise w.space }
        else none
      else if call.flags &&& msBind ≠ 0 then
        match call.source with
        | none => none
        | some path =>
            match w.own (w.names path) with
            | none => none
            | some source =>
                let top := w.table.attach d source.shared (some call)
                some (w.settle target
                  (if call.flags &&& msRec ≠ 0 then
                    (w.below path).foldl (graft w.space w.table.next call) top
                  else top))
      else some (w.settle target (w.table.attach d none (some call)))

/-- After a successful `pivot_root`: the working directory is the root of
another mount, and nothing involved is shared. -/
def pivoted (w : RootWorld) : Option RootWorld :=
  match w.own w.cwd, w.own w.root with
  | some new, some old =>
      if new.id ≠ old.id ∧ new.shared = none ∧
          w.table.parentGroup new = none ∧ w.table.parentGroup old = none then
        some { w with
          table := w.table.pivot old.id new.id
          root := new.id
          stacked := some old.id }
      else none
  | _, _ => none

/-- The namespaces after an operation, if the answer is possible. -/
def answer (w : RootWorld) : (op : RootOp) → RootAns op → Option RootWorld
  | .volume (.mount source target fstype flags), .ok () =>
      w.mounted { source, fstype, flags } target
  | .volume _, _ => some w
  | .mount source target fstype flags _, .ok () =>
      w.mounted { source, fstype, flags } target
  | .mount _ _ _ _ _, .error _ => some w
  | .chdir path, .ok () =>
      if path = "/" then some { w with cwd := w.root }
      else (w.own (w.names path)).map fun m => { w with cwd := m.id }
  | .chdir _, .error _ => some w
  | .pivotRoot _ _, .ok () => w.pivoted
  | .pivotRoot _ _, .error _ => some w
  | .umount _ _, .ok () =>
      (w.own (w.stacked.getD w.cwd)).map fun m =>
        { w with
          table := w.table.detach (w.table.victims m)
          stacked := none }
  | .umount _ _, .error _ => some w
  | _, _ => some w

/-- What others can do: mount and unmount in their own namespaces, and move
directories, but not those that the process has mounted on; what is mounted
over these is its own. -/
def happen (w : RootWorld) : RootHappening → Option RootWorld
  | .mount on shared =>
      (w.table.find on).bind fun d =>
        if d.space ≠ w.space then
          some { w with table := w.table.attach d shared none }
        else none
  | .umount id =>
      (w.table.find id).bind fun m =>
        if m.space ≠ w.space then
          some { w with table := w.table.detach (w.table.victims m) }
        else none
  | .rename path id below =>
      if path ∈ w.settled → (w.own id).any fun m => m.tag.isSome then
        some { w with
          names := Function.update w.names path id
          below := Function.update w.below path below }
      else none

end RootWorld

/-- One process that sets up its root, and its host. -/
abbrev rootSystem : System RootOp RootAns where
  World := RootWorld
  Pid := Unit
  Happening := RootHappening
  Out := Result Unit
  answer w _ op answer := w.answer op answer
  happen w what := w.happen what
  starts _ _ := none
  bury w _ := w

end Myrun
