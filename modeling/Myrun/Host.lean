import Mathlib.Data.List.Dedup
import Mathlib.Logic.Function.Basic
import Myrun.Ipam
import Myrun.Prog
import Myrun.RuleText
import Myrun.State

namespace Myrun

/-!
# The host

The operations the runtime asks of its host, and the part of the host they act
on: the state files and their locks, the init processes, the cgroup tree, the
lease table, the host's network links and the packet filter.

`World.answer` says which answers the host can give and what it then looks
like.  An operation can fail at any time unless stated otherwise; one that fails
leaves the world as it was.  Answers the model leaves open (the text of a kernel
file, a frame on the channel to init) are unconstrained, so what is proved
holds whatever they are.
-/

/-- The places that write `state.json`. -/
inductive SavePoint where
  | storeCreate
  | create
  | launch
  | launchFailed
  | shim
  | waitForExit
  | teardown
  | reconcile
  | start
  | kill
  | stop
  | pause
  | unpause
  deriving Repr, DecidableEq

/-- Preparations that can fail and leave no trace on the host. -/
inductive Preparation where
  | openStore
  | redirectOutput
  | sealedSelfExe
  | channelPair
  | execPlan
  | openCgroup (path : String)
  | notifyPipe
  | openNetlink
  | blockSignals
  | signalFd
  deriving Repr, DecidableEq

/-- An open lock file.  Removing a container's directory removes its lock file;
a later `lock` opens a new one. -/
structure LockFile where
  id : String
  incarnation : Nat
  deriving Repr, DecidableEq

/-- What is read of `/proc/<pid>/stat`. -/
structure ProcStat where
  zombie : Bool
  startTime : UInt64
  deriving Repr, DecidableEq

/-- A frame on the channel between the supervisor and init. -/
inductive Frame where
  | ready
  | started
  | error (message : String)
  | exit (payload : Option (Int32 × Int32))
  | other (tag : UInt8)
  deriving Repr, DecidableEq

/-- A reply on the notify pipe of a shim. -/
structure Notice where
  ok : Bool
  message : String
  deriving Repr, DecidableEq

/-- Reading the notify pipe to its end. -/
inductive NotifyRead where
  | notice (n : Notice)
  | closed
  | failed (e : Error)
  deriving Repr, DecidableEq

/-- Removing a container's directory. -/
inductive Removal where
  | removed
  | failed (stateGone : Bool) (e : Error)
  deriving Repr, DecidableEq

/-- `rmdir`. -/
inductive Rmdir where
  | removed
  | busy
  | failed (e : Error)
  deriving Repr, DecidableEq

/-- `poll_fds` in the attached supervisor. -/
inductive Poll where
  | timeout
  | failed
  | ready (signals : List Int32) (channel : Bool)
  deriving Repr, DecidableEq

/-- Packet filter tables. -/
inductive Table where
  | nat
  | filter
  deriving Repr, DecidableEq

instance : LawfulBEq (Table × String) :=
  inferInstance

/-- One rule: its table, its chain and the arguments after the chain name. -/
structure Rule where
  table : Table
  chain : String
  args : List String
  deriving Repr, DecidableEq

/-- The rule that `iptables` makes of a table and its arguments: the chain comes
first. -/
def Rule.ofArgs (table : Table) (args : List String) : Rule where
  table := table
  chain := args.headD ""
  args := args.tail

/-- A rule as `iptables -S` prints it. -/
def Rule.printed (r : Rule) : List Char :=
  [' '].intercalate (['-', 'A'] :: r.chain.toList :: printedArgs false r.args)

/-- The chains a table always has. -/
def Table.builtinChains : Table → List String
  | .nat => ["PREROUTING", "INPUT", "OUTPUT", "POSTROUTING"]
  | .filter => ["INPUT", "FORWARD", "OUTPUT"]

/-- Does the rule jump or go to a chain? -/
def Rule.refersTo (r : Rule) (chain : String) : Bool :=
  decide (["-j", chain] <:+: r.args) || decide (["-g", chain] <:+: r.args)

/-- The `iptables` commands that are run. -/
inductive Iptables where
  | listTable (table : Table)
  | listChain (table : Table) (chain : String)
  | newChain (table : Table) (chain : String)
  | check (rule : Rule)
  | append (rule : Rule)
  | insert (rule : Rule)
  | delete (rule : Rule)
  | flush (table : Table) (chain : String)
  | deleteChain (table : Table) (chain : String)
  deriving Repr, DecidableEq

/-- The operations on the host outside the state store and the processes of
the runtime. -/
inductive HostOp where
  | fault (point : String)
  | now
  | deadlinePassed
  | sleep
  | prepare (what : Preparation)
  | writeConfig (id : String) (config : ContainerConfig)
  | kill (pid : Pid) (signal : Int32)
  | poll (pid : Pid)
  -- the cgroup tree and other kernel files
  | cgroupMount
  | allowMissingControllers
  | dirExists (path : String)
  | fileExists (path : String)
  | readText (path : String)
  | writeText (path text : String)
  | addPid (path : String) (pid : Pid)
  | makeDir (path : String)
  | removeEmptyDir (path : String)
  | subdirs (path : String)
  -- address leases
  | leaseAllocate (subnet id : String) (requested : Option Ipv4)
      (gateway : Ipv4)
  | leaseRelease (id : String)
  | leaseGc (liveIds : List String)
  -- links
  | linkIndex (name : String)
  | listLinks
  | createBridge (name : String)
  | createVeth (host peer : String)
  | deleteLink (index : UInt32)
  | addAddress (index : UInt32) (ip : Ipv4) (prefixLen : UInt8)
  | setUp (index : UInt32)
  | setMtu (index : UInt32) (mtu : UInt32)
  | setMaster (index master : UInt32)
  | moveToNetns (index : UInt32) (pid : Pid) (name : String)
  -- the packet filter
  | iptables (command : Iptables)
  | iptablesDump (table : Table)

/-- The answers to these operations. -/
abbrev HostAns : HostOp → Type
  | .fault _ => Result Unit
  | .now => UInt64
  | .deadlinePassed => Bool
  | .sleep => Unit
  | .prepare _ => Result Unit
  | .writeConfig _ _ => Result Unit
  | .kill _ _ => Result Unit
  | .poll _ => Poll
  | .cgroupMount => Option String
  | .allowMissingControllers => Bool
  | .dirExists _ => Bool
  | .fileExists _ => Bool
  | .readText _ => Result String
  | .writeText _ _ => Result Unit
  | .addPid _ _ => Result Unit
  | .makeDir _ => Result Unit
  | .removeEmptyDir _ => Rmdir
  | .subdirs _ => Result (List String)
  | .leaseAllocate _ _ _ _ => Result (Ipv4 × UInt8)
  | .leaseRelease _ => Result Unit
  | .leaseGc _ => Result Nat
  | .linkIndex _ => Result (Option UInt32)
  | .listLinks => Result (List String)
  | .createBridge _ => Result Unit
  | .createVeth _ _ => Result Unit
  | .deleteLink _ => Result Unit
  | .addAddress _ _ _ => Result Unit
  | .setUp _ => Result Unit
  | .setMtu _ _ => Result Unit
  | .setMaster _ _ => Result Unit
  | .moveToNetns _ _ _ => Result Unit
  | .iptables _ => Result Unit
  | .iptablesDump _ => Result String

/-- The operations of the supervisor that init sees: frames on their channel
and the network file. -/
inductive ChannelOp where
  | recv (pid : Pid)
  | sendGo (pid : Pid)
  | writeNetstate (id : String) (network : NetworkState)

/-- The answers to these operations. -/
abbrev ChannelAns : ChannelOp → Type
  | .recv _ => Result (Option Frame)
  | .sendGo _ => Result Unit
  | .writeNetstate _ _ => Result Unit

/-- All operations: those on the host, towards init, on the state store and on
the processes of the runtime. -/
inductive Op where
  | host (op : HostOp)
  | channel (op : ChannelOp)
  -- the state store
  | openLock (id : String)
  | flock (file : LockFile)
  | funlock (file : LockFile)
  | readState (id : String)
  | writeState (place : SavePoint) (st : ContainerState)
  | removeDir (id : String)
  | dirEntries
  | stateExists (id : String)
  -- processes
  | launching (id : String)
  | cloneInit (id : String) (cgroup : Option String)
  | procStat (pid : Pid)
  | waitPid (pid : Pid) (nohang : Bool)
  | forkShim (id : String) (rounds : Nat)
  | getpid
  | notify (notice : Notice)
  | readNotify (shim : Pid)
  -- a loop that goes on for longer than it is followed
  | spin

/-- The answers. -/
abbrev Ans : Op → Type
  | .host op => HostAns op
  | .channel op => ChannelAns op
  | .openLock _ => Result LockFile
  | .flock _ => Result Unit
  | .funlock _ => Unit
  | .readState _ => Result ContainerState
  | .writeState _ _ => Result Unit
  | .removeDir _ => Removal
  | .dirEntries => Result (List String)
  | .stateExists _ => Bool
  | .launching _ => Unit
  | .cloneInit _ _ => Result Pid
  | .procStat _ => Result ProcStat
  | .waitPid _ _ => Result (Option ExitStatus)
  | .forkShim _ _ => Result Pid
  | .getpid => Pid
  | .notify _ => Unit
  | .readNotify _ => NotifyRead
  | .spin => Empty

/-- A program on the host that returns a `Result`. -/
abbrev HostAct := Fallible HostOp HostAns Error

/-- A program of the runtime. -/
abbrev Proc := Prog Op Ans

/-- A program of the runtime that returns a `Result`. -/
abbrev Act := Fallible Op Ans Error

/-- One operation on the host. -/
abbrev askHost (op : HostOp) : Prog HostOp HostAns (HostAns op) :=
  Prog.perform op

/-- One operation. -/
abbrev ask (op : Op) : Proc (Ans op) :=
  Prog.perform op

/-- A program on the host, as a program of the runtime. -/
def HostAct.embed {α : Type} (p : HostAct α) : Act α :=
  Fallible.of (p.run.map Op.host fun _ answer => answer)

instance : MonadLift HostAct Act where
  monadLift := HostAct.embed

/-- `crate::fault::check`. -/
def Fault.check (point : String) : HostAct Unit :=
  .of (askHost (.fault point))

/-- `now_ms`. -/
def nowMs : HostAct UInt64 :=
  .lift (askHost .now)

/-- `thread::sleep`. -/
def sleep : HostAct Unit :=
  .lift (askHost .sleep)

/-- A preparation that can fail. -/
def prepare (what : Preparation) : HostAct Unit :=
  .of (askHost (.prepare what))

/-- `kill_pid`. -/
def killPid (pid : Pid) (signal : Int32) : HostAct Unit :=
  .of (askHost (.kill pid signal))

/-! ## The world -/

/-- An init process the runtime has cloned. -/
structure InitProc where
  pid : Pid
  container : String
  startTime : UInt64
  alive : Bool
  cgroup : Option String
  deriving Repr, DecidableEq

/-- A link in the host's network namespace. -/
structure Link where
  index : UInt32
  name : String
  /-- the other end of a pair that is still in the host's namespace -/
  peer : Option UInt32 := none
  /-- the process whose namespace holds the other end -/
  peerIn : Option Pid := none
  deriving Repr, DecidableEq

/-- What the runtime's operations act on. -/
structure World where
  states : List ContainerState := []
  incarnation : String → Nat := fun _ => 0
  holder : LockFile → Option Pid := fun _ => none
  inits : List InitProc := []
  /-- start time of the next process -/
  uptime : UInt64 := 1
  notices : Pid → Option Notice := fun _ => none
  /-- processes that were killed -/
  gone : Pid → Bool := fun _ => false
  mount : Option String := none
  allowMissing : Bool := false
  dirs : List String := []
  /-- kernel files written, newest first -/
  written : List (String × String) := []
  leases : Leases := {}
  links : List Link := []
  nextIndex : UInt32 := 1
  chains : List (Table × String) := []
  rules : List Rule := []

namespace World

/-- The contents of a state file. -/
def state? (w : World) (id : String) : Option ContainerState :=
  w.states.find? (·.id = id)

/-- Write a state file. -/
def putState (w : World) (st : ContainerState) : World :=
  { w with states := st :: w.states.filter (·.id ≠ st.id) }

/-- Remove a state file. -/
def dropState (w : World) (id : String) : World :=
  { w with states := w.states.filter (·.id ≠ id) }

/-- The init process with a given pid, the newest one first. -/
def init? (w : World) (pid : Pid) : Option InitProc :=
  w.inits.find? (·.pid = pid)

/-- Is the init process with this pid alive? -/
def initAlive (w : World) (pid : Pid) : Bool :=
  (w.init? pid).any (·.alive)

/-- Mark an init process as dead. -/
def initDies (w : World) (pid : Pid) : World :=
  { w with inits :=
      w.inits.map fun p => if p.pid = pid then { p with alive := false } else p }

/-- A directory with a live process in it cannot be removed. -/
def populated (w : World) (path : String) : Bool :=
  w.inits.any fun p => p.alive && p.cgroup = some path

/-- The link with a given name. -/
def link? (w : World) (name : String) : Option Link :=
  w.links.find? (·.name = name)

/-- Deleting one end of a pair deletes both. -/
def withoutLink (w : World) (index : UInt32) : World :=
  { w with links :=
      w.links.filter fun l => l.index ≠ index ∧ l.peer ≠ some index }

/-- The unchanged world, provided a condition holds. -/
def provided (w : World) (c : Prop) [Decidable c] : Option World :=
  if c then some w else none

/-- A pid for a new process. -/
def freshPid (w : World) (pid : Pid) : Bool :=
  0 < pid && (w.init? pid).isNone

/-- What `/proc` shows of a process. -/
def shows (w : World) (pid : Pid) (stat : ProcStat) : Bool :=
  match w.init? pid with
  | some p =>
      if p.alive then !stat.zombie && stat.startTime = p.startTime
      else stat.zombie || stat.startTime ≠ p.startTime
  | none => true

/-- A chain that exists. -/
def hasChain (w : World) (table : Table) (chain : String) : Bool :=
  decide (chain ∈ table.builtinChains) || decide ((table, chain) ∈ w.chains)

/-- A chain that rules jump to, or that holds rules. -/
def chainBusy (w : World) (table : Table) (chain : String) : Bool :=
  w.rules.any fun r =>
    r.table = table && (r.chain = chain || r.refersTo chain)

/-- What `iptables -S` prints for a table, less the policies and the names of
the chains: a line for each rule. -/
def dump (w : World) (table : Table) : String :=
  String.ofList ((w.rules.filter (·.table = table)).flatMap fun r =>
    r.printed ++ ['\n'])

/-- `iptables` commands without output.  The rules of a chain are those of the
list with its name, in the order of the list. -/
def runIptables (w : World) : Iptables → Option World
  | .listTable _ => some w
  | .listChain table chain => w.provided (w.hasChain table chain = true)
  | .newChain table chain =>
      if w.hasChain table chain then none
      else some { w with chains := w.chains ++ [(table, chain)] }
  | .check rule => w.provided (rule ∈ w.rules)
  | .append rule =>
      if w.hasChain rule.table rule.chain then
        some { w with rules := w.rules ++ [rule] }
      else none
  | .insert rule =>
      if w.hasChain rule.table rule.chain then
        some { w with rules := rule :: w.rules }
      else none
  | .delete rule =>
      if rule ∈ w.rules then some { w with rules := w.rules.erase rule }
      else none
  | .flush table chain =>
      if w.hasChain table chain then
        some { w with rules :=
          w.rules.filter fun r => ¬ (r.table = table ∧ r.chain = chain) }
      else none
  | .deleteChain table chain =>
      if (table, chain) ∈ w.chains ∧ w.chainBusy table chain = false then
        some { w with chains := w.chains.filter (· ≠ (table, chain)) }
      else none

/-- The world after an operation on the host, if it can give this answer. -/
def hostAnswer (w : World) : (op : HostOp) → HostAns op → Option World
  | .fault _, _ => some w
  | .now, _ => some w
  | .deadlinePassed, _ => some w
  | .sleep, _ => some w
  | .prepare _, _ => some w
  | .writeConfig _ _, _ => some w
  | .kill _ _, _ => some w
  | .poll _, _ => some w
  | .cgroupMount, answer => w.provided (answer = w.mount)
  | .allowMissingControllers, answer => w.provided (answer = w.allowMissing)
  | .dirExists path, answer => w.provided (answer = decide (path ∈ w.dirs))
  | .fileExists _, _ => some w
  | .readText _, _ => some w
  | .writeText path text, .ok _ =>
      some { w with written := (path, text) :: w.written }
  | .writeText _ _, .error _ => some w
  | .addPid path pid, .ok _ =>
      some { w with inits := w.inits.map fun p =>
        if p.pid = pid then { p with cgroup := some path } else p }
  | .addPid _ _, .error _ => some w
  | .makeDir path, .ok _ =>
      if path ∈ w.dirs then none else some { w with dirs := path :: w.dirs }
  | .makeDir _, .error _ => some w
  | .removeEmptyDir path, .removed =>
      if path ∉ w.dirs || w.populated path then none
      else some { w with dirs := w.dirs.filter (· ≠ path) }
  | .removeEmptyDir _, .busy => some w
  | .removeEmptyDir _, .failed _ => some w
  | .subdirs path, .ok names =>
      w.provided (names = w.dirs.filterMap (stripLeading (path ++ "/")))
  | .subdirs _, .error _ => some w
  | .leaseAllocate subnet id requested gateway, .ok granted =>
      match parseCidr subnet, w.leases.assign subnet id requested gateway with
      | .ok (_, prefixLen), .ok (ip, change) =>
          if granted = (ip, prefixLen) then
            some { w with leases := change.getD w.leases }
          else none
      | _, _ => none
  | .leaseAllocate _ _ _ _, .error _ => some w
  | .leaseRelease id, .ok _ => some { w with leases := w.leases.without id }
  | .leaseRelease _, .error _ => some w
  | .leaseGc liveIds, .ok removed =>
      let kept := w.leases.keeping liveIds
      if removed = w.leases.entries.length - kept.entries.length then
        some { w with leases := kept }
      else none
  | .leaseGc _, .error _ => some w
  | .linkIndex name, .ok index =>
      w.provided (index = (w.link? name).map Link.index)
  | .linkIndex _, .error _ => some w
  | .listLinks, .ok names => w.provided (names = w.links.map Link.name)
  | .listLinks, .error _ => some w
  | .createBridge name, .ok _ =>
      if (w.link? name).isSome then none
      else some { w with
        links := w.links ++ [{ index := w.nextIndex, name }]
        nextIndex := w.nextIndex + 1 }
  | .createBridge _, .error _ => some w
  | .createVeth host peer, .ok _ =>
      if (w.link? host).isSome || (w.link? peer).isSome then none
      else some { w with
        links := w.links ++
          [{ index := w.nextIndex, name := host,
             peer := some (w.nextIndex + 1) },
           { index := w.nextIndex + 1, name := peer,
             peer := some w.nextIndex }]
        nextIndex := w.nextIndex + 2 }
  | .createVeth _ _, .error _ => some w
  | .deleteLink index, .ok _ => some (w.withoutLink index)
  | .deleteLink _, .error _ => some w
  | .addAddress _ _ _, _ => some w
  | .setUp _, _ => some w
  | .setMtu _ _, _ => some w
  | .setMaster _ _, _ => some w
  | .moveToNetns index pid _, .ok _ =>
      some { w with links := (w.links.filter (·.index ≠ index)).map fun l =>
        if l.peer = some index then { l with peer := none, peerIn := some pid }
        else l }
  | .moveToNetns _ _ _, .error _ => some w
  | .iptables command, .ok _ => w.runIptables command
  | .iptables _, .error _ => some w
  | .iptablesDump table, .ok text => w.provided (text = w.dump table)
  | .iptablesDump _, .error _ => some w

/-- The world after an operation, if the host can give this answer. -/
def answer (w : World) (self : Pid) : (op : Op) → Ans op → Option World
  | .host op, answer => w.hostAnswer op answer
  | .channel _, _ => some w
  | .openLock id, .ok file =>
      w.provided (file = { id, incarnation := w.incarnation id })
  | .openLock _, .error _ => some w
  | .flock file, .ok _ =>
      if w.holder file = none then
        some { w with holder := Function.update w.holder file (some self) }
      else none
  | .flock _, .error _ => some w
  | .funlock file, _ =>
      if w.holder file = some self then
        some { w with holder := Function.update w.holder file none }
      else some w
  | .readState id, .ok st => w.provided (w.state? id = some st)
  | .readState _, .error _ => some w
  | .writeState _ st, .ok _ => some (w.putState st)
  | .writeState _ _, .error _ => some w
  | .removeDir id, .removed =>
      some { w.dropState id with
        incarnation :=
          Function.update w.incarnation id (w.incarnation id + 1) }
  | .removeDir id, .failed stateGone _ =>
      some (if stateGone then w.dropState id else w)
  | .dirEntries, .ok entries =>
      w.provided (entries = (w.states.map (·.id)).dedup)
  | .dirEntries, .error _ => some w
  | .stateExists id, answer => w.provided (answer = (w.state? id).isSome)
  | .launching _, _ => some w
  | .cloneInit id cgroup, .ok pid =>
      if w.freshPid pid then
        some { w with
          inits :=
            { pid, container := id, startTime := w.uptime, alive := true,
              cgroup } :: w.inits
          uptime := w.uptime + 1 }
      else none
  | .cloneInit _ _, .error _ => some w
  | .procStat pid, .ok stat => w.provided (w.shows pid stat)
  | .procStat _, .error _ => some w
  -- a blocking wait returns only when the process is gone
  | .waitPid pid nohang, _ => w.provided (nohang ∨ ¬ w.initAlive pid)
  | .forkShim _ _, .ok pid => w.provided (w.freshPid pid)
  | .forkShim _ _, .error _ => some w
  | .getpid, pid => w.provided (pid = self)
  | .notify notice, _ =>
      some { w with notices := Function.update w.notices self (some notice) }
  | .readNotify shim, .notice n => w.provided (w.notices shim = some n)
  | .readNotify shim, .closed =>
      w.provided (w.gone shim ∧ w.notices shim = none)
  | .readNotify _, .failed _ => some w

/-- What the host does on its own. -/
inductive Happening where
  /-- an init process ends, for whatever reason -/
  | initDies (pid : Pid)
  /-- the kernel removes a pair whose other end was in a dead namespace -/
  | linkVanishes (index : UInt32)
  deriving Repr, DecidableEq

/-- Whether a link belongs to a namespace whose processes are gone. -/
def linkOrphaned (w : World) (index : UInt32) : Bool :=
  w.links.any fun l =>
    l.index = index && l.peerIn.any fun pid => !w.initAlive pid

/-- A change of the host on its own. -/
def happen (w : World) : Happening → Option World
  | .initDies pid => some (w.initDies pid)
  | .linkVanishes index =>
      if w.linkOrphaned index then some (w.withoutLink index) else none

/-- A killed process loses its locks; its end of the notify pipe is closed. -/
def bury (w : World) (pid : Pid) : World :=
  { w with
    holder := fun file => if w.holder file = some pid then none else w.holder file
    gone := Function.update w.gone pid true }

end World

end Myrun
