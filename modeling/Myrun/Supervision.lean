import Myrun.Discipline
import Myrun.ExitChain
import Myrun.Interpretation

namespace Myrun

/-!
# Supervision of the workload

What init does while the workload runs and after it: `supervise` and
`shutdown_remaining` of `src/runtime/init.rs`, with `wait_pid`, `reap_all` and
`list_pids_in_proc` of `src/sys/process.rs` and `next_signal` and `poll_fds` of
`src/sys/signal.rs`, over the system calls that they make.

Loops are bounded by a number of rounds; a loop that needs more stays in
`SpaceOp.spin`.
-/

/-- What `waitpid` returns. -/
inductive WaitReply where
  | failed (errno : Int32)
  /-- no child has changed -/
  | nothing
  | changed (pid : Pid) (status : Int32)
  deriving Repr, DecidableEq

/-- What a read of the signal descriptor returns. -/
inductive SignalReply where
  | failed (errno : Int32)
  | short
  | full (signo : Int32)
  deriving Repr, DecidableEq

/-- The operations of init, with its supervision in system calls. -/
inductive SpaceOp where
  | init (op : InitOp)
  | waitpid (pid : Pid) (options : Int32)
  | poll (timeout : Int32)
  | readSignal
  | kill (pid : Pid) (signo : Int32)
  /-- the names in `/proc` -/
  | readProc
  | sleep (ms : Nat)
  | spin

/-- The answers to these operations. `spin` never returns. -/
abbrev SpaceAns : SpaceOp → Type
  | .init op => InitAns op
  | .waitpid _ _ => WaitReply
  | .poll _ => Except Int32 Nat
  | .readSignal => SignalReply
  | .kill _ _ => Result Unit
  | .readProc => Result (List String)
  | .sleep _ => Unit
  | .spin => Empty

/-- A program of PID 1. -/
abbrev PidOne := Prog SpaceOp SpaceAns

/-- `wifstopped`. -/
def wifstopped (status : Int32) : Bool :=
  status &&& 0xff = 0x7f

namespace PidOne

/-- One operation. -/
abbrev askSpace (op : SpaceOp) : PidOne (SpaceAns op) :=
  Prog.perform op

/-- A loop that is not followed any further. -/
def spin {α : Type} : PidOne α :=
  (askSpace .spin).bind fun never => nomatch (never : Empty)

/-- `EAGAIN`. -/
def eagain : Int32 := 11

/-- `ECHILD`. -/
def echild : Int32 := 10

/-- `SIGCHLD`. -/
def sigchld : Int32 := 17

/-- `WNOHANG`. -/
def wnohang : Int32 := 1

/-- `FORWARDED`. -/
def forwarded : List Int32 :=
  [15, 2, 3, 1, 10, 12, 28, 13]

/-- `wait_pid`. -/
def waitPid (pid : Pid) (options : Int32) :
    Nat → PidOne (Result (Option (Pid × ExitStatus)))
  | 0 => spin
  | tries + 1 => do
      match ← askSpace (.waitpid pid options) with
      | .failed errno =>
          if errno = Channel.eintr then waitPid pid options tries
          else if errno = echild then return .ok none
          else return .error (.syscall "waitpid" errno ("pid " ++ toString pid))
      | .nothing => return .ok none
      | .changed child status =>
          if wifstopped status then waitPid pid options tries
          else return .ok (some (child, .fromRaw status))

/-- The loop of `reap_all`, with what it has collected. -/
def reapFrom (tries : Nat) (out : List (Pid × ExitStatus)) :
    Nat → PidOne (List (Pid × ExitStatus))
  | 0 => spin
  | rounds + 1 => do
      match ← waitPid (-1) wnohang tries with
      | .ok (some child) => reapFrom tries (out ++ [child]) rounds
      | _ => return out

/-- `reap_all`. -/
def reapAll (bound : Nat) : PidOne (List (Pid × ExitStatus)) :=
  reapFrom bound [] bound

/-- `poll_fds`, on one descriptor. -/
def pollFds (timeout : Int32) : Nat → PidOne (Result Nat)
  | 0 => spin
  | tries + 1 => do
      match ← askSpace (.poll timeout) with
      | .ok ready => return .ok ready
      | .error errno =>
          if errno = Channel.eintr then pollFds timeout tries
          else return .error (.syscall "poll" errno "1 fds")

/-- `SignalFd::next_signal`. -/
def nextSignal : PidOne (Result (Option Int32)) := do
  match ← askSpace .readSignal with
  | .failed errno =>
      if errno = eagain ∨ errno = Channel.eintr then return .ok none
      else return .error (.syscall "read" errno "signalfd")
  | .short => return .ok none
  | .full signo => return .ok (some signo)

/-- The inner loop of `supervise`: what the descriptor has goes to the
workload. -/
def passOn (workload : Pid) : Nat → PidOne Unit
  | 0 => spin
  | signals + 1 => do
      match ← nextSignal with
      | .ok (some signo) =>
          if signo = sigchld then passOn workload signals
          else do
            let _ ← askSpace (.kill workload signo)
            passOn workload signals
      | _ => return ()

/-- The `result` of `supervise` after a round of reaping. A round that finds
one is the last, so every round begins without. -/
def resultOf (workload : Pid) (reaped : List (Pid × ExitStatus)) :
    Option ExitStatus :=
  reaped.foldl
    (fun result child =>
      if child.1 = workload then some child.2 else result)
    none

/-- The loop of `supervise`. -/
def superviseFrom (bound : Nat) (workload : Pid) : Nat → PidOne ExitStatus
  | 0 => spin
  | rounds + 1 => do
      let reaped ← reapAll bound
      match resultOf workload reaped with
      | some status => return status
      | none =>
          match ← pollFds 200 bound with
          | .ok 0 => superviseFrom bound workload rounds
          | .ok _ => do
              passOn workload bound
              superviseFrom bound workload rounds
          | .error _ => do
              askSpace (.sleep 50)
              superviseFrom bound workload rounds

/-- `supervise`. -/
def supervise (bound : Nat) (workload : Pid) : PidOne ExitStatus :=
  superviseFrom bound workload bound

/-- The processes that a reading of `/proc` names. -/
def pidsIn (names : Result (List String)) : Result (List Pid) :=
  names.map fun names =>
    (names.filterMap parseI32).insertionSort fun p q => p ≤ q

/-- `list_pids_in_proc`. -/
def listPids : PidOne (Result (List Pid)) := do
  let names ← askSpace .readProc
  return pidsIn names

/-- All but PID 1; none if there is no list. -/
def othersIn (pids : Result (List Pid)) : List Pid :=
  (pids.toOption.getD []).filter fun p => p ≠ 1

/-- One signal to each of them. -/
def signalEach (signo : Int32) : List Pid → PidOne Unit
  | [] => return ()
  | pid :: pids => do
      let _ ← askSpace (.kill pid signo)
      signalEach signo pids

/-- The grace period of `shutdown_remaining`; whether nothing was left. -/
def grace (bound : Nat) : Nat → PidOne Bool
  | 0 => return false
  | pauses + 1 => do
      askSpace (.sleep 25)
      let _ ← reapAll bound
      let left ← listPids
      if (othersIn left).length = 0 then return true
      else grace bound pauses

/-- `shutdown_remaining`. -/
def shutdownRemaining (bound : Nat) : PidOne Unit := do
  let remaining ← listPids
  let others := othersIn remaining
  if others.isEmpty then return ()
  else do
    signalEach sigterm others
    if ← grace bound 20 then return ()
    else do
      signalEach sigkill others
      let _ ← reapAll bound
      return ()

/-- What the operations of init are in system calls. -/
def does (bound : Nat) : (op : InitOp) → PidOne (InitAns op)
  | .supervise workload => supervise bound workload
  | .shutdownRemaining => shutdownRemaining bound
  | op => askSpace (.init op)

/-- `main` of init. -/
def main (bound : Nat) : PidOne Unit :=
  Init.main.interpret (does bound)

end PidOne

/-! ## The namespace of init -/

/-- A process other than init. Its number may be used again once it was waited
for; its birth is its own. -/
structure Member where
  pid : Pid
  birth : Nat
  /-- it is a child of init -/
  ofInit : Bool
  ended : Option Termination

/-- A child that `waitpid` would report. -/
def Member.Zombie (m : Member) : Prop :=
  m.ofInit = true ∧ m.ended.isSome = true

instance (m : Member) : Decidable m.Zombie :=
  inferInstanceAs (Decidable (_ ∧ _))

/-- How the member ended, if it is the child with this number and status. -/
def Member.reports (pid : Pid) (status : Int32) (m : Member) :
    Option (Member × Termination) :=
  match m.ended with
  | some how =>
      if m.pid = pid ∧ m.ofInit = true ∧ how.raw = status then some (m, how)
      else none
  | none => none

/-- The processes that init can see, and the signals that wait for it. -/
structure Space where
  members : List Member
  births : Nat
  /-- the birth of the workload -/
  workload : Option Nat
  pending : List Int32
  /-- births, numbers and ends of the children init has waited for -/
  reaped : List (Nat × Pid × Termination)

/-- What happens in the namespace by itself. -/
inductive SpaceHappening where
  | fork (pid : Pid) (ofInit : Bool)
  | finish (birth : Nat) (how : Termination)
  /-- its parent ended, and it becomes a child of init -/
  | orphan (birth : Nat)
  /-- its own parent waits for it -/
  | collect (birth : Nat)
  | raise (signo : Int32)

namespace Space

/-- A number that no process has. -/
def Unused (w : Space) (pid : Pid) : Prop :=
  0 < pid ∧ ∀ m ∈ w.members, m.pid ≠ pid

instance (w : Space) (pid : Pid) : Decidable (w.Unused pid) :=
  inferInstanceAs (Decidable (_ ∧ _))

/-- One more process. -/
def born (w : Space) (pid : Pid) (ofInit : Bool) : Space :=
  { w with
    members := { pid, birth := w.births, ofInit, ended := none } :: w.members
    births := w.births + 1 }

/-- Change the process with this birth. -/
def change (w : Space) (birth : Nat) (f : Member → Member) : Space :=
  { w with
    members := w.members.map fun m => if m.birth = birth then f m else m }

/-- Remove the process with this birth. -/
def drop (w : Space) (birth : Nat) : Space :=
  { w with members := w.members.filter fun m => m.birth ≠ birth }

/-- What can happen: a number is given once, an end is final, and only children
of others are waited for by others. -/
def happen (w : Space) : SpaceHappening → Option Space
  | .fork pid ofInit =>
      if w.Unused pid then some (w.born pid ofInit) else none
  | .finish birth how =>
      some (w.change birth fun m =>
        { m with ended := some (m.ended.getD how) })
  | .orphan birth =>
      some (w.change birth fun m => { m with ofInit := true })
  | .collect birth =>
      if w.members.any fun m =>
          m.birth = birth ∧ m.ofInit = false ∧ m.ended.isSome = true then
        some (w.drop birth)
      else none
  | .raise signo => some { w with pending := w.pending.insert signo }

/-- The namespace after an operation of init, if the answer is possible. The
fork makes the workload; `waitpid` reports one ended child in no order; the
descriptor reports the signals it was made for. A signal reaches whoever has the
number; what it does there happens later. -/
def answer (w : Space) : (op : SpaceOp) → SpaceAns op → Option Space
  | .init .forkWorkload, .ok pid =>
      if w.Unused pid then
        some { w.born pid true with workload := some w.births }
      else none
  | .init _, _ => some w
  | .waitpid _ _, .failed errno =>
      if errno = Channel.eintr ∨
          errno = PidOne.echild ∧ ∀ m ∈ w.members, m.ofInit = false then
        some w
      else none
  | .waitpid _ _, .nothing =>
      if ∀ m ∈ w.members, ¬ m.Zombie then some w else none
  | .waitpid _ _, .changed pid status =>
      match w.members.findSome? (Member.reports pid status) with
      | some (m, how) =>
          some { w.drop m.birth with
            reaped := (m.birth, m.pid, how) :: w.reaped }
      | none => none
  | .readSignal, .full signo =>
      if signo ∈ PidOne.forwarded ∧ signo ∈ w.pending then
        some { w with pending := w.pending.erase signo }
      else none
  | .readSignal, _ => some w
  | .poll _, _ => some w
  | .kill _ _, _ => some w
  | .readProc, _ => some w
  | .sleep _, _ => some w
  | .spin, never => nomatch never

end Space

/-- Init and its namespace. -/
abbrev spaceSystem : System SpaceOp SpaceAns where
  World := Space
  Pid := Unit
  Happening := SpaceHappening
  Out := Unit
  answer w _ op answer := w.answer op answer
  happen w what := w.happen what
  starts _ _ := none
  bury w _ := w

/-! ## What init has seen -/

/-- What init knows from the answers it got. -/
structure Seen where
  /-- the child it forked -/
  workload : Option Pid := none
  /-- the last status it got for that child, until it read `/proc` -/
  outcome : Option Int32 := none
  /-- a signal that was read and not yet sent on -/
  due : Option Int32 := none
  /-- its last `waitpid` found no ended child -/
  clear : Bool := false
  /-- the others that it found in `/proc` first -/
  listed : Option (List Pid) := none
  /-- who got SIGTERM since -/
  warned : List Pid := []
  /-- the pauses since -/
  naps : Nat := 0
  /-- who got SIGKILL since -/
  killed : List Pid := []
  deriving Repr, DecidableEq

namespace Seen

/-- After a reply of `waitpid`. -/
def waited (v : Seen) : WaitReply → Seen
  | .failed errno =>
      if errno = Channel.eintr then v else { v with clear := true }
  | .nothing => { v with clear := true }
  | .changed pid status =>
      { v with
        clear := false
        outcome :=
          if v.listed = none ∧ v.workload = some pid then some status
          else v.outcome }

/-- After a signal was sent. -/
def sent (v : Seen) (pid : Pid) (signo : Int32) : Seen :=
  { v with
    due := none
    warned :=
      if v.listed.isSome ∧ signo = sigterm then v.warned ++ [pid]
      else v.warned
    killed :=
      if v.listed.isSome ∧ signo = sigkill then v.killed ++ [pid]
      else v.killed }

/-- After an operation. -/
def after (v : Seen) : (op : SpaceOp) → SpaceAns op → Seen
  | .init .forkWorkload, .ok pid => { v with workload := some pid }
  | .waitpid _ _, reply => v.waited reply
  | .poll _, .error errno =>
      if errno = Channel.eintr then v else { v with clear := false }
  | .poll _, .ok _ => { v with clear := false }
  | .readSignal, .full signo => { v with due := some signo }
  | .kill pid signo, _ => v.sent pid signo
  | .readProc, names =>
      { v with
        listed := some (v.listed.getD (PidOne.othersIn (PidOne.pidsIn names))) }
  | .sleep _, _ =>
      if v.listed.isSome then { v with naps := v.naps + 1 } else v
  | _, _ => v

/-- A signal that was read goes to the workload, which is not waited for. -/
def Forwards (v : Seen) (pid : Pid) (signo : Int32) : Prop :=
  v.listed = none ∧ v.workload = some pid ∧ v.outcome = none ∧
    v.due = some signo

/-- SIGTERM to the next of those found in `/proc`, which are not PID 1. -/
def Warns (v : Seen) (pid : Pid) (signo : Int32) : Prop :=
  signo = sigterm ∧ v.due = none ∧ v.outcome.isSome ∧ v.naps = 0 ∧
    v.killed = [] ∧
    ∃ others, v.listed = some others ∧ v.warned ++ [pid] <+: others ∧
      1 ∉ others

/-- SIGKILL to the next of those that got SIGTERM twenty pauses ago. -/
def Finishes (v : Seen) (pid : Pid) (signo : Int32) : Prop :=
  signo = sigkill ∧ v.due = none ∧ v.outcome.isSome ∧ v.naps = 20 ∧
    v.listed = some v.warned ∧ v.killed ++ [pid] <+: v.warned ∧ 1 ∉ v.warned

/-- The workload has ended with this status, and the others got their signals:
SIGTERM, and after twenty pauses SIGKILL unless none was left. -/
structure Settled (v : Seen) (raw : Int32) : Prop where
  outcome : v.outcome = some raw
  listed : v.listed = some v.warned
  killed : v.killed = [] ∨ v.naps = 20 ∧ v.killed = v.warned

/-- What init may do with what it has seen. -/
def Allows (v : Seen) : SpaceOp → Prop
  | .init (.supervise _) => False
  | .init .shutdownRemaining => False
  | .init .forkWorkload => v.workload = none
  | .init (.send (.exit report)) =>
      ∃ raw, v.Settled raw ∧
        report = some ((ExitStatus.fromRaw raw).code.getD (-1),
          (ExitStatus.fromRaw raw).signal.getD 0)
  | .init (.exit code) =>
      ∀ raw, v.outcome = some raw → code = (ExitStatus.fromRaw raw).exitCode
  | .init _ => True
  | .waitpid pid options =>
      v.due = none ∧ pid = -1 ∧ options = PidOne.wnohang
  | .poll _ =>
      v.due = none ∧ v.clear = true ∧ v.outcome = none ∧ v.listed = none
  | .readSignal => v.due = none
  | .kill pid signo =>
      v.Forwards pid signo ∨ v.Warns pid signo ∨ v.Finishes pid signo
  | .readProc | .sleep _ | .spin => True

end Seen

/-- Answers of the kernel: `waitpid` is not asked for stopped children, and the
descriptor reports the signals it was made for. -/
def SpaceCredible : (op : SpaceOp) → SpaceAns op → Prop
  | .waitpid _ _, .changed _ status => wifstopped status = false
  | .readSignal, .full signo => signo ∈ PidOne.forwarded
  | _, _ => True

/-- What init keeps to. -/
def initConduct : Discipline SpaceOp SpaceAns Seen where
  requires := Seen.Allows
  credible := SpaceCredible
  after := Seen.after

end Myrun
