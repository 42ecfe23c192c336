import Myrun.Ipc
import Myrun.Supervisor

namespace Myrun

/-!
# What the workload inherits

`clone_child` of `src/sys/process.rs` gives init its end of the synchronisation
channel with `dup2`, init forks the workload, and the workload is started with
`execve`.  The first half of this module follows the descriptors along that
way.  The second half puts the bytes of the workload and of init on one stream
and runs `wait_for_exit` on it, byte by byte.
-/

/-! ## Descriptors -/

/-- The open files that the set-up passes on, and any others. -/
inductive OpenFile where
  | syncParent
  | syncChild
  | runtimeBinary
  | other (number : Nat)
  deriving Repr, DecidableEq

/-- An entry of a descriptor table. -/
structure Descriptor where
  file : OpenFile
  closeOnExec : Bool
  deriving Repr, DecidableEq

/-- The descriptor table of a process. -/
abbrev Descriptors := Int32 → Option Descriptor

namespace Descriptors

/-- Open a descriptor. -/
def set (t : Descriptors) (fd : Int32) (d : Descriptor) : Descriptors :=
  Function.update t fd (some d)

/-- `dup2`: the copy is not close-on-exec. -/
def dup2 (t : Descriptors) (old new : Int32) : Option Descriptors :=
  (t old).map fun d =>
    if old = new then t else t.set new { d with closeOnExec := false }

/-- `close_range(first, u32::MAX, 0)`. -/
def closeRange (t : Descriptors) (first : Int32) : Descriptors := fun fd =>
  if first ≤ fd then none else t fd

/-- What is left of the table after a successful `execve`. -/
def execve (t : Descriptors) : Descriptors := fun fd =>
  (t fd).filter fun d => !d.closeOnExec

end Descriptors

/-- `CHILD_SYNC_FD`, and `SYNC_FD` of init. -/
def childSyncFd : Int32 := 3

/-- `CHILD_EXE_FD`. -/
def childExeFd : Int32 := 4

/-- The child side of `clone_child` up to its `execveat`: the table with which
init starts, unless the child gives up before. -/
def cloneChild (t : Descriptors) (syncHigh exeHigh : Int32)
    (closeRangeWorks : Bool) : Option Descriptors := do
  let t ← t.dup2 syncHigh childSyncFd
  let t ← t.dup2 exeHigh childExeFd
  -- older kernels lack `close_range`; its failure is ignored
  let t := if closeRangeWorks then t.closeRange (childExeFd + 1) else t
  return t.execve

/-- A container whose workload was started. -/
structure WorkloadSetup where
  parent : Descriptors
  syncFd : Int32
  syncHigh : Int32
  exeHigh : Int32
  closeRangeWorks : Bool
  atStart : Descriptors
  atFork : Descriptors
  /-- `Channel::pair` opens both ends without close-on-exec. -/
  channel : parent syncFd = some ⟨.syncChild, false⟩
  /-- `move_fd_high` picks free descriptors from 10 on. -/
  high : 10 ≤ syncHigh ∧ 10 ≤ exeHigh ∧ syncHigh ≠ exeHigh
  /-- The child gets as far as its `execveat`. -/
  started :
    cloneChild
      ((parent.set syncHigh ⟨.syncChild, true⟩).set exeHigh
        ⟨.runtimeBinary, true⟩)
      syncHigh exeHigh closeRangeWorks = some atStart
  /-- Init opens descriptors of its own and keeps those it was given. -/
  kept : ∀ fd d, atStart fd = some d → atFork fd = some d

namespace WorkloadSetup

/-- The descriptors of the workload after its `execve`. -/
def inherited (setup : WorkloadSetup) : Descriptors :=
  setup.atFork.execve

/-- The byte sequences that processes of the workload can put on the
channel. -/
def CanWrite (setup : WorkloadSetup) (bytes : List UInt8) : Prop :=
  bytes = [] ∨ ∃ fd d, setup.inherited fd = some d ∧ d.file = .syncChild

/-- Whatever the tables were, the workload has the channel on descriptor 3. -/
theorem inherits_channel (setup : WorkloadSetup) :
    setup.inherited childSyncFd = some ⟨.syncChild, false⟩ := by
  obtain ⟨syncLow, exeLow, apart⟩ := setup.high
  have syncNot3 : setup.syncHigh ≠ childSyncFd := by
    intro same
    rw [same] at syncLow
    revert syncLow
    decide
  have exeNot3 : setup.exeHigh ≠ childSyncFd := by
    intro same
    rw [same] at exeLow
    revert exeLow
    decide
  have exeNot4 : setup.exeHigh ≠ childExeFd := by
    intro same
    rw [same] at exeLow
    revert exeLow
    decide
  have start : setup.atStart childSyncFd = some ⟨.syncChild, false⟩ := by
    have started := setup.started
    simp only [cloneChild, Descriptors.dup2, Descriptors.set,
      Function.update_of_ne apart, Function.update_self, Option.map_some,
      syncNot3, ↓reduceIte, Option.bind_eq_bind, Option.bind_some,
      Function.update_of_ne exeNot3, exeNot4, Option.pure_def,
      Option.some.injEq] at started
    rw [← started]
    cases setup.closeRangeWorks <;> rfl
  have fork := setup.kept _ _ start
  simp [inherited, Descriptors.execve, fork]

end WorkloadSetup

/-! ## Frames made of bytes -/

namespace Channel

/-- The ranges of the bytes that may follow a first byte in UTF-8. -/
def continuations (b : UInt8) : Option (List (UInt8 × UInt8)) :=
  if b < 0x80 then some []
  else if 0xC2 ≤ b ∧ b ≤ 0xDF then some [(0x80, 0xBF)]
  else if b = 0xE0 then some [(0xA0, 0xBF), (0x80, 0xBF)]
  else if b = 0xED then some [(0x80, 0x9F), (0x80, 0xBF)]
  else if 0xE1 ≤ b ∧ b ≤ 0xEF then some [(0x80, 0xBF), (0x80, 0xBF)]
  else if b = 0xF0 then some [(0x90, 0xBF), (0x80, 0xBF), (0x80, 0xBF)]
  else if 0xF1 ≤ b ∧ b ≤ 0xF3 then
    some [(0x80, 0xBF), (0x80, 0xBF), (0x80, 0xBF)]
  else if b = 0xF4 then some [(0x80, 0x8F), (0x80, 0xBF), (0x80, 0xBF)]
  else none

/-- The bits that a first byte contributes. -/
def leadBits (b : UInt8) : Nat :=
  if b < 0x80 then b.toNat
  else if b < 0xE0 then b.toNat % 32
  else if b < 0xF0 then b.toNat % 16
  else b.toNat % 8

/-- Follow the continuation bytes as far as they fit. -/
def followBytes :
    List (UInt8 × UInt8) → Nat → List UInt8 → Option Nat × List UInt8
  | [], point, rest => (some point, rest)
  | _ :: _, _, [] => (none, [])
  | (low, high) :: more, point, b :: rest =>
      if low ≤ b ∧ b ≤ high then
        followBytes more (64 * point + b.toNat % 64) rest
      else (none, b :: rest)

/-- `String::from_utf8_lossy`, on at most the given number of characters. -/
def utf8Lossy : Nat → List UInt8 → List Char
  | 0, _ => []
  | _ + 1, [] => []
  | left + 1, b :: rest =>
      match continuations b with
      | none => '\uFFFD' :: utf8Lossy left rest
      | some ranges =>
          match followBytes ranges (leadBits b) rest with
          | (some point, rest) => Char.ofNat point :: utf8Lossy left rest
          | (none, rest) => '\uFFFD' :: utf8Lossy left rest

/-- `String::from_utf8_lossy`. -/
def fromUtf8Lossy (bytes : List UInt8) : String :=
  String.ofList (utf8Lossy bytes.length bytes)

example :
    fromUtf8Lossy [0x61, 0xC3, 0xA9, 0xE2, 0x82, 0x62, 0xFF] =
      "aé\uFFFDb\uFFFD" := by
  decide +kernel

/-- A message as the supervisor distinguishes them. -/
def Message.toFrame (m : Message) : Frame :=
  if m.tag = tagReady then .ready
  else if m.tag = tagStarted then .started
  else if m.tag = tagError then .error (fromUtf8Lossy m.payload)
  else if m.tag = tagExit then .exit (parseExit m.payload)
  else .other m.tag

end Channel

/-! ## Waiting on a stream of bytes -/

open Channel (Arrival Message Cut)

/-- What the rest of the host answers while the supervisor waits. -/
structure Surroundings where
  waited : Option ExitStatus
  host : (op : HostOp) → HostAns op

namespace Surroundings

/-- Run a program of the supervisor with a stream of bytes behind its channel.
A loop that is not followed to its end has no result. -/
def listen {α : Type} (s : Surroundings) :
    Proc α → List Arrival → Option α
  | .ret value, _ => some value
  | .call (.channel (.recv _)) next, arrivals =>
      s.listen
        (next ((Channel.recv arrivals).1.map (Option.map Message.toFrame)))
        (Channel.recv arrivals).2
  | .call (.waitPid _ _) next, arrivals => s.listen (next (.ok s.waited)) arrivals
  | .call (.writeState _ _) next, arrivals => s.listen (next (.ok ())) arrivals
  | .call (.host op) next, arrivals => s.listen (next (s.host op)) arrivals
  | .call _ _, _ => none

/-- `wait_for_exit` on the stream records the status and leaves the error. -/
def Records (s : Surroundings) (st : ContainerState) (running : Running)
    (arrivals : List Arrival) (status : ExitStatus)
    (error : Option String) : Prop :=
  ∃ rounds record,
    s.listen (Supervisor.waitForExit rounds st running).run arrivals =
        some (.ok (status, record)) ∧
      record.exitStatus = status ∧ record.error = error

end Surroundings

/-- The third list merges the first two and keeps the order of each. -/
inductive Interleaved {α : Type} : List α → List α → List α → Prop where
  | nil : Interleaved [] [] []
  | left
      {x : α}
      {xs ys merged : List α}
      (rest : Interleaved xs ys merged) :
      Interleaved (x :: xs) ys (x :: merged)
  | right
      {y : α}
      {xs ys merged : List α}
      (rest : Interleaved xs ys merged) :
      Interleaved xs (y :: ys) (y :: merged)

/--
The workload does not influence the record: whatever it writes on descriptors
it inherits, however this mixes with what init sends and however the bytes
arrive, the same status and error are recorded as without it.
-/
def Unaffected (setup : WorkloadSetup) (s : Surroundings)
    (st : ContainerState) (running : Running) (sent : List UInt8) : Prop :=
  ∀ written, setup.CanWrite written →
    ∀ merged, Interleaved sent written merged →
      ∀ alone arrivals, Cut alone sent → Cut arrivals merged →
        ∀ status error,
          s.Records st running arrivals status error ↔
            s.Records st running alone status error

/-! ## The loop over the frames -/

namespace Surroundings

/-- Run a program on the host. -/
def ask {α : Type} (s : Surroundings) : Prog HostOp HostAns α → α
  | .ret value => value
  | .call op next => s.ask (next (s.host op))

private theorem ask_of_yields
    (s : Surroundings)
    {α : Type}
    {P : α → Prop}
    {p : Prog HostOp HostAns α}
    (yields : p.Yields P) :
    P (s.ask p) := by
  induction p with
  | ret value =>
      exact yields
  | call op next inductionHypothesis =>
      exact inductionHypothesis _ (yields _)

private theorem listen_host
    (s : Surroundings)
    {α β : Type}
    (p : Prog HostOp HostAns α)
    (next : α → Proc β)
    (arrivals : List Arrival) :
    s.listen ((p.map Op.host fun _ answer => answer).bind next) arrivals =
      s.listen (next (s.ask p)) arrivals := by
  induction p with
  | ret value =>
      rfl
  | call op rest inductionHypothesis =>
      exact inductionHypothesis (s.host op)

end Surroundings

/-- The effect of a message on the error of the record. -/
def Channel.Message.noteError (m : Message) (st : ContainerState) :
    ContainerState :=
  match m.toFrame with
  | .error message => { st with error := some message }
  | _ => st

/-- The effect of a message on the status reported by init. -/
def Channel.Message.noteExit (m : Message) (fromInit : Option ExitStatus) :
    Option ExitStatus :=
  match m.toFrame with
  | .exit (some (code, signal)) => some (Supervisor.exitOfFrame code signal)
  | _ => fromInit

/-- One round of the loop of `wait_for_exit`, after its `recv`. -/
def Supervisor.reaction (pid : Pid) (st : ContainerState)
    (fromInit : Option ExitStatus) (rounds : Nat) :
    Result (Option Frame) → Act (ContainerState × Option ExitStatus)
  | .ok (some (.exit (some (code, signal)))) =>
      recvLoop pid st (some (exitOfFrame code signal)) rounds
  | .ok (some (.error message)) =>
      recvLoop pid { st with error := some message } fromInit rounds
  | .ok (some _) => recvLoop pid st fromInit rounds
  | .ok none => return (st, fromInit)
  | .error _ => return (st, fromInit)

section Loop

variable (s : Surroundings) (pid : Pid) {β : Type}
  (next : Result (ContainerState × Option ExitStatus) → Proc β)

private theorem listen_recvLoop
    (st : ContainerState)
    (fromInit : Option ExitStatus)
    (rounds : Nat)
    (arrivals : List Arrival) :
    s.listen
        ((Supervisor.recvLoop pid st fromInit (rounds + 1)).run.bind next)
        arrivals =
      s.listen
        ((Supervisor.reaction pid st fromInit rounds
          ((Channel.recv arrivals).1.map
            (Option.map Message.toFrame))).run.bind next)
        (Channel.recv arrivals).2 :=
  rfl

/-- A message is noted and the loop goes on. -/
theorem listen_message
    {arrivals rest : List Arrival}
    {m : Message}
    (received : Channel.recv arrivals = (.ok (some m), rest))
    (st : ContainerState)
    (fromInit : Option ExitStatus)
    (rounds : Nat) :
    s.listen
        ((Supervisor.recvLoop pid st fromInit (rounds + 1)).run.bind next)
        arrivals =
      s.listen
        ((Supervisor.recvLoop pid (m.noteError st) (m.noteExit fromInit)
          rounds).run.bind next) rest := by
  rw [listen_recvLoop, received]
  unfold Channel.Message.noteError Channel.Message.noteExit
  simp only [Except.map, Option.map_some]
  cases m.toFrame with
  | exit payload =>
      cases payload with
      | none => rfl
      | some _ => rfl
  | error message => rfl
  | ready | started | other _ => rfl

/-- The end of the stream, and an error, end the loop. -/
theorem listen_end
    {arrivals rest : List Arrival}
    {result : Result (Option Message)}
    (received : Channel.recv arrivals = (result, rest))
    (ended : ∀ m, result ≠ .ok (some m))
    (st : ContainerState)
    (fromInit : Option ExitStatus)
    (rounds : Nat) :
    s.listen
        ((Supervisor.recvLoop pid st fromInit (rounds + 1)).run.bind next)
        arrivals =
      s.listen (next (.ok (st, fromInit))) rest := by
  rw [listen_recvLoop, received]
  cases result with
  | error e =>
      rfl
  | ok message =>
      cases message with
      | none =>
          rfl
      | some m =>
          exact (ended m rfl).elim

/-- Following the loop for longer does not change its result. -/
theorem listen_more_rounds
    {value : β}
    {rounds : Nat}
    (st : ContainerState)
    (fromInit : Option ExitStatus)
    (arrivals : List Arrival)
    (done :
      s.listen ((Supervisor.recvLoop pid st fromInit rounds).run.bind next)
        arrivals = some value) :
    s.listen
        ((Supervisor.recvLoop pid st fromInit (rounds + 1)).run.bind next)
        arrivals = some value := by
  induction rounds generalizing st fromInit arrivals with
  | zero =>
      cases done
  | succ rounds inductionHypothesis =>
      cases received : Channel.recv arrivals with
      | mk result rest =>
          by_cases ended : ∀ m, result ≠ .ok (some m)
          · rw [listen_end s pid next received ended] at done ⊢
            exact done
          · simp only [ne_eq, not_forall, not_not] at ended
            obtain ⟨m, rfl⟩ := ended
            rw [listen_message s pid next received] at done ⊢
            exact inductionHypothesis _ _ _ done

/-- Whole frames are noted one after the other. -/
theorem listen_frames
    {messages : List Message}
    (framed : ∀ m ∈ messages, m.Framed)
    {arrivals : List Arrival}
    {bytes : List UInt8}
    (cut : Cut arrivals (Channel.frames messages ++ bytes))
    (st : ContainerState)
    (fromInit : Option ExitStatus) :
    ∃ rest,
      Cut rest bytes ∧
        ∀ rounds,
          s.listen
              ((Supervisor.recvLoop pid st fromInit
                (rounds + messages.length)).run.bind next) arrivals =
            s.listen
              ((Supervisor.recvLoop pid
                (messages.foldl (fun st m => m.noteError st) st)
                (messages.foldl (fun exit m => m.noteExit exit) fromInit)
                rounds).run.bind next) rest := by
  induction messages generalizing arrivals st fromInit with
  | nil =>
      exact ⟨arrivals, cut, fun rounds => rfl⟩
  | cons m messages inductionHypothesis =>
      have split : Channel.frames (m :: messages) ++ bytes =
          Channel.frame m ++ (Channel.frames messages ++ bytes) := by
        simp [Channel.frames]
      rw [split] at cut
      obtain ⟨after, received, afterCut⟩ :=
        Channel.recv_frame (framed m List.mem_cons_self) cut
      obtain ⟨rest, restCut, others⟩ :=
        inductionHypothesis
          (fun other member => framed other (List.mem_cons_of_mem m member))
          afterCut (m.noteError st) (m.noteExit fromInit)
      refine ⟨rest, restCut, fun rounds => ?_⟩
      rw [List.length_cons, ← Nat.add_assoc,
        listen_message s pid next received]
      exact others rounds

end Loop

/-- What `wait_for_exit` does after its loop. -/
def Supervisor.finish (running : Running) (st : ContainerState)
    (fromInit : Option ExitStatus) : Act (ExitStatus × ContainerState) := do
  let waited ← waitPid running.pid false
  let status := (fromInit.or waited).getD { code := some (-1), signal := none }
  let st ← noteOom st running.cgroup
  let now ← nowMs
  let st := st.recordExit status now
  let st :=
    match st.transition .stopped now with
    | .ok moved => moved
    | .error _ => st
  Store.save .waitForExit st
  return (status, st)

/-- The result of the loop, handed to what comes after it. -/
def Supervisor.concluded (running : Running) :
    Result (ContainerState × Option ExitStatus) →
      Proc (Result (ExitStatus × ContainerState))
  | .ok (st, fromInit) => (finish running st fromInit).run
  | .error e => .ret (.error e)

theorem waitForExit_eq
    (rounds : Nat)
    (st : ContainerState)
    (running : Running) :
    (Supervisor.waitForExit rounds st running).run =
      (Supervisor.recvLoop running.pid st none rounds).run.bind
        (Supervisor.concluded running) := by
  refine congrArg (Prog.bind _) (funext fun result => ?_)
  cases result with
  | ok value => rfl
  | error e => rfl

private theorem wasOomKilled_yields (cg : Cgroup) :
    cg.wasOomKilled.run.Yields fun result => ∃ oom, result = .ok oom := by
  have attempted :
      (readTrimmed
          (joinPath cg.path "memory.events")).attempt.run.Yields
        fun result => ∃ read, result = .ok read :=
    Prog.Yields.bind (Prog.yields_of_forall (fun _ => trivial) _)
      fun read _ => ⟨read, rfl⟩
  refine Prog.Yields.bind attempted ?_
  rintro _ ⟨read, rfl⟩
  cases read with
  | ok text => exact ⟨_, rfl⟩
  | error e => exact ⟨_, rfl⟩

private theorem noteOom_ok
    (st : ContainerState)
    (cgroup : Option Cgroup) :
    (Supervisor.noteOom st cgroup).run.Yields fun result =>
      ∃ oom, result = .ok { st with oomKilled := oom } := by
  cases cgroup with
  | none =>
      exact ⟨st.oomKilled, rfl⟩
  | some cg =>
      refine Prog.Yields.bind (wasOomKilled_yields cg) ?_
      rintro _ ⟨oom, rfl⟩
      cases oom with
      | true => exact ⟨true, rfl⟩
      | false => exact ⟨st.oomKilled, rfl⟩

/-- The record after `record_exit` and the transition to stopped. -/
def ContainerState.concludedWith (st : ContainerState) (status : ExitStatus)
    (now : UInt64) : ContainerState :=
  match (st.recordExit status now).transition .stopped now with
  | .ok moved => moved
  | .error _ => st.recordExit status now

theorem concludedWith_record
    (st : ContainerState)
    (status : ExitStatus)
    (now : UInt64) :
    (st.concludedWith status now).exitStatus = status ∧
      (st.concludedWith status now).error = st.error := by
  have finished (st : ContainerState) :
      (st.finishedBy now).exitStatus = st.exitStatus ∧
        (st.finishedBy now).error = st.error := by
    unfold ContainerState.finishedBy
    split <;> exact ⟨rfl, rfl⟩
  have recorded :
      (st.recordExit status now).exitStatus = status ∧
        (st.recordExit status now).error = st.error :=
    finished _
  unfold ContainerState.concludedWith ContainerState.transition
  split
  · rename_i moved outcome
    split at outcome
    · obtain rfl := Except.ok.inj outcome
      exact recorded
    · split at outcome
      · obtain rfl := Except.ok.inj outcome
        obtain ⟨sameStatus, sameError⟩ :=
          finished { st.recordExit status now with status := .stopped }
        exact ⟨sameStatus.trans recorded.1, sameError.trans recorded.2⟩
      · cases outcome
  · exact recorded

/-- The record `wait_for_exit` concludes with. -/
theorem listen_finish_record
    (s : Surroundings)
    (running : Running)
    (st : ContainerState)
    (fromInit : Option ExitStatus)
    (arrivals : List Arrival) :
    ∃ oom,
      s.listen (Supervisor.finish running st fromInit).run arrivals =
        some (.ok ((fromInit.or s.waited).getD
          { code := some (-1), signal := none },
          ({ st with oomKilled := oom } : ContainerState).concludedWith
            ((fromInit.or s.waited).getD
              { code := some (-1), signal := none }) (s.host .now))) := by
  obtain ⟨oom, noted⟩ :=
    s.ask_of_yields (noteOom_ok st running.cgroup)
  refine ⟨oom, ?_⟩
  refine (s.listen_host (Supervisor.noteOom st running.cgroup).run _
    arrivals).trans ?_
  rw [noted]
  rfl

private theorem listen_finish
    (s : Surroundings)
    (running : Running)
    (st : ContainerState)
    (fromInit : Option ExitStatus)
    (arrivals : List Arrival) :
    ∃ record,
      s.listen (Supervisor.finish running st fromInit).run arrivals =
          some (.ok ((fromInit.or s.waited).getD
            { code := some (-1), signal := none }, record)) ∧
        record.exitStatus = (fromInit.or s.waited).getD
          { code := some (-1), signal := none } ∧
        record.error = st.error := by
  obtain ⟨oom, finished⟩ :=
    listen_finish_record s running st fromInit arrivals
  obtain ⟨sameStatus, sameError⟩ := concludedWith_record
    { st with oomKilled := oom }
    ((fromInit.or s.waited).getD { code := some (-1), signal := none })
    (s.host .now)
  exact ⟨_, finished, sameStatus, sameError⟩

namespace Surroundings

/-- What is recorded from a stream of whole frames. -/
theorem records_frames
    (s : Surroundings)
    (st : ContainerState)
    (running : Running)
    {messages : List Message}
    (framed : ∀ m ∈ messages, m.Framed)
    {arrivals : List Arrival}
    (cut : Cut arrivals (Channel.frames messages)) :
    s.Records st running arrivals
      (((messages.foldl (fun exit m => m.noteExit exit) none).or
        s.waited).getD { code := some (-1), signal := none })
      (messages.foldl (fun st m => m.noteError st) st).error := by
  rw [← List.append_nil (Channel.frames messages)] at cut
  obtain ⟨rest, restCut, noted⟩ :=
    listen_frames s running.pid (Supervisor.concluded running) framed cut
      st none
  have ended := listen_end s running.pid (Supervisor.concluded running)
    (Channel.recv_closed restCut) (by simp)
    (messages.foldl (fun st m => m.noteError st) st)
    (messages.foldl (fun exit m => m.noteExit exit) none) 0
  obtain ⟨record, finished, status, error⟩ := listen_finish s running
    (messages.foldl (fun st m => m.noteError st) st)
    (messages.foldl (fun exit m => m.noteExit exit) none) []
  refine ⟨1 + messages.length, record, ?_, status, error⟩
  rw [waitForExit_eq, noted 1, ended]
  exact finished

/-- One stream gives one record. -/
theorem records_unique
    {s : Surroundings}
    {st : ContainerState}
    {running : Running}
    {arrivals : List Arrival}
    {status status' : ExitStatus}
    {error error' : Option String}
    (first : s.Records st running arrivals status error)
    (second : s.Records st running arrivals status' error') :
    status = status' ∧ error = error' := by
  have longer
      {value : Result (ExitStatus × ContainerState)}
      {rounds : Nat}
      (done : s.listen (Supervisor.waitForExit rounds st running).run
        arrivals = some value)
      (more : Nat) :
      s.listen (Supervisor.waitForExit (rounds + more) st running).run
        arrivals = some value := by
    rw [waitForExit_eq] at done ⊢
    induction more with
    | zero =>
        exact done
    | succ more inductionHypothesis =>
        exact listen_more_rounds s running.pid _ _ _ _ inductionHypothesis
  obtain ⟨rounds, record, done, _, sameError⟩ := first
  obtain ⟨rounds', record', done', _, sameError'⟩ := second
  have result := longer done rounds'
  rw [Nat.add_comm, longer done' rounds] at result
  simp only [Option.some.injEq, Except.ok.injEq, Prod.mk.injEq] at result
  obtain ⟨rfl, rfl⟩ := result
  exact ⟨rfl, sameError.symm.trans sameError'⟩

end Surroundings

/-! ## A forged record -/

private theorem interleaved_append
    {α : Type}
    (xs ys : List α) :
    Interleaved xs ys (ys ++ xs) := by
  induction ys with
  | nil =>
      induction xs with
      | nil => exact .nil
      | cons x xs inductionHypothesis => exact .left inductionHypothesis
  | cons y ys inductionHypothesis =>
      exact .right inductionHypothesis

private theorem cut_exists (bytes : List UInt8) : ∃ arrivals, Cut arrivals bytes := by
  by_cases empty : bytes = []
  · exact ⟨[], empty ▸ .closed⟩
  · refine ⟨[.piece bytes], ?_⟩
    simpa using Cut.piece empty .closed

/-- The frames of a forger: an exit, an error, and one that swallows whatever
init sends after them. -/
def forgedFrames (code signal : Int32) (text sent : List UInt8) :
    List Message :=
  [Channel.exitMessage code signal, ⟨Channel.tagError, text⟩, ⟨0, sent⟩]

/-- What the forger writes: the same without the bytes that init sends. -/
def forgedBytes (code signal : Int32) (text sent : List UInt8) :
    List UInt8 :=
  Channel.frame (Channel.exitMessage code signal) ++
    Channel.frame ⟨Channel.tagError, text⟩ ++ Channel.header ⟨0, sent⟩

private theorem frames_forged
    (code signal : Int32)
    (text sent : List UInt8) :
    Channel.frames (forgedFrames code signal text sent) =
      forgedBytes code signal text sent ++ sent := by
  simp [Channel.frames, forgedFrames, forgedBytes, Channel.frame_eq]

/--
With a few bytes before those of init, the workload has any exit status and
any error text of its choice recorded.
-/
theorem records_forged
    (s : Surroundings)
    (st : ContainerState)
    (running : Running)
    (code signal : Int32)
    {text sent : List UInt8}
    (short : text.length ≤ Channel.maxPayload)
    (small : sent.length ≤ Channel.maxPayload)
    {arrivals : List Arrival}
    (cut : Cut arrivals (forgedBytes code signal text sent ++ sent)) :
    s.Records st running arrivals (Supervisor.exitOfFrame code signal)
      (some (Channel.fromUtf8Lossy text)) := by
  rw [← frames_forged] at cut
  have framed : ∀ m ∈ forgedFrames code signal text sent, m.Framed := by
    intro m member
    simp only [forgedFrames, List.mem_cons, List.not_mem_nil,
      or_false] at member
    rcases member with rfl | rfl | rfl
    · have eight : 8 ≤ Channel.maxPayload := by
        decide
      exact eight
    · exact short
    · exact small
  have recorded := s.records_frames st running framed cut
  have exitTag : (Channel.exitMessage code signal).toFrame =
      .exit (some (code, signal)) := by
    rw [← Channel.parseExit_exitMessage code signal]
    rfl
  have errorTag : Message.toFrame ⟨Channel.tagError, text⟩ =
      .error (Channel.fromUtf8Lossy text) :=
    rfl
  have otherTag : Message.toFrame ⟨0, sent⟩ = .other 0 :=
    rfl
  simpa [forgedFrames, Channel.Message.noteExit, Channel.Message.noteError,
    exitTag, errorTag, otherTag] using recorded

private theorem writeAll_wire_length
    (buf : List UInt8)
    (answers : List Channel.Acceptance) :
    (Channel.writeAll buf answers).wire.length ≤ buf.length := by
  induction answers generalizing buf with
  | nil =>
      exact Nat.le_refl _
  | cons answer answers inductionHypothesis =>
      unfold Channel.writeAll
      split
      · exact Nat.zero_le _
      · cases answer with
        | failed errno =>
            simp only
            split
            · exact inductionHypothesis buf
            · exact Nat.zero_le _
        | took count =>
            cases count with
            | zero =>
                exact Nat.zero_le _
            | succ count =>
                have later := inductionHypothesis (buf.drop (count + 1))
                simp only [List.length_append, List.length_take,
                  List.length_drop] at later ⊢
                omega

/-- The exit frame of init, or the part of it that got through, is short. -/
theorem exit_wire_small
    (code signal : Int32)
    (answers : List Channel.Acceptance) :
    (Channel.send (Channel.exitMessage code signal) answers).wire.length ≤
      Channel.maxPayload := by
  have thirteen :
      (Channel.frame (Channel.exitMessage code signal)).length = 13 :=
    rfl
  unfold Channel.send
  split
  · exact Nat.zero_le _
  · have bound := writeAll_wire_length
      (Channel.frame (Channel.exitMessage code signal)) answers
    rw [thirteen] at bound
    exact Nat.le_trans bound (by decide)

/-- The workload can have any exit status and error text recorded. -/
def Forgeable (setup : WorkloadSetup) (s : Surroundings)
    (st : ContainerState) (running : Running) (sent : List UInt8) : Prop :=
  ∀ code signal text, text.length ≤ Channel.maxPayload →
    ∃ written merged,
      setup.CanWrite written ∧ Interleaved sent written merged ∧
        ∀ arrivals, Cut arrivals merged →
          s.Records st running arrivals (Supervisor.exitOfFrame code signal)
            (some (Channel.fromUtf8Lossy text))

private theorem forgeable
    (setup : WorkloadSetup)
    (s : Surroundings)
    (st : ContainerState)
    (running : Running)
    {sent : List UInt8}
    (small : sent.length ≤ Channel.maxPayload) :
    Forgeable setup s st running sent := by
  intro code signal text short
  refine ⟨forgedBytes code signal text sent,
    forgedBytes code signal text sent ++ sent,
    .inr ⟨childSyncFd, _, setup.inherits_channel, rfl⟩,
    interleaved_append sent _, fun arrivals cut => ?_⟩
  exact records_forged s st running code signal short small cut

private theorem Forgeable.not_unaffected
    {setup : WorkloadSetup}
    {s : Surroundings}
    {st : ContainerState}
    {running : Running}
    {sent : List UInt8}
    (forgeable : Forgeable setup s st running sent) :
    ¬ Unaffected setup s st running sent := by
  intro unaffected
  obtain ⟨alone, aloneCut⟩ := cut_exists sent
  -- two error texts, both recorded as without the workload
  have recorded
      (text : List UInt8)
      (short : text.length ≤ Channel.maxPayload) :
      s.Records st running alone (Supervisor.exitOfFrame 0 0)
        (some (Channel.fromUtf8Lossy text)) := by
    obtain ⟨written, merged, canWrite, mixed, forged⟩ :=
      forgeable 0 0 text short
    obtain ⟨arrivals, cut⟩ := cut_exists merged
    exact (unaffected written canWrite merged mixed alone arrivals aloneCut
      cut _ _).mp (forged arrivals cut)
  have same := Surroundings.records_unique
    (recorded [0x61] (by decide)) (recorded [0x62] (by decide))
  have different : Channel.fromUtf8Lossy [0x61] ≠
      Channel.fromUtf8Lossy [0x62] := by
    decide
  exact different (Option.some.inj same.2)

/--
No container is isolated in this way: descriptor 3 of the workload is the
channel, and what it writes there decides the recorded status and error,
whatever init sends.
-/
theorem workload_forges_exit
    (setup : WorkloadSetup)
    (s : Surroundings)
    (st : ContainerState)
    (running : Running)
    (code signal : Int32)
    (answers : List Channel.Acceptance) :
    ¬ Unaffected setup s st running
        (Channel.send (Channel.exitMessage code signal) answers).wire ∧
      Forgeable setup s st running
        (Channel.send (Channel.exitMessage code signal) answers).wire := by
  have forging := forgeable setup s st running
    (exit_wire_small code signal answers)
  exact ⟨forging.not_unaffected, forging⟩

/-- The descriptors of a supervisor with its standard streams and a channel. -/
def plainParent : Descriptors
  | 0 => some ⟨.other 0, false⟩
  | 1 => some ⟨.other 1, false⟩
  | 2 => some ⟨.other 2, false⟩
  | 3 => some ⟨.runtimeBinary, true⟩
  | 4 => some ⟨.syncParent, false⟩
  | 5 => some ⟨.syncChild, false⟩
  | _ => none

/-- The same with the two descriptors moved up for the child. -/
def plainMoved : Descriptors :=
  (plainParent.set 10 ⟨.syncChild, true⟩).set 11 ⟨.runtimeBinary, true⟩

/-- The descriptors with which init starts then. -/
def plainStart : Descriptors :=
  (cloneChild plainMoved 10 11 true).getD fun _ => none

/-- A container on a kernel with `close_range`. -/
def plainSetup : WorkloadSetup where
  parent := plainParent
  syncFd := 5
  syncHigh := 10
  exeHigh := 11
  closeRangeWorks := true
  atStart := plainStart
  atFork := plainStart
  channel := rfl
  high := by decide
  started := rfl
  kept := fun _ _ same => same

/-- A host on which nothing else happens. -/
def quietHost : (op : HostOp) → HostAns op
  | .now => 1
  | .deadlinePassed | .allowMissingControllers => false
  | .dirExists _ | .fileExists _ => false
  | .sleep => ()
  | .poll _ => .timeout
  | .cgroupMount => none
  | .readText _ | .iptablesDump _ => .ok ""
  | .removeEmptyDir _ => .removed
  | .subdirs _ | .listLinks => .ok []
  | .leaseAllocate _ _ _ _ => .ok (⟨10, 87, 0, 2⟩, 24)
  | .leaseGc _ => .ok 0
  | .linkIndex _ => .ok none
  | .fault _ | .prepare _ | .writeConfig _ _ | .kill _ _ => .ok ()
  | .writeText _ _ | .addPid _ _ | .makeDir _ | .leaseRelease _ => .ok ()
  | .createBridge _ | .createVeth _ _ | .deleteLink _ => .ok ()
  | .addAddress _ _ _ | .setUp _ | .setMtu _ _ | .setMaster _ _ => .ok ()
  | .moveToNetns _ _ _ | .iptables _ => .ok ()

/-- Init ends with the status of its workload, which failed. -/
def failedInit : Surroundings where
  waited := some { code := some 1, signal := none }
  host := quietHost

/-- The exit frame that init sends for it. -/
def failedFrame : List UInt8 :=
  Channel.frame (Channel.exitMessage 1 0)

/-- A running container without a cgroup. -/
def plainRunning : ContainerState × Running :=
  ({ ContainerState.new 1 { id := "web" } with status := .running },
    { pid := 7, cgroup := none })

/-- What its workload writes on descriptor 3 before it exits. -/
def successBytes : List UInt8 :=
  forgedBytes 0 0 [0x6F, 0x6B] failedFrame

/--
A workload that exits with 1 is recorded with 1 and no error; if it writes on
descriptor 3 before it exits, it is recorded with 0 and the error `ok`.
-/
theorem failure_recorded_as_success :
    plainSetup.CanWrite successBytes ∧
      (∀ alone, Cut alone failedFrame →
        failedInit.Records plainRunning.1 plainRunning.2 alone
          { code := some 1, signal := none } none) ∧
      (∀ arrivals, Cut arrivals (successBytes ++ failedFrame) →
        failedInit.Records plainRunning.1 plainRunning.2 arrivals
          { code := some 0, signal := none } (some "ok")) ∧
      ¬ Unaffected plainSetup failedInit plainRunning.1 plainRunning.2
        failedFrame := by
  have small : failedFrame.length ≤ Channel.maxPayload := by
    decide
  refine ⟨.inr ⟨childSyncFd, _, plainSetup.inherits_channel, rfl⟩, ?_, ?_,
    (forgeable plainSetup failedInit _ _ small).not_unaffected⟩
  · intro alone cut
    have whole : Channel.frames [Channel.exitMessage 1 0] = failedFrame :=
      rfl
    have framed : ∀ m ∈ [Channel.exitMessage 1 0], m.Framed := by
      intro m member
      rw [List.mem_singleton.mp member]
      exact Nat.le_of_ble_eq_true rfl
    rw [← whole] at cut
    exact failedInit.records_frames plainRunning.1 plainRunning.2 framed cut
  · intro arrivals cut
    exact records_forged failedInit plainRunning.1 plainRunning.2 0 0
      (by decide) small cut

end Myrun
