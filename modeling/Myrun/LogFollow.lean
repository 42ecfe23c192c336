import Myrun.Error
import Myrun.Interference
import Myrun.State

namespace Myrun

/-!
# Following a log

`follow_logs` of `src/runtime/lifecycle.rs` next to a container that writes its
log. The container appends chunks, stops, and only then is its status saved as
not live; the follower reads to the end of the file, and then loads the status.
What the container appends between these two is read in the next round, if
there is one.
-/

/-- The operations of `follow_logs`. -/
inductive LogOp where
  | openLog
  | seek (pos : Nat)
  | read
  | write (bytes : List UInt8)
  | flush
  | load
  | sleep
  | spin

/-- The answers to these operations. `spin` never returns. -/
abbrev LogAns : LogOp → Type
  | .openLog => Result Unit
  | .seek _ => Result Unit
  | .read => Result (List UInt8)
  | .write _ => Result Unit
  | .flush => Result Unit
  | .load => Result Status
  | .sleep => Unit
  | .spin => Empty

abbrev LogAct := Fallible LogOp LogAns Error

namespace FollowLogs

/-- One operation. -/
abbrev askLog (op : LogOp) : Prog LogOp LogAns (LogAns op) :=
  Prog.perform op

/-- A loop that is not followed any further. -/
def spin {α : Type} : LogAct α :=
  Fallible.lift (askLog .spin) >>= fun never => nomatch never

/-- The inner loop: copy to the end of the file; the position reached. -/
def drain (pos : Nat) : Nat → LogAct Nat
  | 0 => spin
  | reads + 1 => do
      let chunk ← Fallible.of (askLog .read)
      if chunk.isEmpty then return pos
      else do
        Fallible.of (askLog (.write chunk))
        drain (pos + chunk.length) reads

/-- The outer loop. -/
def followFrom (reads : Nat) (pos : Nat) : Nat → LogAct Unit
  | 0 => spin
  | rounds + 1 => do
      Fallible.of (askLog (.seek pos))
      let pos ← drain pos reads
      let _ ← (Fallible.of (askLog .flush) : LogAct Unit).attempt
      let status ← Fallible.of (askLog .load)
      if status.isLive then do
        Fallible.lift (askLog .sleep)
        followFrom reads pos rounds
      else return ()

/-- `follow_logs`. -/
def followLogs (rounds reads : Nat) : LogAct Unit := do
  Fallible.of (askLog .openLog)
  followFrom reads 0 rounds

/-! ## The container next to it -/

/-- The log file, the container, and what the follower has so far. -/
structure LogWorld where
  log : List UInt8
  /-- the container can still append -/
  running : Bool
  status : Status
  offset : Nat
  sink : List UInt8
  deriving Repr, DecidableEq

/-- What happens in the container. -/
inductive LogHappening where
  | append (chunk : List UInt8)
  | stop
  | save (status : Status)
  deriving Repr, DecidableEq

/-- The size of the buffer. -/
def bufferSize : Nat := 8192

/-- A read gives some of the bytes at the offset, and none only at the end. -/
def LogWorld.reads (w : LogWorld) (chunk : List UInt8) : Bool :=
  if chunk.isEmpty then w.log.length ≤ w.offset
  else
    chunk.length ≤ bufferSize && chunk.isPrefixOf (w.log.drop w.offset)

/-- The world after an operation of the follower, if the answer is possible. -/
def LogWorld.answer (w : LogWorld) : (op : LogOp) → LogAns op → Option LogWorld
  | .openLog, _ => some w
  | .seek pos, .ok () => some { w with offset := pos }
  | .seek _, .error _ => some w
  | .read, .ok chunk =>
      if w.reads chunk then
        some { w with offset := w.offset + chunk.length }
      else none
  | .read, .error _ => some w
  | .write bytes, .ok () => some { w with sink := w.sink ++ bytes }
  | .write _, .error _ => some w
  | .flush, _ => some w
  | .load, .ok status => if status = w.status then some w else none
  | .load, .error _ => some w
  | .sleep, _ => some w
  | .spin, never => nomatch never

/--
The world after a step of the container. It appends while it runs; a status
that is not live is saved after it stopped, and is the last one.
-/
def LogWorld.happen (w : LogWorld) : LogHappening → Option LogWorld
  | .append chunk =>
      if w.running then some { w with log := w.log ++ chunk } else none
  | .stop => some { w with running := false }
  | .save status =>
      if w.status.isLive ∧ (status.isLive ∨ w.running = false) then
        some { w with status }
      else none

/-- The bytes an event of the container adds to the log. -/
def LogHappening.bytes : LogHappening → List UInt8
  | .append chunk => chunk
  | _ => []

/-- One follower and one container. -/
abbrev logSystem : System LogOp LogAns where
  World := LogWorld
  Pid := Unit
  Happening := LogHappening
  Out := Result Unit
  answer w _ op answer := w.answer op answer
  happen w what := w.happen what
  starts _ _ := none
  bury w _ := w

/-- A follower of a container that may have stopped already. -/
structure Begins (start : logSystem.Config) (rounds reads : Nat) : Prop where
  process : start.process () = some (followLogs rounds reads).run
  sink : start.world.sink = []
  stopped : start.world.status.isLive = false → start.world.running = false

/-! ## What a history says -/

/-- A status that is not live was saved. -/
def ended : List logSystem.Event → Bool
  | [] => false
  | .happen (.save status) :: past => !status.isLive || ended past
  | _ :: past => ended past

/-- The bytes appended before the status became non-live. -/
def beforeEnd : List logSystem.Event → List UInt8
  | [] => []
  | .happen (.append chunk) :: past =>
      if ended past then beforeEnd past else beforeEnd past ++ chunk
  | _ :: past => beforeEnd past

/-- The bytes appended since the follower last met the end of the file. -/
def missed : List logSystem.Event → List UInt8
  | [] => []
  | .happen (.append chunk) :: past => missed past ++ chunk
  | .call _ .read (.ok []) :: _ => []
  | _ :: past => missed past

private theorem missed_happen
    (what : LogHappening)
    (past : List logSystem.Event) :
    missed (.happen what :: past) = missed past ++ what.bytes := by
  cases what with
  | append chunk =>
      rfl
  | stop =>
      exact (List.append_nil _).symm
  | save status =>
      exact (List.append_nil _).symm

/-- What a step of the container leaves alone. -/
structure Beside (w w' : LogWorld) (what : LogHappening) : Prop where
  log : w'.log = w.log ++ what.bytes
  offset : w'.offset = w.offset
  sink : w'.sink = w.sink

private theorem happen_beside
    {w w' : LogWorld}
    {what : LogHappening}
    (happened : w.happen what = some w') :
    Beside w w' what := by
  cases what with
  | append chunk =>
      simp only [LogWorld.happen] at happened
      split at happened
      · cases happened
        exact ⟨rfl, rfl, rfl⟩
      · cases happened
  | stop =>
      cases happened
      exact ⟨(List.append_nil _).symm, rfl, rfl⟩
  | save status =>
      simp only [LogWorld.happen] at happened
      split at happened
      · cases happened
        exact ⟨(List.append_nil _).symm, rfl, rfl⟩
      · cases happened

/-- What a read can give. -/
theorem read_cases
    {w w' : LogWorld}
    {chunk : List UInt8}
    (answered : w.answer .read (.ok chunk) = some w') :
    (chunk = [] ∧ w.log.length ≤ w.offset ∧ w' = w) ∨
      (chunk ≠ [] ∧ chunk <+: w.log.drop w.offset ∧
        w' = { w with offset := w.offset + chunk.length }) := by
  simp only [LogWorld.answer, LogWorld.reads] at answered
  cases chunk with
  | nil =>
      simp only [List.isEmpty_nil, if_true, decide_eq_true_eq,
        List.length_nil, Nat.add_zero] at answered
      split at answered
      · rename_i met
        exact .inl ⟨rfl, met, (Option.some.inj answered).symm⟩
      · cases answered
  | cons byte rest =>
      simp only [List.isEmpty_cons, Bool.false_eq_true, if_false,
        Bool.and_eq_true, List.isPrefixOf_iff_prefix] at answered
      split at answered
      · rename_i possible
        exact .inr ⟨List.cons_ne_nil _ _, possible.2,
          (Option.some.inj answered).symm⟩
      · cases answered

/-! ## What the follower knows -/

abbrev Moment := logSystem.Moment

/-- The sink has the log up to a position. -/
structure Copied (pos : Nat) (g : Moment) : Prop where
  inside : pos ≤ g.2.log.length
  sink : g.2.sink = g.2.log.take pos

/-- The next read is where the sink ends. -/
structure At (pos : Nat) (g : Moment) : Prop extends Copied pos g where
  offset : g.2.offset = pos

/-- What the sink lacks was appended since the end of the file was met. -/
def Lacks (g : Moment) : Prop :=
  g.2.log = g.2.sink ++ missed g.1

private theorem Copied.happen
    {pos : Nat}
    {past : List logSystem.Event}
    {w w' : LogWorld}
    {what : LogHappening}
    (copied : Copied pos (past, w))
    (happened : w.happen what = some w') :
    Copied pos (.happen what :: past, w') := by
  have beside := happen_beside happened
  have inside : pos ≤ w.log.length := copied.inside
  have sink : w.sink = w.log.take pos := copied.sink
  refine ⟨?_, ?_⟩
  · simp only [beside.log, List.length_append]
    omega
  · simp only [beside.log, beside.sink, sink]
    rw [List.take_append_of_le_length inside]

private theorem At.happen
    {pos : Nat}
    {past : List logSystem.Event}
    {w w' : LogWorld}
    {what : LogHappening}
    (here : At pos (past, w))
    (happened : w.happen what = some w') :
    At pos (.happen what :: past, w') :=
  { here.toCopied.happen happened with
    offset := (happen_beside happened).offset.trans here.offset }

private theorem Lacks.happen
    {past : List logSystem.Event}
    {w w' : LogWorld}
    {what : LogHappening}
    (lacks : Lacks (past, w))
    (happened : w.happen what = some w') :
    Lacks (.happen what :: past, w') := by
  have beside := happen_beside happened
  have before : w.log = w.sink ++ missed past := lacks
  simp only [Lacks, beside.log, beside.sink, missed_happen, before,
    List.append_assoc]

private theorem Lacks.drift
    {g g' : Moment}
    (lacks : Lacks g)
    (drift : System.Drift g g') :
    Lacks g' :=
  drift.invariant (fun before happened => before.happen happened) lacks

/-- At the end of the file nothing is lacking. -/
theorem At.lacks_of_end
    {pos : Nat}
    {past : List logSystem.Event}
    {w : LogWorld}
    (here : At pos (past, w))
    (met : w.log.length ≤ w.offset) :
    Lacks (.call () .read (.ok []) :: past, w) := by
  have offset : w.offset = pos := here.offset
  have sink : w.sink = w.log.take pos := here.sink
  simp only [Lacks, missed, List.append_nil, sink]
  exact (List.take_of_length_le (by omega)).symm

/-- A chunk was read and is yet to be written. -/
structure Fetched (pos : Nat) (chunk : List UInt8) (g : Moment) : Prop
    extends Copied pos g where
  offset : g.2.offset = pos + chunk.length
  read : chunk <+: g.2.log.drop pos

private theorem Fetched.happen
    {pos : Nat}
    {chunk : List UInt8}
    {past : List logSystem.Event}
    {w w' : LogWorld}
    {what : LogHappening}
    (fetched : Fetched pos chunk (past, w))
    (happened : w.happen what = some w') :
    Fetched pos chunk (.happen what :: past, w') := by
  have beside := happen_beside happened
  have inside : pos ≤ w.log.length := fetched.inside
  have read : chunk <+: w.log.drop pos := fetched.read
  refine { fetched.toCopied.happen happened with offset := ?_, read := ?_ }
  · exact beside.offset.trans fetched.offset
  · simp only [beside.log, List.drop_append_of_le_length inside]
    exact read.trans (List.prefix_append _ _)

/-- A read that is not at the end of the file. -/
theorem At.fetched
    {pos : Nat}
    {chunk : List UInt8}
    {past past' : List logSystem.Event}
    {w : LogWorld}
    (here : At pos (past, w))
    (read : chunk <+: w.log.drop w.offset) :
    Fetched pos chunk (past', { w with offset := w.offset + chunk.length }) := by
  have offset : w.offset = pos := here.offset
  subst offset
  exact { inside := here.inside, sink := here.sink, offset := rfl, read }

/-- The chunk is written. -/
theorem Fetched.written
    {pos : Nat}
    {chunk : List UInt8}
    {past past' : List logSystem.Event}
    {w : LogWorld}
    (fetched : Fetched pos chunk (past, w)) :
    At (pos + chunk.length) (past', { w with sink := w.sink ++ chunk }) := by
  have inside : pos ≤ w.log.length := fetched.inside
  have sink : w.sink = w.log.take pos := fetched.sink
  have read : chunk <+: w.log.drop pos := fetched.read
  have fits := read.length_le
  rw [List.length_drop] at fits
  refine { inside := ?_, sink := ?_, offset := fetched.offset }
  · simp only
    omega
  · simp only [sink, List.take_add]
    rw [← List.prefix_iff_eq_take.mp read]

/-! ## The rounds -/

/-- A loop that is not followed any further establishes anything. -/
theorem spin_wp
    {α : Type}
    {g : Moment}
    {ok : α → Moment → Prop} :
    (spin : LogAct α).wp (logSystem.beside ()) g ok (fun _ _ => True) := by
  simp only [spin, Fallible.wp_bind, Fallible.wp_lift]
  intro past world _ never
  exact Empty.elim never

/-- Copying to the end of the file. -/
theorem drain_wp
    (reads : Nat) :
    ∀ {pos : Nat} {g : Moment},
      At pos g →
        (drain pos reads).wp (logSystem.beside ()) g
          (fun pos' g' => Copied pos' g' ∧ Lacks g') (fun _ _ => True) := by
  induction reads with
  | zero =>
      intro pos g _
      exact spin_wp
  | succ reads inductionHypothesis =>
      intro pos g here
      simp only [drain, Fallible.wp_bind, Fallible.wp_of]
      intro past world drift answer world' answered
      replace here : At pos (past, world) :=
        drift.invariant (fun before happened => before.happen happened) here
      cases answer with
      | error e =>
          trivial
      | ok chunk =>
          rw [Prog.wp_ret, Fallible.onResult_ok]
          rcases read_cases answered with ⟨rfl, met, rfl⟩ | ⟨some_, read, rfl⟩
          · exact ⟨⟨here.inside, here.sink⟩, here.lacks_of_end met⟩
          · rw [if_neg (by simpa using some_)]
            simp only [Fallible.wp_bind, Fallible.wp_of]
            intro past' written drift' answer' world'' answered'
            have fetched : Fetched pos chunk (past', written) :=
              drift'.invariant (fun before happened => before.happen happened)
                (here.fetched read)
            cases answer' with
            | error e =>
                trivial
            | ok =>
                cases answered'
                exact inductionHypothesis fetched.written

/-- The status is not live, and what the sink lacks was appended since. -/
structure Finished (g : Moment) : Prop where
  notLive : g.2.status.isLive = false
  lacks : Lacks g

private theorem Finished.happen
    {past : List logSystem.Event}
    {w w' : LogWorld}
    {what : LogHappening}
    (finished : Finished (past, w))
    (happened : w.happen what = some w') :
    Finished (.happen what :: past, w') := by
  refine ⟨?_, finished.lacks.happen happened⟩
  have notLive : w.status.isLive = false := finished.notLive
  cases what with
  | append chunk =>
      simp only [LogWorld.happen] at happened
      split at happened
      · cases happened
        exact notLive
      · cases happened
  | stop =>
      cases happened
      exact notLive
  | save status =>
      simp [LogWorld.happen, notLive] at happened

/-- The end of a round. -/
theorem checkStatus_wp
    {pos : Nat}
    {again : LogAct Unit}
    {g : Moment}
    (rest : ∀ {g : Moment}, Copied pos g →
      again.wp (logSystem.beside ()) g (fun _ g' => Finished g')
        (fun _ _ => True))
    (copied : Copied pos g)
    (lacks : Lacks g) :
    (do
      let _ ← (Fallible.of (askLog .flush) : LogAct Unit).attempt
      let status ← Fallible.of (askLog .load)
      if status.isLive then do
        Fallible.lift (askLog .sleep)
        again
      else return () : LogAct Unit).wp (logSystem.beside ()) g
        (fun _ g' => Finished g') (fun _ _ => True) := by
  simp only [Fallible.wp_bind, Fallible.wp_attempt, Fallible.wp_of]
  -- the flush, whose failure is ignored
  intro past world drift answer world' answered
  replace copied : Copied pos (past, world) :=
    drift.invariant (fun before happened => before.happen happened) copied
  replace lacks : Lacks (past, world) := lacks.drift drift
  cases answered
  have flushed :
      Copied pos (.call () .flush answer :: past, world) ∧
        Lacks (.call () .flush answer :: past, world) :=
    ⟨⟨copied.inside, copied.sink⟩, lacks⟩
  -- what follows is the same after a failed flush
  suffices loaded :
      (askLog .load).wp (logSystem.beside ())
        (.call () .flush answer :: past, world)
        (Fallible.onResult
          (fun status g' =>
            (if status.isLive then do
              Fallible.lift (askLog .sleep)
              again
            else return () : LogAct Unit).wp (logSystem.beside ()) g'
              (fun _ g' => Finished g') (fun _ _ => True))
          (fun _ _ => True)) by
    cases answer with
    | ok => exact loaded
    | error e => exact loaded
  intro past' world' drift' answer' world'' answered'
  have copied' : Copied pos (past', world') :=
    drift'.invariant (fun before happened => before.happen happened) flushed.1
  have lacks' : Lacks (past', world') := flushed.2.drift drift'
  cases answer' with
  | error e =>
      trivial
  | ok status =>
      simp only [LogWorld.answer] at answered'
      split at answered'
      · rename_i same
        subst same
        cases answered'
        rw [Prog.wp_ret, Fallible.onResult_ok]
        split
        · simp only [Fallible.wp_bind, Fallible.wp_lift]
          intro past'' world'' drift'' _ slept answered''
          cases answered''
          have copied'' : Copied pos (past'', world'') :=
            drift''.invariant
              (fun before happened => before.happen happened)
              ⟨copied'.inside, copied'.sink⟩
          exact rest ⟨copied''.inside, copied''.sink⟩
        · rename_i notLive
          exact ⟨by simpa using notLive, lacks'⟩
      · cases answered'

/-- The rounds of the follower, each from the position reached before. -/
theorem followFrom_wp
    (reads rounds : Nat) :
    ∀ {pos : Nat} {g : Moment},
      Copied pos g →
        (followFrom reads pos rounds).wp (logSystem.beside ()) g
          (fun _ g' => Finished g') (fun _ _ => True) := by
  induction rounds with
  | zero =>
      intro pos g _
      exact spin_wp
  | succ rounds inductionHypothesis =>
      intro pos g copied
      simp only [followFrom, Fallible.wp_bind, Fallible.wp_of]
      -- the seek to the position reached
      intro past world drift answer world' answered
      replace copied : Copied pos (past, world) :=
        drift.invariant (fun before happened => before.happen happened) copied
      cases answer with
      | error e =>
          trivial
      | ok =>
          cases answered
          rw [Prog.wp_ret, Fallible.onResult_ok]
          have here : At pos (.call () (.seek pos) (.ok ()) :: past,
              { world with offset := pos }) :=
            ⟨⟨copied.inside, copied.sink⟩, rfl⟩
          refine Fallible.wp_consequence ?_ (fun _ _ trivial => trivial)
            (drain_wp reads here)
          intro pos' after drained
          simpa only [Fallible.wp_bind, Fallible.wp_of] using
            checkStatus_wp inductionHypothesis drained.1 drained.2

/-- Following a log from the beginning. -/
theorem followLogs_wp
    (rounds reads : Nat)
    {start : LogWorld}
    (empty : start.sink = []) :
    (followLogs rounds reads).wp (logSystem.beside ()) ([], start)
      (fun _ g' => Finished g') (fun _ _ => True) := by
  simp only [followLogs, Fallible.wp_bind, Fallible.wp_of]
  intro past world drift answer world' answered
  have initially : Copied 0 ([], start) :=
    ⟨Nat.zero_le _, by simpa using empty⟩
  have copied : Copied 0 (past, world) :=
    drift.invariant (fun before happened => before.happen happened) initially
  cases answered
  cases answer with
  | error e =>
      trivial
  | ok =>
      exact followFrom_wp reads rounds ⟨copied.inside, copied.sink⟩

/-! ## The log itself -/

/-- What a history and the world it led to have in common. -/
structure Written (start : LogWorld) (g : Moment) : Prop where
  log : g.2.log = start.log ++ beforeEnd g.1
  stopped : g.2.status.isLive = false → g.2.running = false
  notLive : ended g.1 → g.2.status.isLive = false

/-- The container appends nothing after its status is not live. -/
theorem Written.happen
    {start w w' : LogWorld}
    {past : List logSystem.Event}
    {what : LogHappening}
    (written : Written start (past, w))
    (happened : w.happen what = some w') :
    Written start (.happen what :: past, w') := by
  obtain ⟨log, stopped, notLive⟩ := written
  simp only at log stopped notLive
  cases what with
  | append chunk =>
      simp only [LogWorld.happen] at happened
      split at happened
      · rename_i running
        cases happened
        have going : ended past = false := by
          by_contra isOver
          rw [stopped (notLive (by simpa using isOver))] at running
          cases running
        refine ⟨?_, stopped, notLive⟩
        simp [beforeEnd, going, log]
      · cases happened
  | stop =>
      cases happened
      exact ⟨log, fun _ => rfl, notLive⟩
  | save status =>
      simp only [LogWorld.happen] at happened
      split at happened
      · rename_i allowed
        cases happened
        refine ⟨log, ?_, ?_⟩
        · intro isOver
          exact allowed.2.resolve_left (by simpa using isOver)
        · intro isOver
          simp only [ended, Bool.or_eq_true, Bool.not_eq_true'] at isOver
          rcases isOver with saved | earlier
          · exact saved
          · simp [notLive earlier] at allowed
      · cases happened

/-- The follower changes neither the log nor the status. -/
theorem Written.answer
    {start w w' : LogWorld}
    {past : List logSystem.Event}
    {op : LogOp}
    {answer : LogAns op}
    (written : Written start (past, w))
    (answered : w.answer op answer = some w') :
    Written start (.call () op answer :: past, w') := by
  have same :
      w'.log = w.log ∧ w'.status = w.status ∧ w'.running = w.running := by
    cases op with
    | spin =>
        exact nomatch answer
    | read =>
        cases answer with
        | error e =>
            cases answered
            exact ⟨rfl, rfl, rfl⟩
        | ok chunk =>
            rcases read_cases answered with ⟨_, _, rfl⟩ | ⟨_, _, rfl⟩
            · exact ⟨rfl, rfl, rfl⟩
            · exact ⟨rfl, rfl, rfl⟩
    | load =>
        cases answer with
        | error e =>
            cases answered
            exact ⟨rfl, rfl, rfl⟩
        | ok status =>
            simp only [LogWorld.answer] at answered
            split at answered
            · cases answered
              exact ⟨rfl, rfl, rfl⟩
            · cases answered
    | seek pos =>
        cases answer <;> cases answered <;> exact ⟨rfl, rfl, rfl⟩
    | write bytes =>
        cases answer <;> cases answered <;> exact ⟨rfl, rfl, rfl⟩
    | openLog | flush | sleep =>
        cases answered
        exact ⟨rfl, rfl, rfl⟩
  refine ⟨?_, ?_, ?_⟩
  · exact same.1.trans written.log
  · rw [same.2.1, same.2.2]
    exact written.stopped
  · intro isOver
    exact same.2.1 ▸ written.notLive isOver

/-- Along a run the log is what the container appended before its end. -/
theorem run_written
    {start c : logSystem.Config}
    {past : List logSystem.Event}
    (stopped : start.world.status.isLive = false →
      start.world.running = false)
    (run : System.Run (fun _ _ _ => True) start past c) :
    Written start.world (past, c.world) := by
  refine @System.Run.invariant _ _ _ _ _
    (fun past c => Written start.world (past, c.world)) ?_ ?_ _ _ run
  · exact ⟨(List.append_nil _).symm, stopped, fun isOver => nomatch isOver⟩
  · intro past c c' event _ written step _
    cases step with
    | call ready answered unused =>
        exact written.answer answered
    | happen happened =>
        exact written.happen happened
    | kill running =>
        exact ⟨written.log, written.stopped, written.notLive⟩

/-! ## Following a log loses nothing -/

/--
When following returns, the sink has the bytes appended before the status
became non-live exactly when none were appended after the last read that met
the end of the file.
-/
theorem follow_logs_complete_iff
    {start c : logSystem.Config}
    {rounds reads : Nat}
    {past : List logSystem.Event}
    (begins : Begins start rounds reads)
    (run : System.Run (fun _ _ _ => True) start past c)
    (returned : c.process () = some (.ret (.ok ()))) :
    c.world.status.isLive = false ∧
      (c.world.sink = start.world.log ++ beforeEnd past ↔
        missed past = []) := by
  have alone : System.Alone ()
      (Fallible.onResult (fun _ g => Finished g) (fun _ _ => True))
      past c := by
    refine System.Run.alone (fun _ _ => rfl) ?_
      ⟨fun other different => absurd rfl different, ?_⟩ run
    · intro result g g' drift holds
      cases result with
      | ok value =>
          exact drift.invariant
            (fun before happened => before.happen happened) holds
      | error e =>
          trivial
    · intro p same
      rw [begins.process] at same
      cases same
      exact followLogs_wp rounds reads begins.sink
  have finished : Finished (past, c.world) := alone.meets _ returned
  have written := run_written begins.stopped run
  have lacks : c.world.log = c.world.sink ++ missed past := finished.lacks
  have log : c.world.log = start.world.log ++ beforeEnd past := written.log
  refine ⟨finished.notLive, ?_⟩
  rw [← log, lacks]
  exact List.self_eq_append_right

/-! ## A run that loses a byte -/

/-- A running container with an empty log. -/
def following : logSystem.Config :=
  System.Config.solo
    { log := [], running := true, status := .running, offset := 0, sink := [] }
    () (followLogs 1 2).run

private theorem following_begins : Begins following 1 2 where
  process := by simp [following, System.Config.solo]
  sink := rfl
  stopped := fun notLive => nomatch notLive

/-- The follower gets what it asks for. -/
def obey (w : LogWorld) : (op : LogOp) → Option (LogAns op)
  | .openLog => some (.ok ())
  | .seek _ => some (.ok ())
  | .read => some (.ok ((w.log.drop w.offset).take bufferSize))
  | .write _ => some (.ok ())
  | .flush => some (.ok ())
  | .load => some (.ok w.status)
  | .sleep => some ()
  | .spin => none

/-- The container writes its last byte after the follower met the end. -/
def lateByte : List (System.Turn logSystem) :=
  [.go () obey, .go () obey, .go () obey, .go () obey,
    .happen (.append [104]), .happen .stop, .happen (.save .stopped),
    .go () obey]

/-- The follower is scheduled after the container wrote its last byte. -/
def earlyByte : List (System.Turn logSystem) :=
  [.go () obey, .happen (.append [104]), .happen .stop,
    .happen (.save .stopped), .go () obey, .go () obey, .go () obey,
    .go () obey, .go () obey, .go () obey]

/-- What a schedule leads to, if the follower returns. -/
def outcome (schedule : List (System.Turn logSystem)) :
    Option (List UInt8 × List UInt8 × List UInt8) :=
  match following.play [] schedule with
  | some (past, c) =>
      match c.process () with
      | some (.ret (.ok ())) => some (c.world.sink, beforeEnd past, missed past)
      | _ => none
  | none => none

private theorem run_of_outcome
    {schedule : List (System.Turn logSystem)}
    {received written lost : List UInt8}
    (out : outcome schedule = some (received, written, lost)) :
    ∃ past c, System.Run (fun _ _ _ => True) following past c ∧
      c.process () = some (.ret (.ok ())) ∧ c.world.sink = received ∧
      beforeEnd past = written ∧ missed past = lost := by
  unfold outcome at out
  split at out
  · rename_i past c played
    split at out
    · rename_i returned
      simp only [Option.some.injEq, Prod.mk.injEq] at out
      exact ⟨past, c, System.Config.run_of_play_start played, returned,
        out.1, out.2.1, out.2.2⟩
    · cases out
  · cases out

/-- A byte written between the last read and the save is not received. -/
theorem follow_logs_loses_a_byte :
    ¬ ∀ (start c : logSystem.Config) (rounds reads : Nat)
        (past : List logSystem.Event),
      Begins start rounds reads →
      System.Run (fun _ _ _ => True) start past c →
      c.process () = some (.ret (.ok ())) →
      c.world.sink = start.world.log ++ beforeEnd past := by
  intro complete
  obtain ⟨past, c, run, returned, received, written, _⟩ :=
    @run_of_outcome lateByte [] [104] [104] rfl
  have same := complete following c 1 2 past following_begins run returned
  rw [received, written] at same
  cases same

/-- A byte written before the last read is received. -/
theorem follow_logs_complete_of_early_byte :
    ∃ past c, System.Run (fun _ _ _ => True) following past c ∧
      c.process () = some (.ret (.ok ())) ∧
      c.world.sink = following.world.log ++ beforeEnd past := by
  obtain ⟨past, c, run, returned, _, _, lost⟩ :=
    @run_of_outcome earlyByte [104] [104] [] rfl
  exact ⟨past, c, run, returned,
    (follow_logs_complete_iff following_begins run returned).2.mpr lost⟩

end FollowLogs

end Myrun
