import Myrun.Conduct
import Myrun.ConfigRoundTrip

namespace Myrun

/-!
# The recorded exit status

The shim writes the final record of a container without taking its lock, while
commands load, act and save under it.  A command that loaded the record before
`wait_for_exit` saved the exit status can still save what it loaded and so lose
the status.

A `start --attach` whose launch fails removes the record that it loaded, and
with it what was recorded since.

A command that loads after that save sees the stopped container and keeps the
record.  So the exit status is safe in every run in which no process saves a
record, or removes it without being a `delete`, that it loaded before
`wait_for_exit` saved.
-/

/-- A `delete` of the container. -/
def Command.deletes (id : String) : Command → Bool
  | .delete i _ _ => i = id
  | _ => false

/-- A command that launches the container. -/
def Command.launches (id : String) : Command → Bool
  | .shim i _ => i = id
  | .startAttached i _ => i = id
  | _ => false

/-- The record of the container that an operation read or was to write. -/
def Op.noted? (id : String) : (op : Op) → Ans op → Option ContainerState
  | .readState _, .ok st => if st.id = id then some st else none
  | .writeState _ st, _ => if st.id = id then some st else none
  | _, _ => none

namespace ExitRecord

/-- A stopped container with a given exit status. -/
def Records (exit : ExitStatus) (st : ContainerState) : Prop :=
  st.status = .stopped ∧ st.exitStatus = exit

section Events

variable [F64Ops]

/-- The process that performed an event. -/
def actor : runtime.Event → Option Pid
  | .call pid _ _ => some pid
  | _ => none

/-- The record of the container that an event wrote. -/
def saved? (id : String) : runtime.Event → Option (SavePoint × ContainerState)
  | .call _ op answer => op.saved? id answer
  | _ => none

/-- An event that read the record of the container. -/
def loads (id : String) : runtime.Event → Bool
  | .call _ op answer => (op.loaded? id answer).isSome
  | _ => false

/-- The exit status that `wait_for_exit` recorded at an event. -/
def recorded? (id : String) (event : runtime.Event) : Option ExitStatus :=
  match saved? id event with
  | some (.waitForExit, st) =>
      if st.status = .stopped ∧ (st.exitCode.isSome ∨ st.exitSignal.isSome) then
        some st.exitStatus
      else none
  | _ => none

/-- `wait_for_exit` recorded this exit status. -/
def Recorded (id : String) (past : List runtime.Event) (exit : ExitStatus) :
    Prop :=
  ∃ event ∈ past, recorded? id event = some exit

/-- Since `wait_for_exit` last recorded an exit status, the process has read the
record, or it is the one that recorded it. -/
def upToDate (id : String) (pid : Pid) : List runtime.Event → Bool
  | [] => true
  | event :: past =>
      if (recorded? id event).isSome then actor event = some pid
      else if loads id event ∧ actor event = some pid then true
      else upToDate id pid past

/-! ### Removal of the record -/

/-- An event after which the record of the container is gone. -/
def removes (id : String) : runtime.Event → Bool
  | .call _ (.removeDir i) .removed => i = id
  | .call _ (.removeDir i) (.failed stateGone _) => i = id && stateGone
  | _ => false

/-- The shim that an event forked. -/
def forked? : runtime.Event → Option (Pid × Command)
  | .call _ (.forkShim i rounds) (.ok child) => some (child, .shim i rounds)
  | _ => none

/-- The command that a process runs. -/
def commandAt (commands : Pid → Option Command) :
    List runtime.Event → Pid → Option Command
  | [], pid => commands pid
  | event :: past, pid =>
      match forked? event with
      | some (child, command) =>
          if pid = child then some command else commandAt commands past pid
      | none => commandAt commands past pid

/-- The record of the container that an event read or was to write. -/
def noted? (id : String) : runtime.Event → Option ContainerState
  | .call _ op answer => op.noted? id answer
  | _ => none

/-- The record of the container that a process read or was to write last. -/
def held? (id : String) (pid : Pid) : List runtime.Event → Option ContainerState
  | [] => none
  | event :: past =>
      if actor event = some pid then (noted? id event).or (held? id pid past)
      else held? id pid past

/-- The process is a `delete`, or it launched the container and holds the record
with the exit status, which asks for its removal. -/
def MayRemove (id : String) (commands : Pid → Option Command)
    (past : List runtime.Event) (exit : ExitStatus) (pid : Pid) : Prop :=
  (commandAt commands past pid).any (·.deletes id) ∨
    (commandAt commands past pid).any (·.launches id) ∧
      ∃ st, held? id pid past = some st ∧ Records exit st ∧
        st.config.autoRemove = true

/-- No process saves a record of the container that it loaded before
`wait_for_exit` recorded the exit status, and none but a `delete` removes it. -/
def NoStaleAct (id : String) (commands : Pid → Option Command)
    (past : List runtime.Event) (event : runtime.Event) : Prop :=
  ∀ pid, actor event = some pid →
    (saved? id event).isSome ∨
      (removes id event ∧ ¬ (commandAt commands past pid).any (·.deletes id)) →
    upToDate id pid past

/-- Once an exit status is recorded, every later save keeps it, and the record
is removed only by `delete` and by the container's own request. -/
def ExitKept (id : String) (commands : Pid → Option Command)
    (past : List runtime.Event) : Prop :=
  ∀ event earlier, event :: earlier <:+ past →
    ∀ exit, Recorded id earlier exit →
      (∀ place st, saved? id event = some (place, st) → Records exit st) ∧
      (removes id event → ∀ pid, actor event = some pid →
        MayRemove id commands earlier exit pid)

end Events

/-! ## One save -/

/-- What a process saves after a recorded exit status keeps it. -/
theorem Records.saves
    {exit : ExitStatus}
    {faults : Prop}
    {v : View}
    {old st : ContainerState}
    {place : SavePoint}
    (records : Records exit old)
    (saves : v.Saves faults old st place) :
    Records exit st := by
  have notLive : old.status.isLive = false := by
    rw [records.1]
    rfl
  cases place with
  | storeCreate =>
      exact saves.elim
  | create =>
      exact saves.elim
  | reconcile =>
      simp [saves.1] at notLive
  | kill =>
      simp [saves.1] at notLive
  | stop =>
      simp [saves.1] at notLive
  | pause =>
      simp [saves.1] at notLive
  | unpause =>
      simp [saves.1] at notLive
  | start =>
      obtain ⟨_, shim, rfl⟩ := saves
      exact records
  | launch =>
      have created := saves.2.1
      rw [records.1] at created
      simp at created
  | launchFailed =>
      refine ⟨saves.1, ?_⟩
      have outcome := saves.2
      split at outcome
      · exact (outcome.1 records.1).elim
      · rw [← outcome.2.2]
        exact records.2
  | shim =>
      have running := saves.2.2.1
      rw [records.1] at running
      simp at running
  | waitForExit =>
      have running := saves.2.2.1
      rw [records.1] at running
      simp at running
  | teardown =>
      obtain ⟨⟨oom, now, rfl⟩, _⟩ := saves
      cases oom with
      | false =>
          simpa [ContainerState.markTornDown, notLive] using records
      | true =>
          rw [ContainerState.markTornDown, if_neg (by simp [notLive])]
          exact records

/-! ## Commands and records of the processes -/

section After

variable {id : String}

private theorem begun_seen
    (op : Op)
    (answer : Ans op) :
    (View.begun op answer).seen = [] := by
  unfold View.begun
  split <;> rfl

/-- Only the status check of `launch` makes a process one that has launched. -/
theorem launched_before
    {v : View}
    {op : Op}
    {answer : Ans op}
    (launched : (v.after id op answer).launched = true) :
    op = .launching id ∨ v.launched = true := by
  cases op with
  | launching i =>
      by_cases here : i = id
      · exact .inl (congrArg Op.launching here)
      · exact .inr (by simpa [View.after, here] using launched)
  | _ =>
      refine .inr ?_
      (try cases answer) <;> simp only [View.after, View.note] at launched <;>
        (try split at launched) <;> exact launched

private theorem noted?_of_seen
    {v : View}
    {op : Op}
    {answer : Ans op}
    {st : ContainerState}
    {rest : List ContainerState}
    (seen : (v.after id op answer).seen = st :: rest) :
    op.noted? id answer = some st ∨
      op.noted? id answer = none ∧ v.seen = st :: rest := by
  cases op with
  | writeState place saved =>
      by_cases here : saved.id = id <;>
        simp_all [View.after, View.note, Op.noted?]
  | readState i =>
      cases answer with
      | error e =>
          exact .inr ⟨rfl, seen⟩
      | ok loaded =>
          by_cases here : loaded.id = id <;>
            simp_all [View.after, View.note, Op.noted?]
  | readNotify shim =>
      cases answer <;> simp [View.after] at seen
  | spin =>
      exact answer.elim
  | _ =>
      refine .inr ⟨rfl, ?_⟩
      (try cases answer) <;> simp only [View.after] at seen <;>
        (try split at seen) <;> exact seen

end After

section Runs

variable [F64Ops] {id : String} {commands : Pid → Option Command}
  {past : List runtime.Event} {c c' : runtime.Config}

private theorem forkShim_of_starts
    {op : Op}
    {answer : Ans op}
    {child : Pid}
    {p : Prog Op Ans (Result Unit)}
    (starts : runtime.starts op answer = some (child, p)) :
    ∃ i rounds, op = .forkShim i rounds ∧ HEq answer (Except.ok child : Result Pid) := by
  cases op with
  | forkShim i rounds =>
      cases answer with
      | error e =>
          simp [runtime] at starts
      | ok pid =>
          obtain ⟨rfl, _⟩ := Prod.mk.inj (Option.some.inj starts)
          exact ⟨i, rounds, rfl, .rfl⟩
  | _ =>
      simp [runtime] at starts

private theorem commandAt_of_not_started
    {caller pid : Pid}
    {op : Op}
    {answer : Ans op}
    (notStarted : ∀ p, runtime.starts op answer ≠ some (pid, p)) :
    commandAt commands (.call caller op answer :: past) pid =
      commandAt commands past pid := by
  cases op with
  | forkShim i rounds =>
      cases answer with
      | error e =>
          rfl
      | ok child =>
          have different : pid ≠ child := by
            rintro rfl
            exact notStarted _ rfl
          simp [commandAt, forked?, different]
  | _ =>
      rfl

/-- The command in the view of a process. -/
theorem command_eq
    (id : String)
    (commands : Pid → Option Command)
    (past : List runtime.Event)
    (pid : Pid) :
    (commandViews id True commands past pid).command =
      (commandAt commands past pid).getD .list := by
  induction past generalizing pid with
  | nil =>
      rfl
  | cons event past inductionHypothesis =>
      cases event with
      | happen what =>
          exact inductionHypothesis pid
      | kill killed =>
          exact inductionHypothesis pid
      | call caller op answer =>
          rcases System.views_after_call (conduct id True) View.begun
              (View.first commands) past caller pid op answer with
            ⟨⟨p, starts⟩, view⟩ | ⟨notStarted, moved⟩
          · rw [commandViews, view]
            obtain ⟨i, rounds, rfl, rfl⟩ := forkShim_of_starts starts
            simp [View.begun, commandAt, forked?]
          · have same : commandAt commands (.call caller op answer :: past) pid =
                commandAt commands past pid :=
              commandAt_of_not_started notStarted
            rw [same, ← inductionHypothesis pid]
            rcases moved with ⟨rfl, view⟩ | ⟨_, view⟩
            · rw [commandViews, view]
              exact View.after_command
            · rw [commandViews, view]

private theorem commandAt_of_command
    {pid : Pid}
    {command : Command}
    (runs : (commandViews id True commands past pid).command = command)
    (notList : command ≠ .list) :
    commandAt commands past pid = some command := by
  rw [command_eq] at runs
  cases known : commandAt commands past pid with
  | none =>
      rw [known] at runs
      exact absurd runs.symm notList
  | some found =>
      rw [known] at runs
      exact congrArg some runs

/-- The newest record in the view of a process. -/
theorem held?_of_seen
    {past : List runtime.Event}
    {pid : Pid}
    {st : ContainerState}
    {rest : List ContainerState}
    (seen : (commandViews id True commands past pid).seen = st :: rest) :
    held? id pid past = some st := by
  induction past generalizing rest with
  | nil =>
      simp [commandViews, System.views, View.first] at seen
  | cons event past inductionHypothesis =>
      cases event with
      | happen what =>
          exact inductionHypothesis seen
      | kill killed =>
          exact inductionHypothesis seen
      | call caller op answer =>
          rcases System.views_after_call (conduct id True) View.begun
              (View.first commands) past caller pid op answer with
            ⟨_, view⟩ | ⟨_, ⟨rfl, view⟩ | ⟨different, view⟩⟩
          · rw [commandViews, view, begun_seen] at seen
            simp at seen
          · rw [commandViews, view] at seen
            rcases noted?_of_seen seen with noted | ⟨notNoted, before⟩
            · simp [held?, actor, noted?, noted]
            · simpa [held?, actor, noted?, notNoted] using inductionHypothesis before
          · rw [commandViews, view] at seen
            have notActor : actor (.call caller op answer) ≠ some pid :=
              fun same => different (Option.some.inj same).symm
            rw [held?, if_neg notActor]
            exact inductionHypothesis seen

/-! ## All interleavings -/

/-- A recorded exit status is in the file and in every record that an up to
date process holds. -/
structure Inv (id : String) (commands : Pid → Option Command)
    (past : List runtime.Event) (c : runtime.Config) : Prop where
  kept : ExitKept id commands past
  file : ∀ exit, Recorded id past exit →
    ∀ st, World.state? c.world id = some st → Records exit st
  held : ∀ exit, Recorded id past exit →
    ∀ pid p, c.process pid = some p → upToDate id pid past →
      ∀ st rest, (commandViews id True commands past pid).seen = st :: rest →
        Records exit st
  launchers : ∀ pid, (commandViews id True commands past pid).launched = true →
    (commandViews id True commands past pid).Launches id

private theorem recorded?_eq_some
    {event : runtime.Event}
    {exit : ExitStatus}
    (isRecorded : recorded? id event = some exit) :
    ∃ st, saved? id event = some (.waitForExit, st) ∧ Records exit st := by
  unfold recorded? at isRecorded
  split at isRecorded
  · rename_i st isSaved
    split at isRecorded
    · rename_i stopped
      exact ⟨st, isSaved, stopped.1, by simpa using isRecorded⟩
    · simp at isRecorded
  · simp at isRecorded

private theorem recorded_cons
    {event : runtime.Event}
    {exit : ExitStatus}
    (isRecorded : Recorded id (event :: past) exit) :
    recorded? id event = some exit ∨ Recorded id past exit := by
  obtain ⟨e, member, isExit⟩ := isRecorded
  rcases List.mem_cons.mp member with rfl | earlier
  · exact .inl isExit
  · exact .inr ⟨e, earlier, isExit⟩

/-- An event that neither saves nor reads the record changes nothing. -/
theorem upToDate_other
    {event : runtime.Event}
    (pid : Pid)
    (notSaved : saved? id event = none)
    (notLoaded : loads id event = false) :
    upToDate id pid (event :: past) = upToDate id pid past := by
  simp [upToDate, recorded?, notSaved, notLoaded]

private theorem recorded_other
    {event : runtime.Event}
    {exit : ExitStatus}
    (notSaved : saved? id event = none)
    (isRecorded : Recorded id (event :: past) exit) :
    Recorded id past exit := by
  rcases recorded_cons isRecorded with now | earlier
  · simp [recorded?, notSaved] at now
  · exact earlier

private theorem exitKept_cons
    {event : runtime.Event}
    (kept : ExitKept id commands past)
    (saves : ∀ exit, Recorded id past exit → ∀ place st,
      saved? id event = some (place, st) → Records exit st)
    (removed : ∀ exit, Recorded id past exit → removes id event →
      ∀ pid, actor event = some pid → MayRemove id commands past exit pid) :
    ExitKept id commands (event :: past) := by
  intro e earlier suffix exit isRecorded
  rcases List.suffix_cons_iff.mp suffix with same | older
  · obtain ⟨rfl, rfl⟩ := List.cons.inj same
    exact ⟨saves exit isRecorded, removed exit isRecorded⟩
  · exact kept e earlier older exit isRecorded

private theorem removeDir_of_removes
    {pid : Pid}
    {op : Op}
    {answer : Ans op}
    (gone : removes id (.call pid op answer) = true) :
    op = .removeDir id := by
  cases op with
  | removeDir i =>
      cases answer <;> simp_all [removes]
  | _ =>
      simp [removes] at gone

/-- What the process at hand saves keeps every recorded exit status. -/
theorem Inv.saves
    (inv : Inv id commands past c)
    {pid : Pid}
    {p : Prog Op Ans (Result Unit)}
    (running : c.process pid = some p)
    (current : upToDate id pid past)
    {exit : ExitStatus}
    (isRecorded : Recorded id past exit)
    {place : SavePoint}
    {st : ContainerState}
    (here : st.id = id)
    (requires : View.requires id True (commandViews id True commands past pid)
      (.writeState place st)) :
    Records exit st := by
  obtain ⟨old, rest, seen, saves⟩ := requires here
  exact (inv.held exit isRecorded pid p running current old rest seen).saves saves

/-- Who removes the record after a recorded exit status. -/
theorem Inv.mayRemove
    (inv : Inv id commands past c)
    {pid : Pid}
    {p : Prog Op Ans (Result Unit)}
    (running : c.process pid = some p)
    {op : Op}
    {answer : Ans op}
    (requires : View.requires id True (commandViews id True commands past pid)
      op)
    (permitted : NoStaleAct id commands past (.call pid op answer))
    {exit : ExitStatus}
    (isRecorded : Recorded id past exit)
    (gone : removes id (.call pid op answer) = true) :
    MayRemove id commands past exit pid := by
  by_cases deletes : (commandAt commands past pid).any (·.deletes id) = true
  · exact .inl deletes
  have current := permitted pid rfl (.inr ⟨gone, deletes⟩)
  obtain rfl : op = .removeDir id := removeDir_of_removes gone
  rcases requires rfl with
    ⟨launched, st, rest, seen, asks⟩ | ⟨force, rounds, isDelete, _⟩
  · have records := inv.held exit isRecorded pid p running current st rest seen
    refine .inr ⟨?_, st, held?_of_seen seen, records, asks records.1⟩
    obtain ⟨rounds, isShim | isAttached⟩ := inv.launchers pid launched
    · simp [commandAt_of_command isShim (by simp), Command.launches]
    · simp [commandAt_of_command isAttached (by simp), Command.launches]
  · refine absurd ?_ deletes
    simp [commandAt_of_command isDelete (by simp), Command.deletes]

/-- An event of another process leaves a process up to date only if it
recorded nothing. -/
theorem upToDate_other_actor
    {pid other : Pid}
    {op : Op}
    {answer : Ans op}
    (different : other ≠ pid)
    (current : upToDate id other (.call pid op answer :: past)) :
    recorded? id (.call pid op answer) = none ∧ upToDate id other past := by
  have notActor : ¬ some pid = some other := by
    simpa using fun same => different same.symm
  unfold upToDate at current
  split at current
  · simp [actor, notActor] at current
  · rename_i notRecorded
    rw [if_neg (by simp [actor, notActor])] at current
    exact ⟨by simpa using notRecorded, current⟩

private theorem launchers_call
    (launchers : ∀ pid,
      (commandViews id True commands past pid).launched = true →
        (commandViews id True commands past pid).Launches id)
    {pid : Pid}
    {op : Op}
    {answer : Ans op}
    (requires : View.requires id True
      (commandViews id True commands past pid) op)
    (other : Pid)
    (launched : (commandViews id True commands (.call pid op answer :: past)
      other).launched = true) :
    (commandViews id True commands (.call pid op answer :: past)
      other).Launches id := by
  rcases System.views_after_call (conduct id True) View.begun
      (View.first commands) past pid other op answer with
    ⟨_, view⟩ | ⟨_, ⟨rfl, view⟩ | ⟨_, view⟩⟩
  · rw [commandViews, view] at launched
    unfold View.begun at launched
    split at launched <;> simp at launched
  · rw [commandViews, view] at launched ⊢
    have before : (commandViews id True commands past other).Launches id := by
      rcases launched_before launched with isLaunching | wasLaunched
      · subst isLaunching
        exact (requires rfl).1
      · exact launchers other wasLaunched
    obtain ⟨rounds, isLaunch⟩ := before
    exact ⟨rounds, by rwa [show ((conduct id True).after _ op answer).command =
      _ from View.after_command]⟩
  · rw [commandViews, view] at launched ⊢
    exact launchers other launched

/-- What has to be shown for an operation: about the file, about what was saved
and about the process itself. -/
theorem Inv.of_call
    (inv : Inv id commands past c)
    {pid : Pid}
    {op : Op}
    {next : Ans op → Prog Op Ans (Result Unit)}
    {answer : Ans op}
    {world : World}
    (ready : c.process pid = some (.call op next))
    (unused : c.Unused (runtime.starts op answer))
    (requires : View.requires id True
      (commandViews id True commands past pid) op)
    (permitted : NoStaleAct id commands past (.call pid op answer))
    (saved : ∀ exit, Recorded id past exit → ∀ place st,
      op.saved? id answer = some (place, st) → Records exit st)
    (file : ∀ exit, Recorded id (.call pid op answer :: past) exit →
      ∀ st, world.state? id = some st → Records exit st)
    (self : ∀ exit, Recorded id (.call pid op answer :: past) exit →
      upToDate id pid (.call pid op answer :: past) →
      ∀ st rest, (View.after id (commandViews id True commands past pid) op
        answer).seen = st :: rest → Records exit st) :
    Inv id commands (.call pid op answer :: past)
      ((({ c with world } : runtime.Config).resume pid
        (some (next answer))).start (runtime.starts op answer)) := by
  refine ⟨exitKept_cons inv.kept saved ?_, ?_, ?_, ?_⟩
  · intro exit isRecorded gone other isActor
    obtain rfl : pid = other := Option.some.inj isActor
    exact inv.mayRemove ready requires permitted isRecorded gone
  · intro exit isRecorded st found
    refine file exit isRecorded st ?_
    rw [System.Config.start_world] at found
    exact found
  · intro exit isRecorded other q running current st rest seen
    rcases System.processes_after_call (conduct id True) View.begun
        (View.first commands) past ready unused running with
      ⟨starts, view⟩ | ⟨rfl, _, view⟩ | ⟨different, before, view⟩
    · rw [commandViews, view, begun_seen] at seen
      simp at seen
    · rw [commandViews, view] at seen
      exact self exit isRecorded current st rest seen
    · obtain ⟨notRecorded, currentBefore⟩ :=
        upToDate_other_actor different current
      rcases recorded_cons isRecorded with now | earlier
      · simp [notRecorded] at now
      · rw [commandViews, view] at seen
        exact inv.held exit earlier other q before currentBefore st rest seen
  · exact launchers_call inv.launchers requires

private theorem Inv.call
    (inv : Inv id commands past c)
    {pid : Pid}
    {op : Op}
    {next : Ans op → Prog Op Ans (Result Unit)}
    {answer : Ans op}
    {world : World}
    (ready : c.process pid = some (.call op next))
    (answered : World.answer c.world pid op answer = some world)
    (unused : c.Unused (runtime.starts op answer))
    (requires : View.requires id True
      (commandViews id True commands past pid) op)
    (permitted : NoStaleAct id commands past (.call pid op answer)) :
    Inv id commands (.call pid op answer :: past)
      ((({ c with world } : runtime.Config).resume pid
        (some (next answer))).start (runtime.starts op answer)) := by
  have effect := recordEffect_of_answer answered id
    (commandViews id True commands past pid)
  cases effect with
  | @wrote place st here file seen =>
      have isSaved : Op.saved? id (.writeState place st) (.ok ()) =
          some (place, st) := by
        simp [Op.saved?, here]
      have current : upToDate id pid past :=
        permitted pid rfl (.inl (by simp [saved?, isSaved]))
      have recordsNow : ∀ exit,
          Recorded id (.call pid (.writeState place st) (.ok ()) :: past) exit →
            Records exit st := by
        intro exit isRecorded
        rcases recorded_cons isRecorded with now | earlier
        · obtain ⟨st', isSaved', records⟩ := recorded?_eq_some now
          have same : (place, st) = (.waitForExit, st') := by
            simpa [saved?, isSaved] using isSaved'
          rw [(Prod.mk.inj same).2]
          exact records
        · exact inv.saves ready current earlier here requires
      refine inv.of_call ready unused requires permitted ?_ ?_ ?_
      · intro exit earlier place' st' isSaved'
        rw [isSaved] at isSaved'
        obtain ⟨rfl, rfl⟩ := Prod.mk.inj (Option.some.inj isSaved')
        exact inv.saves ready current earlier here requires
      · intro exit isRecorded st' found
        rw [file] at found
        exact Option.some.inj found ▸ recordsNow exit isRecorded
      · intro exit isRecorded _ st' rest seen'
        rw [seen] at seen'
        exact (List.cons.inj seen').1 ▸ recordsNow exit isRecorded
  | @failedToWrite place st e here file seen =>
      have notSaved : saved? id (.call pid (.writeState place st) (.error e)) =
          none := rfl
      have unchanged : upToDate id pid
          (.call pid (.writeState place st) (.error e) :: past) =
            upToDate id pid past :=
        upToDate_other pid notSaved rfl
      refine inv.of_call ready unused requires permitted (by simp [Op.saved?]) ?_ ?_
      · intro exit isRecorded st' found
        exact inv.file exit (recorded_other notSaved isRecorded) st'
          (file ▸ found)
      · intro exit isRecorded current st' rest seen'
        rw [seen] at seen'
        refine (List.cons.inj seen').1 ▸ ?_
        exact inv.saves ready (unchanged ▸ current)
          (recorded_other notSaved isRecorded) here requires
  | @read st file found seen =>
      have notSaved : saved? id (.call pid (.readState id) (.ok st)) = none := rfl
      refine inv.of_call ready unused requires permitted (by simp [Op.saved?]) ?_ ?_
      · intro exit isRecorded st' found'
        exact inv.file exit (recorded_other notSaved isRecorded) st'
          (file ▸ found')
      · intro exit isRecorded _ st' rest seen'
        rw [seen] at seen'
        refine (List.cons.inj seen').1 ▸ ?_
        exact inv.file exit (recorded_other notSaved isRecorded) st found
  | other notSaved notLoaded file seen =>
      have notSaved' : saved? id (.call pid op answer) = none := notSaved
      have unchanged : upToDate id pid (.call pid op answer :: past) =
          upToDate id pid past :=
        upToDate_other pid notSaved' (by simp [loads, notLoaded])
      refine inv.of_call ready unused requires permitted (by simp [notSaved]) ?_ ?_
      · intro exit isRecorded st' found
        rcases file with same | ⟨_, gone⟩
        · exact inv.file exit (recorded_other notSaved' isRecorded) st'
            (same ▸ found)
        · rw [gone] at found
          simp at found
      · intro exit isRecorded current st' rest seen'
        rcases seen with same | cleared
        · exact inv.held exit (recorded_other notSaved' isRecorded) pid _ ready
            (unchanged ▸ current) st' rest (same ▸ seen')
        · rw [cleared] at seen'
          simp at seen'

private theorem Inv.happen
    (inv : Inv id commands past c)
    {what : World.Happening}
    {world : World}
    (happened : World.happen c.world what = some world) :
    Inv id commands (.happen what :: past) { c with world } := by
  have states : world.state? id = World.state? c.world id := by
    rw [World.state?, World.happen_states happened]
    rfl
  have notSaved : saved? id (.happen what) = none := rfl
  have notRemoved : removes id (.happen what) = false := rfl
  refine ⟨exitKept_cons inv.kept (by simp [notSaved]) (by simp [notRemoved]),
    ?_, ?_, inv.launchers⟩
  · intro exit isRecorded st found
    exact inv.file exit (recorded_other notSaved isRecorded) st (states ▸ found)
  · intro exit isRecorded pid p running current
    have unchanged : upToDate id pid (.happen what :: past) =
        upToDate id pid past :=
      upToDate_other pid notSaved rfl
    exact inv.held exit (recorded_other notSaved isRecorded) pid p running
      (unchanged ▸ current)

private theorem Inv.kill
    (inv : Inv id commands past c)
    (pid : Pid) :
    Inv id commands (.kill pid :: past)
      (({ c with world := World.bury c.world pid } : runtime.Config).resume
        pid none) := by
  have notSaved : saved? id (.kill pid) = none := rfl
  have notRemoved : removes id (.kill pid) = false := rfl
  refine ⟨exitKept_cons inv.kept (by simp [notSaved]) (by simp [notRemoved]),
    ?_, ?_, inv.launchers⟩
  · intro exit isRecorded st found
    exact inv.file exit (recorded_other notSaved isRecorded) st found
  · intro exit isRecorded other p running current
    have unchanged : upToDate id other (.kill pid :: past) =
        upToDate id other past :=
      upToDate_other other notSaved rfl
    have before : c.process other = some p := by
      by_cases self : other = pid
      · subst self
        simp [System.Config.resume] at running
      · simpa [System.Config.resume, Function.update_of_ne self] using running
    exact inv.held exit (recorded_other notSaved isRecorded) other p before
      (unchanged ▸ current)

/-- In every run of any commands in which no process saves a record, or removes
it without being a `delete`, that it loaded before `wait_for_exit` recorded the
exit status, a recorded exit status is kept. -/
theorem exit_status_kept
    {world : World}
    (noCreate : ∀ pid st, commands pid ≠ some (.create st))
    (run : System.Run (fun past _ event => NoStaleAct id commands past event)
      (Command.launchpad world commands) past c) :
    ExitKept id commands past := by
  have disciplined : System.Disciplined (conduct id True) View.begun
      (View.first commands)
      (fun past _ event => NoStaleAct id commands past event)
      (Command.launchpad world commands) :=
    Command.disciplined noCreate
      (fun _ _ _ _ answer _ => faultFree_of_allowed answer) id
  suffices inv : Inv id commands past c from inv.kept
  refine run.invariant ?_ ?_
  · refine ⟨?_, ?_, ?_, ?_⟩
    · intro event earlier suffix
      simp at suffix
    · rintro exit ⟨event, member, _⟩
      simp at member
    · rintro exit ⟨event, member, _⟩
      simp at member
    · intro pid launched
      simp [commandViews, System.views, View.first] at launched
  · intro earlier before after event runBefore inv step permitted
    cases step with
    | @call pid op next answer world' ready answered unused =>
        exact inv.call ready answered unused
          (runBefore.requires disciplined (.call ready answered unused)) permitted
    | happen happened =>
        exact inv.happen happened
    | kill _ =>
        exact inv.kill _

end Runs

/-! ## A lost exit status -/

/-- A created container. -/
def webState : ContainerState :=
  { ContainerState.new 1 { id := "web" } with status := .created }

/-- Its shim, and a `kill`. -/
def shimAndKill : Pid → Option Command := fun pid =>
  if pid = 7 then some (.shim "web" 5)
  else if pid = 9 then some (.kill "web" 15 false)
  else none

/-- Its shim, and a `start --attach`. -/
def shimAndAttach : Pid → Option Command := fun pid =>
  if pid = 7 then some (.shim "web" 5)
  else if pid = 9 then some (.startAttached "web" 5)
  else none

/-- A host on which every fault point fires. -/
def faulty (self child : Pid) (w : World) : (op : Op) → Option (Ans op)
  | .host (.fault point) => some (.error (.container ("injected at " ++ point)))
  | op => w.usual self child op

section Schedule

variable [F64Ops]

/-- The shim launches the container and waits for its end. -/
def launchTurns : List (System.Turn runtime) :=
  List.replicate 13 (.go (7 : Pid) (World.sending .ready 7 8)) ++
  List.replicate 3 (.go (7 : Pid) (World.sending .started 7 8)) ++
  List.replicate 7 (.go (7 : Pid) (World.usual 7 8))

/-- Init ends, and the shim records its exit status. -/
def recordTurns : List (System.Turn runtime) :=
  .happen (.initDies 8) :: List.replicate 3 (.go (7 : Pid) (World.usual 7 8))

/-- `kill` has loaded the record before the exit status is recorded, and saves
it after. -/
def lostExitTurns : List (System.Turn runtime) :=
  launchTurns ++ List.replicate 5 (.go (9 : Pid) (World.usual 9 10)) ++
    recordTurns ++ [.go (9 : Pid) (World.usual 9 10)]

/-- `start --attach` has loaded the record before the shim launches, and fails
after the exit status is recorded. -/
def lostRecordTurns : List (System.Turn runtime) :=
  .go (9 : Pid) (World.usual 9 10) :: launchTurns ++ recordTurns ++
    List.replicate 7 (.go (9 : Pid) (faulty 9 10))

/-- The newest event lost a recorded exit status. -/
def losesExit (id : String) (commands : Pid → Option Command) :
    List runtime.Event → Bool
  | [] => false
  | event :: earlier =>
      earlier.any fun e => (recorded? id e).any fun exit =>
        (saved? id event).any (fun (_, st) =>
          st.status ≠ .stopped || st.exitStatus ≠ exit) ||
        removes id event && (actor event).any fun pid =>
          !(commandAt commands earlier pid).any (·.deletes id) &&
          !(held? id pid earlier).any (·.config.autoRemove)

private theorem not_exitKept_of_losesExit
    {id : String}
    {commands : Pid → Option Command}
    {past : List runtime.Event}
    (loses : losesExit id commands past = true) :
    ¬ ExitKept id commands past := by
  intro kept
  cases past with
  | nil =>
      simp [losesExit] at loses
  | cons event earlier =>
      simp only [losesExit, List.any_eq_true, Option.any_eq_true,
        Bool.or_eq_true, Bool.and_eq_true] at loses
      obtain ⟨e, member, exit, isExit, outcome⟩ := loses
      have keeps := kept event earlier List.suffix_rfl exit ⟨e, member, isExit⟩
      rcases outcome with ⟨⟨place, st⟩, isSaved, lost⟩ |
        ⟨gone, pid, isActor, notDelete, notAsked⟩
      · have records := keeps.1 place st isSaved
        simp [records.1, records.2] at lost
      · rcases keeps.2 gone pid isActor with isDelete | ⟨_, st, held, _, asks⟩
        · simp [isDelete] at notDelete
        · simp [held, asks] at notAsked

end Schedule

private theorem lost_of_play
    {commands : Pid → Option Command}
    (turns : List (System.Turn (@runtime unitOps)))
    (played : ((@Command.launchpad unitOps { states := [webState] }
      commands).play [] turns).any (fun outcome =>
        @losesExit unitOps "web" commands outcome.1) = true) :
    ∃ past c,
      @System.Run Op Ans (@runtime unitOps) (fun _ _ _ => True)
        (@Command.launchpad unitOps { states := [webState] } commands) past c ∧
      ¬ @ExitKept unitOps "web" commands past := by
  obtain ⟨⟨past, c⟩, isPlayed, loses⟩ := (Option.any_eq_true _ _).mp played
  exact ⟨past, c, System.Config.run_of_play_start isPlayed,
    @not_exitKept_of_losesExit unitOps _ _ _ loses⟩

/-- A `kill` with a stale record resurrects the container, and a `start --attach`
with one removes it. -/
theorem stale_acts_lose_exit :
    (∃ past c,
      @System.Run Op Ans (@runtime unitOps) (fun _ _ _ => True)
        (@Command.launchpad unitOps { states := [webState] } shimAndKill) past c ∧
      ¬ @ExitKept unitOps "web" shimAndKill past) ∧
    ∃ past c,
      @System.Run Op Ans (@runtime unitOps) (fun _ _ _ => True)
        (@Command.launchpad unitOps { states := [webState] } shimAndAttach) past c ∧
      ¬ @ExitKept unitOps "web" shimAndAttach past := by
  let _ := unitOps
  constructor
  · refine lost_of_play lostExitTurns ?_
    decide +kernel
  · refine lost_of_play lostRecordTurns ?_
    decide +kernel

section Schedule

variable [F64Ops]

/-- Nothing that a run did to the record was stale. -/
def staleFree (id : String) (commands : Pid → Option Command) :
    List runtime.Event → Bool
  | [] => true
  | event :: past =>
      ((actor event).all fun pid =>
        !((saved? id event).isSome ||
          removes id event &&
            !(commandAt commands past pid).any (·.deletes id)) ||
        upToDate id pid past) &&
      staleFree id commands past

private theorem noStaleAct_of_staleFree
    {id : String}
    {commands : Pid → Option Command}
    {past : List runtime.Event}
    (free : staleFree id commands past = true)
    {event : runtime.Event}
    {earlier : List runtime.Event}
    (suffix : event :: earlier <:+ past) :
    NoStaleAct id commands earlier event := by
  induction past with
  | nil =>
      simp at suffix
  | cons e rest inductionHypothesis =>
      simp only [staleFree, Bool.and_eq_true] at free
      rcases List.suffix_cons_iff.mp suffix with same | older
      · obtain ⟨rfl, rfl⟩ := List.cons.inj same
        intro pid isActor acts
        have current := (Option.all_eq_true _ _).mp free.1 pid isActor
        rcases acts with isSaved | ⟨gone, notDelete⟩
        · simpa [isSaved] using current
        · simpa [gone, notDelete] using current
      · exact inductionHypothesis free.2 older

end Schedule

/-- A container that asks to be removed at its end. -/
def passingState : ContainerState :=
  { webState with config := { webState.config with autoRemove := true } }

/-- A `kill` signals the container before its end; the shim records the exit
status, tears the container down and removes it. -/
theorem kill_then_shim_keeps_exit :
    ∃ past c,
      @System.Run Op Ans (@runtime unitOps)
        (fun past _ event => @NoStaleAct unitOps "web" shimAndKill past event)
        (@Command.launchpad unitOps { states := [passingState] } shimAndKill)
        past c ∧
      @Recorded unitOps "web" past { code := some 0, signal := none } ∧
      (∃ event ∈ past, @removes unitOps "web" event = true) ∧
      @ExitKept unitOps "web" shimAndKill past := by
  let _ := unitOps
  have played : ((Command.launchpad { states := [passingState] }
      shimAndKill).play []
      (launchTurns ++ List.replicate 7 (.go (9 : Pid) (World.usual 9 10)) ++
        recordTurns ++ List.replicate 6 (.go (7 : Pid) (World.usual 7 8)))).any
      (fun outcome => staleFree "web" shimAndKill outcome.1 &&
        (outcome.1.any fun event =>
          recorded? "web" event = some { code := some 0, signal := none }) &&
        outcome.1.any (removes "web")) =
      true := by
    decide +kernel
  obtain ⟨⟨past, c⟩, isPlayed, good⟩ := (Option.any_eq_true _ _).mp played
  simp only [Bool.and_eq_true, List.any_eq_true, decide_eq_true_eq] at good
  have run := (System.Config.run_of_play_start isPlayed).restrict
    (fun _ _ => noStaleAct_of_staleFree good.1.1)
  refine ⟨past, c, run, good.1.2, good.2, exit_status_kept ?_ run⟩
  intro pid st
  unfold shimAndKill
  split
  · simp
  · split <;> simp

end ExitRecord

end Myrun
