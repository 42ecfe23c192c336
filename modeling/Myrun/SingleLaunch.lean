import Myrun.LockCustody

namespace Myrun

/-!
# Launches of one container

`start` checks the status under the lock and keeps the lock until the shim has
reported; the shim launches.  `start --attach` checks the status and launches
without the lock.  Two launches are kept apart by the lock, and by the record,
which no longer says that the container was created once a launch is published.

So a container is launched at most once in every run in which no check finds it
created while another launch attempt is under way.
-/

namespace SingleLaunch

open Prog LockCustody

/-! ## One operation in the view of its process -/

section After

variable {id : String} {v : View} {k : Custody} {op : Op} {answer : Ans op}

private theorem custody_command :
    (k.after id op answer).command = k.command := by
  unfold Custody.after
  split
  · rfl
  · split <;> rfl
  · rfl

/-- A detached `start` leaves the launch to its shim. -/
theorem launches_not_start
    (launches : v.Launches id)
    {rounds : Nat}
    (isStart : v.command = .start id rounds) :
    False := by
  obtain ⟨_, isShim | isAttached⟩ := launches
  · rw [isShim] at isStart
    cases isStart
  · rw [isAttached] at isStart
    cases isStart

private theorem after_launched
    (launched : v.launched = true) :
    (v.after id op answer).launched = true := by
  cases op <;> (try cases answer) <;> simp only [View.after, View.note] <;>
    (try split) <;> first | exact launched | rfl

private theorem after_heard
    (notRead : ∀ shim, op ≠ .readNotify shim) :
    (v.after id op answer).heard = v.heard := by
  cases op with
  | readNotify shim => exact absurd rfl (notRead shim)
  | _ =>
      all_goals
        (try cases answer) <;> simp only [View.after, View.note] <;>
          (try split) <;> rfl

private theorem after_pending
    (notForked : ∀ i rounds, op ≠ .forkShim i rounds)
    (notRead : ∀ shim, op ≠ .readNotify shim) :
    (v.after id op answer).pending = v.pending := by
  cases op with
  | forkShim i rounds => exact absurd rfl (notForked i rounds)
  | readNotify shim => exact absurd rfl (notRead shim)
  | _ =>
      all_goals
        (try cases answer) <;> simp only [View.after, View.note] <;>
          (try split) <;> rfl

private theorem after_lock
    (notLocked : ∀ file, op ≠ .flock file)
    (notUnlocked : ∀ file, op ≠ .funlock file) :
    (v.after id op answer).lock = v.lock := by
  cases op with
  | flock file => exact absurd rfl (notLocked file)
  | funlock file => exact absurd rfl (notUnlocked file)
  | _ =>
      all_goals
        (try cases answer) <;> simp only [View.after, View.note] <;>
          (try split) <;> rfl

private theorem custody_opened
    (notOpened : ∀ i, op ≠ .openLock i) :
    (k.after id op answer).opened = k.opened := by
  unfold Custody.after
  split
  · exact absurd rfl (notOpened _)
  · split <;> rfl
  · rfl

private theorem custody_claimed
    (notSaved : ∀ st, op ≠ .writeState .shim st) :
    (k.after id op answer).claimed = k.claimed := by
  unfold Custody.after
  split
  · rfl
  · exact absurd rfl (notSaved _)
  · rfl

end After

/-! ## Runs of launch commands -/

section Runs

variable [F64Ops]

/-- What a process has done to the container. -/
abbrev viewOf (id : String) (commands : Pid → Option Command)
    (past : List runtime.Event) (pid : Pid) : View :=
  commandViews id True commands past pid

/-- What a process has done with lock files. -/
abbrev custodyOf (id : String) (commands : Pid → Option Command)
    (past : List runtime.Event) (pid : Pid) : Custody :=
  System.views (S := runtime) (keeping id) Custody.begun
    (Custody.first commands) past pid

/-- An event that passes the status check of `launch`. -/
def passes (id : String) : runtime.Event → Bool
  | .call _ (.launching i) _ => i = id
  | _ => false

/-- The process has passed the status check of `launch`. -/
def Passed (id : String) (past : List runtime.Event) (pid : Pid) : Prop :=
  .call pid (.launching id) () ∈ past

/-- The process can still pass the status check, or have a shim pass it: a shim,
a `start --attach` that has found the container created, or a `start` that has
found it created and holds the lock. -/
def MayLaunch (id : String) (v : View) : Prop :=
  (∃ rounds, v.command = .shim id rounds) ∨
    ((∃ rounds, v.command = .startAttached id rounds) ∨
      (∃ rounds, v.command = .start id rounds) ∧ v.lock.isSome) ∧
    Conduct.HoldsCreated v

/-- The process has something left to do. -/
def Running (c : runtime.Config) (pid : Pid) : Prop :=
  ∃ op next, c.process pid = some (.call op next)

/-- A launch attempt is under way, or was. -/
def UnderWay (id : String) (commands : Pid → Option Command)
    (past : List runtime.Event) (c : runtime.Config) (pid : Pid) : Prop :=
  Passed id past pid ∨
    Running c pid ∧ MayLaunch id (viewOf id commands past pid)

/-- No check of `start` or `start --attach` finds the container created while
the launch attempt of another process is under way.  Two `start`s are kept apart
by the lock. -/
def Apart (id : String) (commands : Pid → Option Command)
    (past : List runtime.Event) (c : runtime.Config)
    (event : runtime.Event) : Prop :=
  ∀ pid st, event = .call pid (.readState id) (.ok st) → st.status = .created →
    (∀ rounds, (viewOf id commands past pid).command ≠ .shim id rounds) →
    ∀ other, other ≠ pid → UnderWay id commands past c other →
      (∃ rounds, (viewOf id commands past pid).command = .start id rounds) ∧
      ∃ rounds, (viewOf id commands past other).command = .start id rounds

/-- The process was there at the start, or it was forked. -/
def Known (commands : Pid → Option Command) (past : List runtime.Event)
    (pid : Pid) : Prop :=
  commands pid ≠ none ∨
    ∃ parent id rounds, .call parent (.forkShim id rounds) (.ok pid) ∈ past

/-- A forked shim gets a pid that no process of the run has had. -/
def NewPid (commands : Pid → Option Command) (past : List runtime.Event)
    (event : runtime.Event) : Prop :=
  ∀ parent id rounds child,
    event = .call parent (.forkShim id rounds) (.ok child) →
      ¬ Known commands past child

/-- The record says that the container was created. -/
def Fresh (id : String) (w : World) : Prop :=
  ∃ st, w.state? id = some st ∧ st.status = .created

/-- What holds in every state of a run. -/
structure Inv (id : String) (incarnation : Nat)
    (commands : Pid → Option Command) (past : List runtime.Event)
    (c : runtime.Config) : Prop where
  unknown : ∀ (pid : Pid), ¬ Known commands past pid →
    c.process pid = none ∧ ¬ Passed id past pid ∧
      World.notices c.world pid = none
  command : ∀ pid, (custodyOf id commands past pid).command =
    (viewOf id commands past pid).command
  passed : ∀ pid, Passed id past pid →
    (viewOf id commands past pid).launched = true ∧
      (viewOf id commands past pid).Launches id
  pending : ∀ pid shim, (viewOf id commands past pid).pending = some shim →
    Known commands past shim ∧
    (∃ rounds, (viewOf id commands past pid).command = .start id rounds) ∧
    ∃ rounds, (viewOf id commands past shim).command = .shim id rounds
  lock : ∀ (pid : Pid) file, c.process pid ≠ none →
    (viewOf id commands past pid).lock = some file →
      file.id = id ∧ World.holder c.world file = some pid ∧
        (Fresh id c.world → file.incarnation = incarnation)
  opened : ∀ pid file, file ∈ (custodyOf id commands past pid).opened →
    file.id = id → Fresh id c.world → file.incarnation = incarnation
  incarnation : Fresh id c.world → World.incarnation c.world id = incarnation
  notices : ∀ pid rounds notice,
    (viewOf id commands past pid).command = .shim id rounds →
    World.notices c.world pid = some notice → notice.ok = true →
      ¬ Fresh id c.world
  claimed : ∀ pid, (custodyOf id commands past pid).claimed = true →
    ¬ Fresh id c.world
  heard : ∀ pid rounds, (viewOf id commands past pid).command = .start id rounds →
    (viewOf id commands past pid).heard = true →
      ¬ Fresh id c.world ∧ ¬ Conduct.HoldsCreated (viewOf id commands past pid)
  exclusive : ∀ p q, UnderWay id commands past c p → UnderWay id commands past c q →
    p = q ∨ (viewOf id commands past p).pending = some q ∨
      (viewOf id commands past q).pending = some p
  once : (past.filter (passes id)).length ≤ 1

variable {id : String} {incarnation : Nat} {commands : Pid → Option Command}
  {past : List runtime.Event} {c : runtime.Config}

private theorem Known.mono
    {event : runtime.Event}
    {pid : Pid}
    (known : Known commands past pid) :
    Known commands (event :: past) pid := by
  rcases known with atStart | ⟨parent, i, rounds, forked⟩
  · exact .inl atStart
  · exact .inr ⟨parent, i, rounds, List.mem_cons_of_mem _ forked⟩

private theorem Passed.of_call
    {actor pid : Pid}
    {op : Op}
    {answer : Ans op}
    (passed : Passed id (.call actor op answer :: past) pid) :
    (pid = actor ∧ op = .launching id) ∨ Passed id past pid := by
  rcases List.mem_cons.mp passed with now | before
  · cases now
    exact .inl ⟨rfl, rfl⟩
  · exact .inr before

private theorem Inv.known
    (inv : Inv id incarnation commands past c)
    {pid : Pid}
    {p : Prog Op Ans (Result Unit)}
    (running : c.process pid = some p) :
    Known commands past pid := by
  by_contra unknown
  have absent := (inv.unknown pid unknown).1
  rw [absent] at running
  cases running

/-- A record of the container that is saved does not say that it was created. -/
theorem Inv.saved
    (inv : Inv id incarnation commands past c)
    {pid : Pid}
    {place : SavePoint}
    {st : ContainerState}
    (required : View.requires id True (viewOf id commands past pid)
      (.writeState place st))
    (owned : Custody.requires id (custodyOf id commands past pid)
      (.writeState place st))
    (here : st.id = id) :
    st.status ≠ .created := by
  obtain ⟨old, rest, seen, saves⟩ := required here
  have notCreated : st.status = .running ∨ st.status.isLive = true ∨
      st.status = .stopped → st.status ≠ .created := by
    rintro (running | live | stopped) created
    · simp [created] at running
    · simp [created, Status.isLive] at live
    · simp [created] at stopped
  cases place with
  | storeCreate => exact saves.elim
  | create => exact saves.elim
  | reconcile =>
      obtain ⟨_, _, now, rfl⟩ := saves
      exact notCreated (.inr (.inr (by simp [ContainerState.markGone])))
  | kill => exact notCreated (.inr (.inl saves.2.1))
  | stop => exact notCreated (.inr (.inl saves.2.1))
  | pause => exact notCreated (.inr (.inl saves.2.1))
  | unpause => exact notCreated (.inr (.inl saves.2.1))
  | launch => exact notCreated (.inl saves.2.2.1)
  | launchFailed => exact notCreated (.inr (.inr saves.1))
  | waitForExit => exact notCreated (.inr (.inr saves.2.2.2.1))
  | teardown => exact owned here
  | shim =>
      obtain ⟨_, _, running, shim, rfl⟩ := saves
      exact notCreated (.inl running)
  | start =>
      obtain ⟨heard, shim, rfl⟩ := saves
      obtain ⟨rounds, isStart⟩ := owned here
      rw [inv.command pid] at isStart
      intro created
      exact (inv.heard pid rounds isStart heard).2 ⟨old, rest, seen, created⟩

section Views

variable {pid other : Pid} {op : Op} {answer : Ans op}
  (noStart : runtime.starts op answer = none)

include noStart

private theorem view_self :
    viewOf id commands (.call pid op answer :: past) pid =
      (viewOf id commands past pid).after id op answer :=
  System.views_call_self fun p => by simp [noStart]

private theorem view_other
    (different : other ≠ pid) :
    viewOf id commands (.call pid op answer :: past) other =
      viewOf id commands past other :=
  System.views_call_other (S := runtime) different fun p => by simp [noStart]

private theorem custody_self :
    custodyOf id commands (.call pid op answer :: past) pid =
      (custodyOf id commands past pid).after id op answer :=
  System.views_call_self fun p => by simp [noStart]

private theorem custody_other
    (different : other ≠ pid) :
    custodyOf id commands (.call pid op answer :: past) other =
      custodyOf id commands past other :=
  System.views_call_other (S := runtime) different fun p => by simp [noStart]

/-- What a process is does not change. -/
theorem view_command :
    (viewOf id commands (.call pid op answer :: past) other).command =
      (viewOf id commands past other).command := by
  by_cases self : other = pid
  · subst self
    rw [view_self noStart, View.after_command]
  · rw [view_other noStart self]

end Views

section Call

variable (inv : Inv id incarnation commands past c) {pid : Pid} {op : Op}
  {next : Ans op → Prog Op Ans (Result Unit)} {answer : Ans op} {world : World}
  (ready : c.process pid = some (.call op next))
  (answered : World.answer c.world pid op answer = some world)
  (required : View.requires id True (viewOf id commands past pid) op)
  (owned : Custody.requires id (custodyOf id commands past pid) op)

include inv answered required owned in
/-- A record that once said otherwise does not become a created one again. -/
theorem Inv.fresh_before
    (fresh : Fresh id world) :
    Fresh id c.world := by
  obtain ⟨st, found, created⟩ := fresh
  cases World.stateChange_of_answer answered id with
  | none same => exact ⟨st, same ▸ found, created⟩
  | written here now =>
      rw [now] at found
      obtain rfl := Option.some.inj found
      exact (inv.saved required owned here created).elim
  | removed gone =>
      rw [gone] at found
      cases found

section Plain

variable (noStart : runtime.starts op answer = none)

include inv ready answered in
private theorem Inv.call_unknown
    {other : Pid}
    (unknown : ¬ Known commands (.call pid op answer :: past) other) :
    (({ c with world } : runtime.Config).resume pid
        (some (next answer))).process other = none ∧
      ¬ Passed id (.call pid op answer :: past) other ∧
      world.notices other = none := by
  have unknownBefore : ¬ Known commands past other := fun known =>
    unknown known.mono
  obtain ⟨absent, notPassed, silent⟩ := inv.unknown other unknownBefore
  have different : other ≠ pid := by
    rintro rfl
    exact unknownBefore (inv.known ready)
  refine ⟨?_, ?_, ?_⟩
  · exact (Function.update_of_ne different _ _).trans absent
  · intro passed
    rcases passed.of_call with ⟨same, _⟩ | before
    · exact different same
    · exact notPassed before
  · cases World.storeChange_of_answer answered with
    | notified _ _ notices =>
        rw [notices, Function.update_of_ne different]
        exact silent
    | locked _ _ _ notices => exact notices ▸ silent
    | unlocked _ _ notices => exact notices ▸ silent
    | removed _ _ notices => exact notices ▸ silent
    | none _ _ notices => exact notices ▸ silent

include inv noStart in
private theorem Inv.call_command
    (other : Pid) :
    (custodyOf id commands (.call pid op answer :: past) other).command =
      (viewOf id commands (.call pid op answer :: past) other).command := by
  by_cases self : other = pid
  · subst self
    rw [custody_self noStart, view_self noStart, custody_command,
      View.after_command]
    exact inv.command other
  · rw [custody_other noStart self, view_other noStart self]
    exact inv.command other

include inv required noStart in
private theorem Inv.call_passed
    {other : Pid}
    (passed : Passed id (.call pid op answer :: past) other) :
    (viewOf id commands (.call pid op answer :: past) other).launched = true ∧
      (viewOf id commands (.call pid op answer :: past) other).Launches id := by
  have launches : ∀ v : View, v.Launches id → ∀ v' : View,
      v'.command = v.command → v'.Launches id := by
    rintro v ⟨rounds, isLaunch⟩ v' same
    exact ⟨rounds, same ▸ isLaunch⟩
  by_cases self : other = pid
  · subst self
    rw [view_self noStart]
    rcases passed.of_call with ⟨_, rfl⟩ | before
    · exact ⟨by simp [View.after],
        launches _ (required rfl).1 _ View.after_command⟩
    · obtain ⟨launched, isLaunch⟩ := inv.passed other before
      exact ⟨after_launched launched,
        launches _ isLaunch _ View.after_command⟩
  · rw [view_other noStart self]
    rcases passed.of_call with ⟨same, _⟩ | before
    · exact (self same).elim
    · exact inv.passed other before

include noStart in
private theorem pending_before
    {other shim : Pid}
    (pending : (viewOf id commands (.call pid op answer :: past) other).pending =
      some shim) :
    (viewOf id commands past other).pending = some shim := by
  by_cases self : other = pid
  · subst self
    rw [view_self noStart] at pending
    cases op with
    | readNotify s => cases answer <;> cases pending
    | forkShim i rounds =>
        cases answer with
        | error e => exact pending
        | ok child => simp [runtime] at noStart
    | _ =>
        rw [after_pending (by simp) (by simp)] at pending
        exact pending
  · rw [view_other noStart self] at pending
    exact pending

include inv noStart in
private theorem Inv.call_pending
    {other shim : Pid}
    (pending : (viewOf id commands (.call pid op answer :: past) other).pending =
      some shim) :
    Known commands (.call pid op answer :: past) shim ∧
    (∃ rounds, (viewOf id commands (.call pid op answer :: past) other).command =
      .start id rounds) ∧
    ∃ rounds, (viewOf id commands (.call pid op answer :: past) shim).command =
      .shim id rounds := by
  obtain ⟨known, isStart, isShim⟩ :=
    inv.pending other shim (pending_before noStart pending)
  rw [view_command noStart, view_command noStart]
  exact ⟨known.mono, isStart, isShim⟩

include inv ready answered required owned noStart in
private theorem Inv.call_lock
    {other : Pid}
    {file : LockFile}
    (alive : (({ c with world } : runtime.Config).resume pid
      (some (next answer))).process other ≠ none)
    (locked : (viewOf id commands (.call pid op answer :: past) other).lock =
      some file) :
    file.id = id ∧ world.holder file = some other ∧
      (Fresh id world → file.incarnation = incarnation) := by
  have fresh := inv.fresh_before answered required owned
  have change := World.storeChange_of_answer answered
  by_cases self : other = pid
  · subst self
    rw [view_self noStart] at locked
    have before : ∀ file, (viewOf id commands past other).lock = some file →
        file.id = id ∧ World.holder c.world file = some other ∧
          (Fresh id world → file.incarnation = incarnation) := by
      intro file locked
      obtain ⟨here, held, known⟩ := inv.lock other file (by simp [ready]) locked
      exact ⟨here, held, fun now => known (fresh now)⟩
    have unchanged : ∀ file, world.holder = World.holder c.world →
        (viewOf id commands past other).lock = some file →
          file.id = id ∧ world.holder file = some other ∧
            (Fresh id world → file.incarnation = incarnation) :=
      fun file same locked => same ▸ before file locked
    cases op with
    | flock taken =>
        cases answer with
        | error e =>
            obtain rfl := Option.some.inj answered
            exact unchanged file rfl locked
        | ok u =>
            simp only [World.answer] at answered
            split at answered
            · obtain rfl := Option.some.inj answered
              by_cases mine : taken.id = id
              · obtain rfl : taken = file := by
                  simpa [View.after, mine] using locked
                exact ⟨mine, Function.update_self _ _ _, fun now =>
                  inv.opened other taken owned mine (fresh now)⟩
              · obtain ⟨here, held, known⟩ :=
                  before file (by simpa [View.after, mine] using locked)
                have different : file ≠ taken := by
                  rintro rfl
                  exact mine here
                exact ⟨here, (Function.update_of_ne different _ _).trans held, known⟩
            · simp at answered
    | funlock given =>
        by_cases mine : given.id = id
        · simp [View.after, mine] at locked
        · obtain ⟨here, held, known⟩ :=
            before file (by simpa [View.after, mine] using locked)
          have different : file ≠ given := by
            rintro rfl
            exact mine here
          refine ⟨here, ?_, known⟩
          simp only [World.answer] at answered
          split at answered
          · obtain rfl := Option.some.inj answered
            exact (Function.update_of_ne different _ _).trans held
          · obtain rfl := Option.some.inj answered
            exact held
    | _ =>
        rw [after_lock (by simp) (by simp)] at locked
        cases change <;>
          exact unchanged file ‹world.holder = World.holder c.world› locked
  · rw [view_other noStart self] at locked
    have aliveBefore : c.process other ≠ none := by
      rwa [← Function.update_of_ne self (some (next answer)) c.process]
    obtain ⟨here, held, known⟩ := inv.lock other file aliveBefore locked
    refine ⟨here, ?_, fun now => known (fresh now)⟩
    cases change with
    | locked free holder =>
        rw [holder, Function.update_of_ne]
        · exact held
        · rintro rfl
          simp [held] at free
    | unlocked holder =>
        rw [holder]
        split
        · rename_i own
          rw [Function.update_of_ne]
          · exact held
          · rintro rfl
            rw [held] at own
            exact self (Option.some.inj own)
        · exact held
    | removed holder => exact holder ▸ held
    | notified holder => exact holder ▸ held
    | none holder => exact holder ▸ held

include inv answered required owned in
private theorem Inv.call_incarnation
    (fresh : Fresh id world) :
    world.incarnation id = incarnation := by
  have before := inv.incarnation (inv.fresh_before answered required owned fresh)
  cases World.storeChange_of_answer answered with
  | @removed i _ same _ =>
      by_cases here : i = id
      · subst here
        obtain ⟨st, found, _⟩ := fresh
        obtain rfl := Option.some.inj answered
        have gone := World.state?_dropState_same c.world i
        rw [World.state?] at found gone
        rw [gone] at found
        cases found
      · rw [same, Function.update_of_ne (Ne.symm here)]
        exact before
  | locked _ _ same _ => exact same ▸ before
  | unlocked _ same _ => exact same ▸ before
  | notified _ same _ => exact same ▸ before
  | none _ same _ => exact same ▸ before

include inv answered required owned noStart in
private theorem Inv.call_opened
    {other : Pid}
    {file : LockFile}
    (opened : file ∈
      (custodyOf id commands (.call pid op answer :: past) other).opened)
    (here : file.id = id)
    (fresh : Fresh id world) :
    file.incarnation = incarnation := by
  have freshBefore := inv.fresh_before answered required owned fresh
  by_cases self : other = pid
  · subst self
    rw [custody_self noStart] at opened
    cases op with
    | openLock i =>
        cases answer with
        | error e => exact inv.opened other file opened here freshBefore
        | ok new =>
            rcases List.mem_cons.mp opened with rfl | older
            · obtain ⟨isNew, _⟩ := World.provided_eq_some.mp answered
              rw [isNew] at here ⊢
              obtain rfl : i = id := here
              exact inv.incarnation freshBefore
            · exact inv.opened other file older here freshBefore
    | _ =>
        rw [custody_opened (by simp)] at opened
        exact inv.opened other file opened here freshBefore
  · rw [custody_other noStart self] at opened
    exact inv.opened other file opened here freshBefore

include inv answered required owned noStart in
private theorem Inv.call_claimed
    {other : Pid}
    (claimed : (custodyOf id commands (.call pid op answer :: past) other).claimed =
      true) :
    ¬ Fresh id world := by
  have fresh := inv.fresh_before answered required owned
  by_cases self : other = pid
  · subst self
    rw [custody_self noStart] at claimed
    by_cases saves : ∃ st, op = .writeState .shim st
    · obtain ⟨st, rfl⟩ := saves
      cases answer with
      | error e => exact fun now => inv.claimed other claimed (fresh now)
      | ok u =>
          by_cases here : st.id = id
          · have notCreated := inv.saved required owned here
            obtain rfl := Option.some.inj answered
            rintro ⟨st', found, created⟩
            have written := World.state?_putState_same c.world st
            rw [here] at written
            obtain rfl := Option.some.inj (written.symm.trans found)
            exact notCreated created
          · refine fun now => inv.claimed other ?_ (fresh now)
            simpa [Custody.after, here] using claimed
    · rw [custody_claimed fun st same => saves ⟨st, same⟩] at claimed
      exact fun now => inv.claimed other claimed (fresh now)
  · rw [custody_other noStart self] at claimed
    exact fun now => inv.claimed other claimed (fresh now)

include inv answered required owned noStart in
private theorem Inv.call_notices
    {other : Pid}
    {rounds : Nat}
    {notice : Notice}
    (isShim : (viewOf id commands (.call pid op answer :: past) other).command =
      .shim id rounds)
    (noticed : world.notices other = some notice)
    (fine : notice.ok = true) :
    ¬ Fresh id world := by
  have fresh := inv.fresh_before answered required owned
  rw [view_command noStart] at isShim
  have older : World.notices c.world other = some notice → ¬ Fresh id world :=
    fun before now => inv.notices other rounds notice isShim before fine (fresh now)
  cases World.storeChange_of_answer answered with
  | @notified new _ _ same =>
      by_cases self : other = pid
      · subst self
        rw [same, Function.update_self] at noticed
        obtain rfl := Option.some.inj noticed
        have claimed := owned fine ⟨rounds, (inv.command other).trans isShim⟩
        exact fun now => inv.claimed other claimed (fresh now)
      · rw [same, Function.update_of_ne self] at noticed
        exact older noticed
  | locked _ _ _ same => exact older (same ▸ noticed)
  | unlocked _ _ same => exact older (same ▸ noticed)
  | removed _ _ same => exact older (same ▸ noticed)
  | none _ _ same => exact older (same ▸ noticed)

include inv answered required owned noStart in
private theorem Inv.call_heard
    {other : Pid}
    {rounds : Nat}
    (isStart : (viewOf id commands (.call pid op answer :: past) other).command =
      .start id rounds)
    (heard : (viewOf id commands (.call pid op answer :: past) other).heard =
      true) :
    ¬ Fresh id world ∧ ¬ Conduct.HoldsCreated
      (viewOf id commands (.call pid op answer :: past) other) := by
  have fresh := inv.fresh_before answered required owned
  rw [view_command noStart] at isStart
  by_cases self : other = pid
  · subst self
    rw [view_self noStart] at heard ⊢
    by_cases reads : ∃ shim, op = .readNotify shim
    · obtain ⟨shim, rfl⟩ := reads
      cases answer with
      | notice n =>
          have silent : World.notices c.world shim = some n :=
            (World.provided_eq_some.mp answered).1
          have pending := required ⟨rounds, isStart⟩
          obtain ⟨_, _, shimRounds, isShim⟩ := inv.pending other shim pending
          refine ⟨fun now => inv.notices shim shimRounds n isShim silent heard
            (fresh now), ?_⟩
          rintro ⟨st, rest, seen, _⟩
          cases seen
      | failed e => cases heard
      | closed => cases heard
    · rw [after_heard fun shim same => reads ⟨shim, same⟩] at heard
      obtain ⟨settled, notCreated⟩ := inv.heard other rounds isStart heard
      refine ⟨fun now => settled (fresh now), ?_⟩
      rintro ⟨st, rest, seen, created⟩
      cases recordEffect_of_answer answered id (viewOf id commands past other) with
      | @wrote place st' here _ now =>
          rw [now] at seen
          obtain ⟨rfl, _⟩ := List.cons.inj seen
          exact inv.saved required owned here created
      | @failedToWrite place st' e here _ now =>
          rw [now] at seen
          obtain ⟨rfl, _⟩ := List.cons.inj seen
          exact inv.saved required owned here created
      | @read st' _ found now =>
          rw [now] at seen
          obtain ⟨rfl, _⟩ := List.cons.inj seen
          exact settled ⟨_, found, created⟩
      | other _ _ _ same =>
          rcases same with same | cleared
          · exact notCreated ⟨st, rest, same ▸ seen, created⟩
          · rw [cleared] at seen
            cases seen
  · rw [view_other noStart self] at heard ⊢
    obtain ⟨settled, notCreated⟩ := inv.heard other rounds isStart heard
    exact ⟨fun now => settled (fresh now), notCreated⟩

/-- The operation finds the container created, and it is not a shim's. -/
def Finds (id : String) (v : View) (op : Op) (answer : Ans op) : Prop :=
  ∃ st, (⟨op, answer⟩ : (op : Op) × Ans op) = ⟨.readState id, .ok st⟩ ∧
    st.status = .created ∧ ∀ rounds, v.command ≠ .shim id rounds

private theorem Finds.apart
    {other : Pid}
    (finds : Finds id (viewOf id commands past pid) op answer)
    (permitted : Apart id commands past c (.call pid op answer))
    (different : other ≠ pid)
    (underWay : UnderWay id commands past c other) :
    (∃ rounds, (viewOf id commands past pid).command = .start id rounds) ∧
      ∃ rounds, (viewOf id commands past other).command = .start id rounds := by
  obtain ⟨st, same, created, notShim⟩ := finds
  cases same
  exact permitted pid st rfl created notShim other different underWay

include inv answered required owned in
/-- An attempt that was not under way begins when the container is found
created. -/
theorem Inv.mayLaunch_before
    (may : MayLaunch id
      ((viewOf id commands past pid).after id op answer)) :
    MayLaunch id (viewOf id commands past pid) ∨
      Finds id (viewOf id commands past pid) op answer := by
  rw [MayLaunch, View.after_command] at may
  rcases may with isShim | ⟨role, st, rest, seen, created⟩
  · exact .inl (.inl isShim)
  have notShim : ∀ rounds,
      (viewOf id commands past pid).command ≠ .shim id rounds := by
    intro rounds isShim
    rcases role with ⟨_, isAttached⟩ | ⟨⟨_, isStart⟩, _⟩
    · rw [isShim] at isAttached
      cases isAttached
    · rw [isShim] at isStart
      cases isStart
  cases recordEffect_of_answer answered id (viewOf id commands past pid) with
  | wrote here _ now =>
      rw [now] at seen
      obtain ⟨rfl, _⟩ := List.cons.inj seen
      exact (inv.saved required owned here created).elim
  | failedToWrite here _ now =>
      rw [now] at seen
      obtain ⟨rfl, _⟩ := List.cons.inj seen
      exact (inv.saved required owned here created).elim
  | read _ _ now =>
      rw [now] at seen
      obtain ⟨rfl, _⟩ := List.cons.inj seen
      exact .inr ⟨_, rfl, created, notShim⟩
  | other _ _ _ same =>
      rcases same with same | cleared
      · rw [same] at seen
        refine .inl (.inr ⟨?_, st, rest, seen, created⟩)
        refine role.imp_right fun ⟨isStart, locked⟩ => ⟨isStart, ?_⟩
        cases op with
        | flock file =>
            by_cases mine : file.id = id
            · have unseen := required mine isStart
              rw [unseen] at seen
              cases seen
            · cases answer with
              | error e => exact locked
              | ok u => simpa [View.after, mine] using locked
        | funlock file =>
            by_cases mine : file.id = id
            · simp [View.after, mine] at locked
            · simpa [View.after, mine] using locked
        | _ =>
            rw [after_lock (by simp) (by simp)] at locked
            exact locked
      · rw [cleared] at seen
        cases seen

include inv ready answered required owned noStart in
private theorem Inv.underWay_before
    {other : Pid}
    (underWay : UnderWay id commands (.call pid op answer :: past)
      (({ c with world } : runtime.Config).resume pid (some (next answer)))
        other) :
    UnderWay id commands past c other ∨
      other = pid ∧ Finds id (viewOf id commands past pid) op answer ∧
        MayLaunch id ((viewOf id commands past pid).after id op answer) := by
  by_cases self : other = pid
  · subst self
    rcases underWay with passed | ⟨_, may⟩
    · rcases passed.of_call with ⟨_, rfl⟩ | before
      · obtain ⟨⟨rounds, role⟩, _, st, rest, seen, created⟩ := required rfl
        refine .inl (.inr ⟨⟨_, _, ready⟩, ?_⟩)
        rcases role with isShim | isAttached
        · exact .inl ⟨rounds, isShim⟩
        · exact .inr ⟨.inl ⟨rounds, isAttached⟩, st, rest, seen, created⟩
      · exact .inl (.inl before)
    · rw [view_self noStart] at may
      rcases inv.mayLaunch_before answered required owned may with before | finds
      · exact .inl (.inr ⟨⟨_, _, ready⟩, before⟩)
      · exact .inr ⟨rfl, finds, may⟩
  · refine .inl ?_
    rcases underWay with passed | ⟨⟨o, n, running⟩, may⟩
    · rcases passed.of_call with ⟨same, _⟩ | before
      · exact (self same).elim
      · exact .inl before
    · rw [view_other noStart self] at may
      exact .inr ⟨⟨o, n, (Function.update_of_ne self _ _).symm.trans running⟩, may⟩

include inv in
/-- A `start` whose attempt is under way holds the lock. -/
theorem Inv.start_holds
    {other : Pid}
    (underWay : UnderWay id commands past c other)
    {rounds : Nat}
    (isStart : (viewOf id commands past other).command = .start id rounds) :
    c.process other ≠ none ∧
      ∃ file, (viewOf id commands past other).lock = some file := by
  rcases underWay with passed | ⟨⟨o, n, running⟩, may⟩
  · exact (launches_not_start (inv.passed other passed).2 isStart).elim
  · refine ⟨by simp [running], Option.isSome_iff_exists.mp ?_⟩
    rcases may with ⟨_, isShim⟩ | ⟨⟨_, isAttached⟩ | ⟨_, locked⟩, _⟩
    · rw [isShim] at isStart
      cases isStart
    · rw [isAttached] at isStart
      cases isStart
    · exact locked

include inv ready in
/-- The lock keeps the checks of two `start`s apart. -/
theorem Inv.finds_alone
    {other : Pid}
    (finds : Finds id (viewOf id commands past pid) op answer)
    (may : MayLaunch id ((viewOf id commands past pid).after id op answer))
    (answered : World.answer c.world pid op answer = some world)
    (permitted : Apart id commands past c (.call pid op answer))
    (underWay : UnderWay id commands past c other) :
    other = pid := by
  by_contra different
  obtain ⟨⟨_, isStart⟩, _, alsoStart⟩ := finds.apart permitted different underWay
  obtain ⟨alive, file, locked⟩ := inv.start_holds underWay alsoStart
  obtain ⟨st, same, created, notShim⟩ := finds
  cases same
  have fresh : Fresh id c.world :=
    ⟨st, (World.provided_eq_some.mp answered).1, created⟩
  have ownLock : ∃ file, (viewOf id commands past pid).lock = some file := by
    rw [MayLaunch, View.after_command, after_lock (by simp) (by simp),
      isStart] at may
    rcases may with ⟨_, isShim⟩ | ⟨⟨_, isAttached⟩ | ⟨_, locked⟩, _⟩
    · cases isShim
    · cases isAttached
    · exact Option.isSome_iff_exists.mp locked
  obtain ⟨own, ownLocked⟩ := ownLock
  obtain ⟨hereOther, heldOther, sameOther⟩ := inv.lock other file alive locked
  obtain ⟨hereOwn, heldOwn, sameOwn⟩ :=
    inv.lock pid own (by simp [ready]) ownLocked
  have sameFile : file = own := by
    cases file
    cases own
    simp only at hereOther hereOwn
    rw [hereOther, hereOwn]
    congr 1
    exact (sameOther fresh).trans (sameOwn fresh).symm
  rw [sameFile] at heldOther
  exact different (Option.some.inj (heldOther.symm.trans heldOwn))

include inv required noStart in
/-- A `start` waits for its shim until it has heard of it. -/
theorem Inv.pending_after
    {other shim : Pid}
    (pending : (viewOf id commands past other).pending = some shim)
    (underWay : UnderWay id commands (.call pid op answer :: past)
      (({ c with world } : runtime.Config).resume pid (some (next answer)))
        other) :
    (viewOf id commands (.call pid op answer :: past) other).pending =
      some shim := by
  by_cases self : other = pid
  · subst self
    rw [view_self noStart]
    by_cases reads : ∃ shim, op = .readNotify shim
    · exfalso
      obtain ⟨read, rfl⟩ := reads
      obtain ⟨_, ⟨rounds, isStart⟩, _⟩ := inv.pending other shim pending
      rcases underWay with passed | ⟨_, may⟩
      · rcases passed.of_call with ⟨_, never⟩ | before
        · cases never
        · exact launches_not_start (inv.passed other before).2 isStart
      · rw [view_self noStart, MayLaunch, View.after_command, isStart] at may
        rcases may with ⟨_, isShim⟩ | ⟨_, st, rest, seen, _⟩
        · cases isShim
        · cases answer <;> cases seen
    · by_cases forks : ∃ i rounds, op = .forkShim i rounds
      · obtain ⟨i, rounds, rfl⟩ := forks
        cases answer with
        | error e => exact pending
        | ok child => simp [runtime] at noStart
      · rw [after_pending (fun i rounds same => forks ⟨i, rounds, same⟩)
          fun shim same => reads ⟨shim, same⟩]
        exact pending
  · rw [view_other noStart self]
    exact pending

include inv ready answered required owned noStart in
private theorem Inv.call_exclusive
    (permitted : Apart id commands past c (.call pid op answer))
    {p q : Pid}
    (first : UnderWay id commands (.call pid op answer :: past)
      (({ c with world } : runtime.Config).resume pid (some (next answer))) p)
    (second : UnderWay id commands (.call pid op answer :: past)
      (({ c with world } : runtime.Config).resume pid (some (next answer))) q) :
    p = q ∨
      (viewOf id commands (.call pid op answer :: past) p).pending = some q ∨
      (viewOf id commands (.call pid op answer :: past) q).pending = some p := by
  rcases inv.underWay_before ready answered required owned noStart first with
    firstBefore | ⟨rfl, finds, may⟩
  · rcases inv.underWay_before ready answered required owned noStart second with
      secondBefore | ⟨rfl, finds, may⟩
    · rcases inv.exclusive p q firstBefore secondBefore with same | waits | waits
      · exact .inl same
      · exact .inr (.inl (inv.pending_after required noStart waits first))
      · exact .inr (.inr (inv.pending_after required noStart waits second))
    · exact .inl (inv.finds_alone ready finds may answered permitted firstBefore)
  · rcases inv.underWay_before ready answered required owned noStart second with
      secondBefore | ⟨rfl, _, _⟩
    · exact .inl
        (inv.finds_alone ready finds may answered permitted secondBefore).symm
    · exact .inl rfl

include inv ready required in
private theorem Inv.call_once :
    ((.call pid op answer :: past : List runtime.Event).filter
      (passes id)).length ≤ 1 := by
  by_cases passing : op = .launching id
  · subst passing
    obtain ⟨launches, notLaunched, st, rest, seen, created⟩ := required rfl
    have own : UnderWay id commands past c pid := by
      refine .inr ⟨⟨_, _, ready⟩, ?_⟩
      obtain ⟨rounds, isShim | isAttached⟩ := launches
      · exact .inl ⟨rounds, isShim⟩
      · exact .inr ⟨.inl ⟨rounds, isAttached⟩, st, rest, seen, created⟩
    have none : past.filter (passes id) = [] := by
      rw [List.filter_eq_nil_iff]
      intro event member isPassing
      obtain ⟨q, passed⟩ : ∃ q, Passed id past q := by
        unfold passes at isPassing
        split at isPassing
        · rename_i q i u
          obtain rfl : i = id := by simpa using isPassing
          exact ⟨q, member⟩
        · simp at isPassing
      obtain ⟨launched, alsoLaunches⟩ := inv.passed q passed
      rcases inv.exclusive q pid (.inl passed) own with rfl | waits | waits
      · rw [notLaunched] at launched
        cases launched
      · obtain ⟨_, ⟨_, isStart⟩, _⟩ := inv.pending q pid waits
        exact launches_not_start alsoLaunches isStart
      · obtain ⟨_, ⟨_, isStart⟩, _⟩ := inv.pending pid q waits
        exact launches_not_start launches isStart
    simp [passes, none]
  · have other : passes id (.call pid op answer) = false := by
      unfold passes
      split
      · rename_i same
        cases same
        exact decide_eq_false fun here => passing (by rw [here])
      · rfl
    rw [List.filter_cons_of_neg (by simp [other])]
    exact inv.once

end Plain

end Call

section Fork

variable {pid child other : Pid} {i : String} {rounds : Nat}

private theorem fork_view_child :
    viewOf id commands (.call pid (.forkShim i rounds) (.ok child) :: past) child =
      { command := .shim i rounds } :=
  System.views_call_child (S := runtime) rfl

private theorem fork_custody_child :
    custodyOf id commands (.call pid (.forkShim i rounds) (.ok child) :: past)
      child = { command := .shim i rounds } :=
  System.views_call_child (S := runtime) rfl

/-- The parent waits for the shim it has forked; the others see nothing. -/
theorem fork_view
    (different : other ≠ child) :
    viewOf id commands (.call pid (.forkShim i rounds) (.ok child) :: past) other =
      { viewOf id commands past other with
        pending := if other = pid ∧ i = id then some child
          else (viewOf id commands past other).pending } := by
  have notStarted : ∀ p, runtime.starts (.forkShim i rounds) (.ok child) ≠
      some (other, p) := by
    intro p same
    obtain ⟨rfl, _⟩ := Prod.mk.inj (Option.some.inj same)
    exact different rfl
  by_cases self : other = pid
  · subst self
    refine (System.views_call_self notStarted).trans ?_
    change View.after id (viewOf id commands past other) (.forkShim i rounds)
      (.ok child) = _
    generalize viewOf id commands past other = v
    by_cases here : i = id
    · simp [View.after, here]
    · simp [View.after, here]
  · refine (System.views_call_other (S := runtime) self notStarted).trans ?_
    rw [if_neg fun both => self both.1]
    rfl

private theorem fork_custody
    (different : other ≠ child) :
    custodyOf id commands (.call pid (.forkShim i rounds) (.ok child) :: past)
      other = custodyOf id commands past other := by
  have notStarted : ∀ p, runtime.starts (.forkShim i rounds) (.ok child) ≠
      some (other, p) := by
    intro p same
    obtain ⟨rfl, _⟩ := Prod.mk.inj (Option.some.inj same)
    exact different rfl
  by_cases self : other = pid
  · subst self
    exact System.views_call_self notStarted
  · exact System.views_call_other (S := runtime) self notStarted

/-- The child has passed no check, whoever else has. -/
private theorem Inv.passed_before_fork
    (inv : Inv id incarnation commands past c)
    (unknown : ¬ Known commands past child)
    (passed : Passed id (.call pid (.forkShim i rounds) (.ok child) :: past)
      other) :
    Passed id past other ∧ other ≠ child := by
  obtain ⟨-, notPassed, -⟩ := inv.unknown child unknown
  rcases passed.of_call with ⟨_, never⟩ | before
  · cases never
  · refine ⟨before, ?_⟩
    rintro rfl
    exact notPassed before

/-- The processes that neither fork nor are forked. -/
private theorem fork_process
    {parent forked : Option (Proc (Result Unit))}
    (notChild : other ≠ child)
    (notPid : other ≠ pid) :
    ((c.resume pid parent).resume child forked).process other =
      c.process other :=
  (Function.update_of_ne notChild _ _).trans
    (Function.update_of_ne notPid _ _)

/-- The attempts under way are those from before and the shim of this
container. -/
private theorem Inv.underWay_before_fork
    (inv : Inv id incarnation commands past c)
    {next : Ans (.forkShim i rounds) → Prog Op Ans (Result Unit)}
    (ready : c.process pid = some (.call (.forkShim i rounds) next))
    (unknown : ¬ Known commands past child)
    (under : UnderWay id commands
      (.call pid (.forkShim i rounds) (.ok child) :: past)
      ((c.resume pid (some (next (.ok child)))).resume child
        (some (Command.shim i rounds).program.run)) other) :
    (other = child ∧ i = id) ∨
      (other ≠ child ∧ UnderWay id commands past c other) := by
  by_cases isChild : other = child
  · subst isChild
    rcases under with passed | ⟨_, may⟩
    · exact absurd rfl (inv.passed_before_fork unknown passed).2
    · rw [fork_view_child] at may
      rcases may with ⟨_, isShim⟩ | ⟨_, st, rest, seen, _⟩
      · exact .inl ⟨rfl, (Command.shim.inj isShim).1⟩
      · cases seen
  · refine .inr ⟨isChild, ?_⟩
    rcases under with passed | ⟨⟨o, n, running⟩, may⟩
    · exact .inl (inv.passed_before_fork unknown passed).1
    · rw [fork_view isChild] at may
      refine .inr ⟨?_, may⟩
      by_cases self : other = pid
      · subst self
        exact ⟨_, _, ready⟩
      · exact ⟨o, n, (fork_process isChild self).symm.trans running⟩

/-- The parent is the only attempt that was under way, and waits for the
child. -/
private theorem Inv.waits_after_fork
    (inv : Inv i incarnation commands past c)
    {next : Ans (.forkShim i rounds) → Prog Op Ans (Result Unit)}
    (ready : c.process pid = some (.call (.forkShim i rounds) next))
    (required : View.requires i True (viewOf i commands past pid)
      (.forkShim i rounds))
    (notChild : other ≠ child)
    (under : UnderWay i commands past c other) :
    (viewOf i commands (.call pid (.forkShim i rounds) (.ok child) :: past)
      other).pending = some child := by
  obtain ⟨isStart, locked, free, st, rest, seen, created⟩ := required rfl
  have own : UnderWay i commands past c pid :=
    .inr ⟨⟨_, _, ready⟩, .inr ⟨.inr ⟨isStart, locked⟩, st, rest, seen, created⟩⟩
  rcases inv.exclusive other pid under own with rfl | waits | waits
  · rw [fork_view notChild]
    simp
  · obtain ⟨_, _, _, isShim⟩ := inv.pending other pid waits
    obtain ⟨_, isStart⟩ := isStart
    rw [isShim] at isStart
    cases isStart
  · rw [free] at waits
    cases waits

/-- After the fork there is still one attempt, or one that waits for the
other. -/
private theorem Inv.exclusive_after_fork
    (inv : Inv id incarnation commands past c)
    {next : Ans (.forkShim i rounds) → Prog Op Ans (Result Unit)}
    (ready : c.process pid = some (.call (.forkShim i rounds) next))
    (required : View.requires id True (viewOf id commands past pid)
      (.forkShim i rounds))
    (unknown : ¬ Known commands past child)
    {p q : Pid}
    (first : UnderWay id commands
      (.call pid (.forkShim i rounds) (.ok child) :: past)
      ((c.resume pid (some (next (.ok child)))).resume child
        (some (Command.shim i rounds).program.run)) p)
    (second : UnderWay id commands
      (.call pid (.forkShim i rounds) (.ok child) :: past)
      ((c.resume pid (some (next (.ok child)))).resume child
        (some (Command.shim i rounds).program.run)) q) :
    p = q ∨
      (viewOf id commands (.call pid (.forkShim i rounds) (.ok child) :: past)
        p).pending = some q ∨
      (viewOf id commands (.call pid (.forkShim i rounds) (.ok child) :: past)
        q).pending = some p := by
  have waiting : ∀ {a b : Pid}, a ≠ child →
      (viewOf id commands past a).pending = some b →
        (viewOf id commands
          (.call pid (.forkShim i rounds) (.ok child) :: past) a).pending =
            some b := by
    intro a b notChild pending
    rw [fork_view notChild]
    by_cases mine : a = pid ∧ i = id
    · obtain ⟨rfl, rfl⟩ := mine
      rw [(required rfl).2.2.1] at pending
      cases pending
    · simp only [if_neg mine]
      exact pending
  rcases inv.underWay_before_fork ready unknown first with
    ⟨rfl, rfl⟩ | ⟨pNotChild, pUnder⟩
  · rcases inv.underWay_before_fork ready unknown second with
      ⟨rfl, _⟩ | ⟨qNotChild, qUnder⟩
    · exact .inl rfl
    · exact .inr (.inr (inv.waits_after_fork ready required qNotChild qUnder))
  · rcases inv.underWay_before_fork ready unknown second with
      ⟨rfl, rfl⟩ | ⟨qNotChild, qUnder⟩
    · exact .inr (.inl (inv.waits_after_fork ready required pNotChild pUnder))
    · rcases inv.exclusive p q pUnder qUnder with same | waits | waits
      · exact .inl same
      · exact .inr (.inl (waiting pNotChild waits))
      · exact .inr (.inr (waiting qNotChild waits))

/-- Forking a shim: it is the attempt of the `start` that waits for it. -/
theorem Inv.fork
    (inv : Inv id incarnation commands past c)
    {next : Ans (.forkShim i rounds) → Prog Op Ans (Result Unit)}
    (ready : c.process pid = some (.call (.forkShim i rounds) next))
    (required : View.requires id True (viewOf id commands past pid)
      (.forkShim i rounds))
    (unknown : ¬ Known commands past child) :
    Inv id incarnation commands
      (.call pid (.forkShim i rounds) (.ok child) :: past)
      ((c.resume pid (some (next (.ok child)))).resume child
        (some (Command.shim i rounds).program.run)) := by
  have apart : pid ≠ child := by
    rintro rfl
    exact unknown (inv.known ready)
  obtain ⟨-, -, silent⟩ := inv.unknown child unknown
  refine
    { unknown := ?_, command := ?_, passed := ?_, pending := ?_, lock := ?_
      opened := ?_, incarnation := inv.incarnation, notices := ?_, claimed := ?_
      heard := ?_, exclusive := ?_, once := ?_ }
  · intro q notKnown
    have notChild : q ≠ child := by
      rintro rfl
      exact notKnown (.inr ⟨pid, i, rounds, List.mem_cons_self⟩)
    have notKnownBefore : ¬ Known commands past q :=
      fun known => notKnown known.mono
    have notPid : q ≠ pid := by
      rintro rfl
      exact notKnownBefore (inv.known ready)
    obtain ⟨absent, notPassed, silent⟩ := inv.unknown q notKnownBefore
    exact ⟨(fork_process notChild notPid).trans absent, fun passed =>
      notPassed (inv.passed_before_fork unknown passed).1, silent⟩
  · intro q
    by_cases isChild : q = child
    · subst isChild
      rw [fork_view_child, fork_custody_child]
    · rw [fork_view isChild, fork_custody isChild]
      exact inv.command q
  · intro q passed
    obtain ⟨before, isChild⟩ := inv.passed_before_fork unknown passed
    rw [fork_view isChild]
    exact inv.passed q before
  · intro q shim pending
    by_cases isChild : q = child
    · subst isChild
      rw [fork_view_child] at pending
      cases pending
    · rw [fork_view isChild] at pending ⊢
      by_cases mine : q = pid ∧ i = id
      · obtain ⟨rfl, rfl⟩ := mine
        obtain rfl : child = shim := by simpa using pending
        refine ⟨.inr ⟨q, i, rounds, List.mem_cons_self⟩, (required rfl).1,
          rounds, ?_⟩
        rw [fork_view_child]
      · simp only [if_neg mine] at pending
        obtain ⟨known, isStart, isShim⟩ := inv.pending q shim pending
        have notChild : shim ≠ child := by
          rintro rfl
          exact unknown known
        refine ⟨known.mono, isStart, ?_⟩
        rw [fork_view notChild]
        exact isShim
  · intro q file alive locked
    by_cases isChild : q = child
    · subst isChild
      rw [fork_view_child] at locked
      cases locked
    · rw [fork_view isChild] at locked
      refine inv.lock q file ?_ locked
      by_cases self : q = pid
      · subst self
        simp [ready]
      · exact fun gone => alive ((fork_process isChild self).trans gone)
  · intro q file opened
    by_cases isChild : q = child
    · subst isChild
      rw [fork_custody_child] at opened
      cases opened
    · rw [fork_custody isChild] at opened
      exact inv.opened q file opened
  · intro q rounds' notice isShim noticed
    by_cases isChild : q = child
    · subst isChild
      cases silent.symm.trans noticed
    · rw [fork_view isChild] at isShim
      exact inv.notices q rounds' notice isShim noticed
  · intro q claimed
    by_cases isChild : q = child
    · subst isChild
      rw [fork_custody_child] at claimed
      cases claimed
    · rw [fork_custody isChild] at claimed
      exact inv.claimed q claimed
  · intro q rounds' isStart heard
    by_cases isChild : q = child
    · subst isChild
      rw [fork_view_child] at isStart
      cases isStart
    · rw [fork_view isChild] at isStart heard ⊢
      exact inv.heard q rounds' isStart heard
  · intro p q first second
    exact inv.exclusive_after_fork ready required unknown first second
  · rw [List.filter_cons_of_neg (by simp [passes])]
    exact inv.once

end Fork

/-- A change of the host on its own. -/
theorem Inv.happen
    (inv : Inv id incarnation commands past c)
    {what : World.Happening}
    {world : World}
    (happened : World.happen c.world what = some world) :
    Inv id incarnation commands (.happen what :: past) { c with world } := by
  obtain ⟨holder, incarnations, notices⟩ := World.happen_store happened
  have fresh : Fresh id world → Fresh id c.world := by
    rintro ⟨st, found, created⟩
    refine ⟨st, ?_, created⟩
    rw [← World.state?_congr (World.happen_states happened)]
    exact found
  have known : ∀ {q}, ¬ Known commands (.happen what :: past) q →
      ¬ Known commands past q :=
    fun notKnown known => notKnown known.mono
  have passed : ∀ {q}, Passed id (.happen what :: past) q → Passed id past q := by
    intro q passed
    rcases List.mem_cons.mp passed with now | before
    · cases now
    · exact before
  have underWay : ∀ {q}, UnderWay id commands (.happen what :: past)
      ({ c with world } : runtime.Config) q → UnderWay id commands past c q :=
    fun under => under.imp_left passed
  exact
    { unknown := fun q notKnown => ⟨(inv.unknown q (known notKnown)).1,
        fun now => (inv.unknown q (known notKnown)).2.1 (passed now),
        notices ▸ (inv.unknown q (known notKnown)).2.2⟩
      command := inv.command
      passed := fun q now => inv.passed q (passed now)
      pending := fun q shim pending =>
        ⟨(inv.pending q shim pending).1.mono, (inv.pending q shim pending).2⟩
      lock := fun q file alive locked =>
        ⟨(inv.lock q file alive locked).1, holder ▸ (inv.lock q file alive locked).2.1,
          fun now => (inv.lock q file alive locked).2.2 (fresh now)⟩
      opened := fun q file opened here now =>
        inv.opened q file opened here (fresh now)
      incarnation := fun now => incarnations ▸ inv.incarnation (fresh now)
      notices := fun q rounds notice isShim noticed fine now =>
        inv.notices q rounds notice isShim (notices ▸ noticed) fine (fresh now)
      claimed := fun q claimed now => inv.claimed q claimed (fresh now)
      heard := fun q rounds isStart heard =>
        ⟨fun now => (inv.heard q rounds isStart heard).1 (fresh now),
          (inv.heard q rounds isStart heard).2⟩
      exclusive := fun p q first second =>
        inv.exclusive p q (underWay first) (underWay second)
      once := by
        rw [List.filter_cons_of_neg (by simp [passes])]
        exact inv.once }

/-- The death of a process. -/
theorem Inv.kill
    (inv : Inv id incarnation commands past c)
    {c' : runtime.Config}
    {pid : Pid}
    (step : System.Step c (.kill pid) c') :
    Inv id incarnation commands (.kill pid :: past) c' := by
  obtain ⟨buried, dead, others⟩ := step.kill_inv
  have known : ∀ {q}, ¬ Known commands (.kill pid :: past) q →
      ¬ Known commands past q :=
    fun notKnown known => notKnown known.mono
  have passed : ∀ {q}, Passed id (.kill pid :: past) q → Passed id past q := by
    intro q passed
    rcases List.mem_cons.mp passed with now | before
    · cases now
    · exact before
  have alive : ∀ q : Pid, c'.process q ≠ none →
      q ≠ pid ∧ c'.process q = c.process q := by
    intro q alive
    have other : q ≠ pid := by
      rintro rfl
      exact alive dead
    exact ⟨other, others q other⟩
  have underWay : ∀ {q}, UnderWay id commands (.kill pid :: past) c' q →
      UnderWay id commands past c q := by
    rintro q (now | ⟨⟨o, n, running⟩, may⟩)
    · exact .inl (passed now)
    · obtain ⟨_, same⟩ := alive q (by simp [running])
      exact .inr ⟨⟨o, n, same.symm.trans running⟩, may⟩
  have fresh : Fresh id c'.world → Fresh id c.world := by
    rw [buried]
    exact fun now => now
  refine
    { unknown := ?_, command := inv.command, passed := ?_, pending := ?_
      lock := ?_, opened := ?_, incarnation := ?_, notices := ?_, claimed := ?_
      heard := ?_, exclusive := ?_, once := ?_ }
  · intro q notKnown
    obtain ⟨absent, notPassed, silent⟩ := inv.unknown q (known notKnown)
    refine ⟨?_, fun now => notPassed (passed now), buried ▸ silent⟩
    by_contra running
    exact running ((alive q running).2.trans absent)
  · exact fun q now => inv.passed q (passed now)
  · exact fun q shim pending =>
      ⟨(inv.pending q shim pending).1.mono, (inv.pending q shim pending).2⟩
  · intro q file running locked
    obtain ⟨other, same⟩ := alive q running
    obtain ⟨here, held, known⟩ := inv.lock q file (same ▸ running) locked
    refine ⟨here, ?_, fun now => known (fresh now)⟩
    rw [buried]
    change (if World.holder c.world file = some pid then none
      else World.holder c.world file) = some q
    rw [held, if_neg fun own => other (Option.some.inj own)]
  · exact fun q file opened here now => inv.opened q file opened here (fresh now)
  · intro now
    rw [buried]
    exact inv.incarnation (fresh now)
  · intro q rounds notice isShim noticed fine now
    rw [buried] at noticed
    exact inv.notices q rounds notice isShim noticed fine (fresh now)
  · exact fun q claimed now => inv.claimed q claimed (fresh now)
  · intro q rounds isStart heard
    obtain ⟨settled, notCreated⟩ := inv.heard q rounds isStart heard
    exact ⟨fun now => settled (fresh now), notCreated⟩
  · exact fun p q first second =>
      inv.exclusive p q (underWay first) (underWay second)
  · rw [List.filter_cons_of_neg (by simp [passes])]
    exact inv.once

/-- Every command is a `start` or a `start --attach` of the container. -/
def OnlyStarts (id : String) (commands : Pid → Option Command) : Prop :=
  ∀ pid command, commands pid = some command →
    ∃ rounds, command = .start id rounds ∨ command = .startAttached id rounds

omit [F64Ops] in
/-- Shims are forked; none is there at the start. -/
theorem OnlyStarts.not_shim
    (starts : OnlyStarts id commands)
    (pid : Pid)
    (rounds : Nat) :
    (View.first commands pid).command ≠ .shim id rounds := by
  intro isShim
  have isFirst : (commands pid).getD .list = .shim id rounds := isShim
  cases present : commands pid with
  | none =>
      rw [present] at isFirst
      cases isFirst
  | some command =>
      rw [present] at isFirst
      obtain ⟨_, rfl | rfl⟩ := starts pid command present <;> cases isFirst

private theorem OnlyStarts.keeping
    {world : World}
    (starts : OnlyStarts id commands)
    (allowed : List runtime.Event → runtime.Config → runtime.Event → Prop) :
    System.Disciplined (keeping id) Custody.begun (Custody.first commands)
      allowed (Command.launchpad world commands) where
  initially := by
    intro pid p running
    obtain ⟨command, isCommand, rfl⟩ := Option.map_eq_some_iff.mp running
    have first : Custody.first commands pid = { command } := by
      simp [Custody.first, isCommand]
    rw [first]
    obtain ⟨rounds, rfl | rfl⟩ := starts pid command isCommand
    · exact follows_start id rounds
    · exact follows_attached id rounds
  started := by
    intro op answer child p starts
    cases op with
    | forkShim i rounds =>
        cases answer with
        | error e => simp [runtime] at starts
        | ok pid =>
            obtain ⟨rfl, rfl⟩ := Prod.mk.inj (Option.some.inj starts)
            exact follows_shim i rounds
    | _ => simp [runtime] at starts
  answers := by
    intro past c pid op answer world' answered _
    exact World.credible_of_answer answered (faultFree_of_allowed answer)

private theorem Inv.begin
    {world : World}
    (starts : OnlyStarts id commands)
    (silent : ∀ pid, world.notices pid = none) :
    Inv id (world.incarnation id) commands []
      (Command.launchpad world commands) := by
  have notPassed : ∀ pid, ¬ Passed id [] pid := fun pid passed => by cases passed
  refine
    { unknown := ?_, command := ?_, passed := ?_, pending := ?_, lock := ?_
      opened := ?_, incarnation := fun _ => rfl, notices := ?_, claimed := ?_
      heard := ?_, exclusive := ?_, once := ?_ }
  · intro pid unknown
    refine ⟨?_, notPassed pid, silent pid⟩
    have absent : commands pid = none := by
      by_contra present
      exact unknown (.inl present)
    change (commands pid).map _ = none
    rw [absent]
    rfl
  · exact fun _ => rfl
  · exact fun pid passed => (notPassed pid passed).elim
  · intro pid shim pending
    cases pending
  · intro pid file _ locked
    cases locked
  · intro pid file opened
    cases opened
  · intro pid rounds notice _ noticed
    rw [show World.notices (Command.launchpad world commands).world pid = none
      from silent pid] at noticed
    cases noticed
  · intro pid claimed
    cases claimed
  · intro pid rounds _ heard
    cases heard
  · intro p q first _
    rcases first with passed | ⟨_, ⟨rounds, isShim⟩ | ⟨_, st, rest, seen, _⟩⟩
    · exact (notPassed p passed).elim
    · exact (starts.not_shim p rounds isShim).elim
    · cases seen
  · simp

/--
In every run of any number of `start` and `start --attach` of one container, with
their shims, failures and deaths anywhere, `launch` gets past its status check at
most once, provided that no check finds the container created while another
launch attempt is under way.
-/
theorem launched_once
    {world : World}
    (starts : OnlyStarts id commands)
    (silent : ∀ pid, world.notices pid = none)
    (run : System.Run
      (fun past c event => Apart id commands past c event ∧
        NewPid commands past event)
      (Command.launchpad world commands) past c) :
    (past.filter (passes id)).length ≤ 1 := by
  have noCreate : ∀ pid st, commands pid ≠ some (.create st) := by
    intro pid st isCreate
    obtain ⟨_, never | never⟩ := starts pid _ isCreate <;> cases never
  have conducted : System.Disciplined (conduct id True) View.begun
      (View.first commands)
      (fun past c event => Apart id commands past c event ∧
        NewPid commands past event) (Command.launchpad world commands) :=
    Command.disciplined noCreate
      (fun _ _ _ _ answer _ => faultFree_of_allowed answer) id
  have kept : System.Disciplined (keeping id) Custody.begun
      (Custody.first commands)
      (fun past c event => Apart id commands past c event ∧
        NewPid commands past event) (Command.launchpad world commands) :=
    starts.keeping _
  suffices inv : Inv id (world.incarnation id) commands past c from inv.once
  refine run.invariant (Inv.begin starts silent) ?_
  rintro earlier before after event runBefore inv step ⟨permitted, newPid⟩
  cases event with
  | call pid op answer =>
      have required := runBefore.requires conducted step
      have owned := runBefore.requires kept step
      cases step with
      | call ready answered unused =>
          by_cases forks : runtime.starts op answer = none
          · simp only [forks, System.Config.start]
            exact
              { unknown := fun _ => inv.call_unknown ready answered
                command := inv.call_command forks
                passed := fun _ => inv.call_passed required forks
                pending := fun _ _ => inv.call_pending forks
                lock := fun _ _ =>
                  inv.call_lock ready answered required owned forks
                opened := fun _ _ =>
                  inv.call_opened answered required owned forks
                incarnation := inv.call_incarnation answered required owned
                notices := fun _ _ _ =>
                  inv.call_notices answered required owned forks
                claimed := fun _ => inv.call_claimed answered required owned forks
                heard := fun _ _ => inv.call_heard answered required owned forks
                exclusive := fun _ _ =>
                  inv.call_exclusive ready answered required owned forks permitted
                once := inv.call_once ready required }
          · cases op with
            | forkShim i rounds =>
                cases answer with
                | error e => exact absurd rfl forks
                | ok child =>
                    obtain ⟨_, rfl⟩ := World.provided_eq_some.mp answered
                    exact inv.fork ready required
                      (newPid pid i rounds child rfl)
            | _ => exact absurd rfl forks
  | happen what =>
      cases step with
      | happen happened => exact inv.happen happened
  | kill pid => exact inv.kill step

end Runs

/-! ## Two launches -/

/-- A created container. -/
def createdState : ContainerState :=
  { ContainerState.new 1 { id := "web" } with status := .created }

/-- Two `start --attach`. -/
def twoAttached : Pid → Option Command := fun pid =>
  if pid = 7 ∨ pid = 9 then some (.startAttached "web" 5) else none

private theorem twoAttached_onlyStarts : OnlyStarts "web" twoAttached := by
  intro pid command isCommand
  unfold twoAttached at isCommand
  split at isCommand
  · exact ⟨5, .inr (Option.some.inj isCommand).symm⟩
  · cases isCommand

/-- Both find the container created before either launches. -/
def bothFindCreated [F64Ops] : List (System.Turn runtime) :=
  [.go (7 : Pid) (World.usual 7 8), .go (9 : Pid) (World.usual 9 10),
    .go (7 : Pid) (World.usual 7 8), .go (9 : Pid) (World.usual 9 10)]

theorem attached_starts_launch_twice :
    OnlyStarts "web" twoAttached ∧
    ∃ past c,
      @System.Run Op Ans (@runtime unitOps) (fun _ _ _ => True)
        (@Command.launchpad unitOps { states := [createdState] } twoAttached)
        past c ∧
      (past.filter (@passes unitOps "web")).length = 2 := by
  let _ := unitOps
  have played : ((Command.launchpad { states := [createdState] } twoAttached).play
      [] bothFindCreated).any
        (fun outcome => (outcome.1.filter (passes "web")).length = 2) = true := by
    decide +kernel
  obtain ⟨⟨past, c⟩, isPlayed, twice⟩ := (Option.any_eq_true _ _).mp played
  exact ⟨twoAttached_onlyStarts, past, c, System.Config.run_of_play_start isPlayed,
    by simpa using twice⟩

/-! ## One launch -/

/-- A `start`, and a `start --attach` that comes later. -/
def oneAfterTheOther : Pid → Option Command := fun pid =>
  if pid = 7 then some (.start "web" 5)
  else if pid = 9 then some (.startAttached "web" 5)
  else none

private theorem oneAfterTheOther_onlyStarts : OnlyStarts "web" oneAfterTheOther := by
  intro pid command isCommand
  unfold oneAfterTheOther at isCommand
  split at isCommand
  · exact ⟨5, .inl (Option.some.inj isCommand).symm⟩
  · split at isCommand
    · exact ⟨5, .inr (Option.some.inj isCommand).symm⟩
    · cases isCommand

section Schedule

variable [F64Ops]

/-- `start` checks and forks its shim, the shim launches and reports, `start`
ends, and `start --attach` is refused. -/
def refusedTurns : List (System.Turn runtime) :=
  List.replicate 5 (.go (7 : Pid) (World.usual 7 8)) ++
  List.replicate 13 (.go (8 : Pid) (World.sending .ready 8 10)) ++
  List.replicate 3 (.go (8 : Pid) (World.sending .started 8 10)) ++
  List.replicate 6 (.go (8 : Pid) (World.usual 8 10)) ++
  List.replicate 4 (.go (7 : Pid) (World.usual 7 8)) ++
  [.go (9 : Pid) (World.usual 9 11)]

/-- An event of the process that forks nothing. -/
def stepOf (pid : Pid) : runtime.Event → Bool
  | .call p op answer =>
      decide ((show Pid from p) = pid) && (runtime.starts op answer).isNone
  | _ => false

private theorem view_unseen
    {id : String}
    {commands : Pid → Option Command}
    {past : List runtime.Event}
    {pid other : Pid}
    (own : past.all (stepOf pid) = true)
    (different : other ≠ pid) :
    viewOf id commands past other = View.first commands other := by
  induction past with
  | nil => rfl
  | cons event past inductionHypothesis =>
      rw [List.all_cons, Bool.and_eq_true] at own
      cases event with
      | call p op answer =>
          simp only [stepOf, Bool.and_eq_true, decide_eq_true_eq,
            Option.isNone_iff_eq_none] at own
          obtain ⟨⟨rfl, noStart⟩, rest⟩ := own
          rw [view_other noStart different]
          exact inductionHypothesis rest
      | happen what => simp [stepOf] at own
      | kill p => simp [stepOf] at own

/-- A check is safe when nothing happened before it but its own steps. -/
theorem apart_of_own
    {id : String}
    {commands : Pid → Option Command}
    (starts : OnlyStarts id commands)
    {past : List runtime.Event}
    {c : runtime.Config}
    {pid other : Pid}
    (own : past.all (stepOf pid) = true)
    (different : other ≠ pid) :
    ¬ UnderWay id commands past c other := by
  rintro (passed | ⟨_, may⟩)
  · have isOwn := List.all_eq_true.mp own _ passed
    simp only [stepOf, Bool.and_eq_true, decide_eq_true_eq] at isOwn
    exact different isOwn.1
  · rw [view_unseen own different] at may
    rcases may with ⟨rounds, isShim⟩ | ⟨_, st, rest, seen, _⟩
    · exact starts.not_shim other rounds isShim
    · cases seen

/-- An event that forks the process. -/
def forks (child : Pid) : runtime.Event → Bool
  | .call _ (.forkShim _ _) (.ok q) => decide (q = child)
  | _ => false

/-- The shim of the container. -/
def isShim (id : String) : Command → Bool
  | .shim i _ => decide (i = id)
  | _ => false

/-- A check that is safe because nothing happened before it, and a shim with a
pid of its own. -/
def orderlyEvent (id : String) (commands : Pid → Option Command)
    (past : List runtime.Event) : runtime.Event → Bool
  | .call pid (.readState i) (.ok st) =>
      decide (i ≠ id) || decide (st.status ≠ .created) ||
        isShim id (viewOf id commands past pid).command || past.all (stepOf pid)
  | .call _ (.forkShim _ _) (.ok child) =>
      (commands child).isNone && past.all fun event => !forks child event
  | _ => true

/-- All events of a run are in order. -/
def orderly (id : String) (commands : Pid → Option Command) :
    List runtime.Event → Bool
  | [] => true
  | event :: past =>
      orderlyEvent id commands past event && orderly id commands past

private theorem allowed_of_orderly
    {id : String}
    {commands : Pid → Option Command}
    (starts : OnlyStarts id commands)
    {past : List runtime.Event}
    {event : runtime.Event}
    (inOrder : orderlyEvent id commands past event = true)
    (c : runtime.Config) :
    Apart id commands past c event ∧ NewPid commands past event := by
  refine ⟨?_, ?_⟩
  · rintro pid st rfl created notShim other different underWay
    simp only [orderlyEvent, Bool.or_eq_true, decide_eq_true_eq] at inOrder
    rcases inOrder with ((elsewhere | notCreated) | shim) | own
    · exact absurd rfl elsewhere
    · exact absurd created notCreated
    · unfold isShim at shim
      split at shim
      · rename_i i rounds isCommand
        obtain rfl : i = id := by simpa using shim
        exact absurd isCommand (notShim rounds)
      · cases shim
    · exact absurd underWay (apart_of_own starts own different)
  · rintro parent i rounds child rfl known
    simp only [orderlyEvent, Bool.and_eq_true, Option.isNone_iff_eq_none]
      at inOrder
    rcases known with atStart | ⟨p, i', rounds', forked⟩
    · exact atStart inOrder.1
    · have other := List.all_eq_true.mp inOrder.2 _ forked
      simp [forks] at other

private theorem orderly_suffix
    {id : String}
    {commands : Pid → Option Command}
    {past earlier : List runtime.Event}
    {event : runtime.Event}
    (inOrder : orderly id commands past = true)
    (suffix : event :: earlier <:+ past) :
    orderlyEvent id commands earlier event = true := by
  induction past with
  | nil => simp at suffix
  | cons newest rest inductionHypothesis =>
      simp only [orderly, Bool.and_eq_true] at inOrder
      rcases List.suffix_cons_iff.mp suffix with same | older
      · obtain ⟨rfl, rfl⟩ := List.cons.inj same
        exact inOrder.1
      · exact inductionHypothesis inOrder.2 older

end Schedule

theorem later_start_refused :
    ∃ past c,
      @System.Run Op Ans (@runtime unitOps)
        (fun past c event =>
          @Apart unitOps "web" oneAfterTheOther past c event ∧
            @NewPid unitOps oneAfterTheOther past event)
        (@Command.launchpad unitOps { states := [createdState] } oneAfterTheOther)
        past c ∧
      past.length = 32 ∧ (past.filter (@passes unitOps "web")).length ≤ 1 := by
  let _ := unitOps
  have played :
      ((Command.launchpad { states := [createdState] } oneAfterTheOther).play []
        refusedTurns).any (fun outcome => outcome.1.length = 32 &&
          orderly "web" oneAfterTheOther outcome.1) = true := by
    decide +kernel
  obtain ⟨⟨past, c⟩, isPlayed, good⟩ := (Option.any_eq_true _ _).mp played
  simp only [Bool.and_eq_true, decide_eq_true_eq] at good
  have inOrder : System.Run (fun past _ event =>
      orderlyEvent "web" oneAfterTheOther past event = true)
      (Command.launchpad { states := [createdState] } oneAfterTheOther) past c :=
    (System.Config.run_of_play_start isPlayed).restrict
      fun event earlier => orderly_suffix good.2
  have run := inOrder.mono fun past c event ordered =>
    allowed_of_orderly oneAfterTheOther_onlyStarts ordered c
  exact ⟨past, c, run, good.1,
    launched_once oneAfterTheOther_onlyStarts (fun _ => rfl) run⟩

end SingleLaunch

end Myrun
