import Myrun.Records

namespace Myrun

namespace Records

/-!
# Runs of operations

The operations of the runtime one after the other, in any order, with shims that
hold records in memory between their launch and the end of their container.
Every record that is persisted on the way is sound after the one it replaces.
-/

section Operations

open Prog

variable {α β : Type} {files : Files}

/-! ## The remaining operations -/

private theorem Keeps.bind
    {p : Act α}
    {f : α → Act β}
    (first : Keeps p)
    (second : ∀ value, Keeps (f value)) :
    Keeps (p >>= f) := by
  intro files all
  rw [Fallible.wp_bind]
  exact Fallible.wp_consequence (fun value files' => second value files')
    (fun _ _ => id) (first files all)

private theorem Keeps.withLock
    {id : String}
    {body : Act α}
    (keeps : Keeps body) :
    Keeps (Store.withLock id body) :=
  fun files all => wp_withLock (keeps files all) fun _ => all

private theorem keeps_calm
    {p : Act α}
    (calm : OnlyUses Calm p.run) :
    Keeps p :=
  fun _ all => wp_calm calm (fun _ => all) fun _ => all

private theorem keeps_host (p : HostAct α) : Keeps (liftM p : Act α) :=
  keeps_calm (uses_host calm_host p)

private theorem keeps_initIsAlive (st : ContainerState) : Keeps st.initIsAlive :=
  keeps_calm (uses_initIsAlive calm_procStat st)

private theorem keeps_load (id : String) : Keeps (Store.load id) :=
  keeps_calm (.perform trivial)

private theorem keeps_pure (value : α) : Keeps (pure value : Act α) :=
  fun _ all => all

private theorem keeps_error (e : Error) : Keeps (.ofExcept (.error e) : Act α) :=
  fun _ all => all

/-- What follows a record that was loaded and reconciled. -/
theorem Keeps.afterLoadReconciled
    {id : String}
    {f : ContainerState → Act α}
    (keeps : ∀ st files, Current files st →
      (f st).wp records files (fun _ files' => AllValid files')
        fun _ files' => AllValid files') :
    Keeps (Store.loadReconciled id >>= f) := by
  intro files all
  rw [Fallible.wp_bind]
  refine wp_loadReconciled all ?_ fun _ => all
  exact fun st files' current _ => keeps st files' current

/-- A record in its file can be saved again once it has moved on. -/
theorem Current.keeps_save
    {st st' : ContainerState}
    (current : Current files st)
    (valid : Valid st')
    (same : st'.id = st.id)
    (leads : Leads st.status st'.status)
    (place : SavePoint) :
    (Store.save place st').wp records files (fun _ files' => AllValid files')
      fun _ files' => AllValid files' := by
  obtain ⟨sound, saved⟩ := current.save valid same leads
  exact wp_save sound saved.valid fun _ => current.valid

private theorem keeps_kill
    (id : String)
    (signal : Int32)
    (all : Bool) :
    Keeps (Lifecycle.kill id signal all) := by
  refine Keeps.withLock (Keeps.afterLoadReconciled fun st files current => ?_)
  cases live : st.status.isLive with
  | false =>
      exact current.valid
  | true =>
      refine (Fallible.wp_bind _ _ _ _).mpr ?_
      refine wp_thawPaused current live ?_
      intro st' valid same _ leads
      refine (Fallible.wp_bind _ _ _ _).mpr ?_
      refine wp_host ?_ fun _ => current.valid
      intro swept
      cases swept with
      | some cg =>
          refine (Fallible.wp_bind _ _ _ _).mpr ?_
          refine wp_host ?_ fun _ => current.valid
          exact fun _ => current.keeps_save valid same leads .kill
      | none =>
          refine (Fallible.wp_bind _ _ _ _).mpr ?_
          refine (Fallible.wp_mapErr _ _ _).mpr ?_
          refine wp_host ?_ fun _ => current.valid
          exact fun _ => current.keeps_save valid same leads .kill

/-- Freezing or thawing, and the record of it. -/
theorem keeps_cgroupChange
    {st : ContainerState}
    (current : Current files st)
    (live : st.status.isLive = true)
    (next : Status)
    (nextLive : next.isLive = true)
    (message : String)
    (change : Cgroup → HostAct Unit)
    (place : SavePoint) :
    (do
      let cg ← Lifecycle.requireCgroup st message
      change cg
      let st ← transitionNow st next
      Store.save place st : Act Unit).wp records files
        (fun _ files' => AllValid files') fun _ files' => AllValid files' := by
  refine (Fallible.wp_bind _ _ _ _).mpr ?_
  refine wp_host ?_ fun _ => current.valid
  intro cg
  refine (Fallible.wp_bind _ _ _ _).mpr ?_
  refine wp_host ?_ fun _ => current.valid
  intro _
  refine (Fallible.wp_bind _ _ _ _).mpr ?_
  refine wp_transition ?_ fun _ => current.valid
  intro st' now _ moved
  obtain ⟨valid, leads⟩ :=
    (current.valid _ _ current.here).transition_live live nextLive moved
  exact current.keeps_save valid
    (ContainerState.SameLaunch.transition moved).id.symm leads place

private theorem keeps_pause (id : String) : Keeps (Lifecycle.pause id) := by
  refine Keeps.withLock (Keeps.afterLoadReconciled fun st files current => ?_)
  by_cases running : st.status = .running
  · simp only [running, ne_eq, not_true_eq_false, if_false]
    exact keeps_cgroupChange current (by rw [running]; rfl) .paused rfl _
      Cgroup.freeze .pause
  · simp only [running, ne_eq, not_false_eq_true, if_true]
    exact current.valid

private theorem keeps_unpause (id : String) : Keeps (Lifecycle.unpause id) := by
  refine Keeps.withLock (Keeps.afterLoadReconciled fun st files current => ?_)
  by_cases paused : st.status = .paused
  · simp only [paused, ne_eq, not_true_eq_false, if_false]
    exact keeps_cgroupChange current (by rw [paused]; rfl) .running rfl _
      Cgroup.thaw .unpause
  · simp only [paused, ne_eq, not_false_eq_true, if_true]
    exact current.valid

private theorem keeps_requestStop (id : String) :
    Keeps (Lifecycle.requestStop id) := by
  refine Keeps.withLock (Keeps.afterLoadReconciled fun st files current => ?_)
  cases live : st.status.isLive with
  | false =>
      exact current.valid
  | true =>
      refine (Fallible.wp_bind _ _ _ _).mpr ?_
      refine wp_thawPaused current live ?_
      intro st' valid same live' leads
      refine (Fallible.wp_bind _ _ _ _).mpr ?_
      refine wp_transition ?_ fun _ => current.valid
      intro st'' now _ moved
      obtain ⟨valid', leads'⟩ := valid.transition_live live' rfl moved
      obtain ⟨sound, saved⟩ := current.save valid'
        ((ContainerState.SameLaunch.transition moved).id.symm.trans same)
        (leads.trans leads')
      refine (Fallible.wp_bind _ _ _ _).mpr ?_
      refine wp_save sound ?_ fun _ => current.valid
      exact ((keeps_host _).bind fun _ => keeps_pure _) _ saved.valid

/-- Tear down the record that is in its file. -/
theorem Current.keeps_teardown
    {st : ContainerState}
    (current : Current files st) :
    (Supervisor.teardown st).wp records files
      (fun _ files' => AllValid files') fun _ files' => AllValid files' :=
  wp_teardown current.valid (current.valid _ _ current.here)
    (.inl current.here) (fun _ _ all _ => all) fun _ => current.valid

/-- What follows a record that was loaded. -/
theorem Keeps.afterLoad
    {id : String}
    {f : ContainerState → Act α}
    (keeps : ∀ st files, Current files st →
      (f st).wp records files (fun _ files' => AllValid files')
        fun _ files' => AllValid files') :
    Keeps (Store.load id >>= f) := by
  intro files all
  rw [Fallible.wp_bind]
  refine wp_load ?_ fun _ => all
  exact fun st found same => keeps st files ⟨all, same ▸ found⟩

private theorem keeps_finalizeLocked (id : String) :
    Keeps (Lifecycle.finalizeLocked id) := by
  refine Keeps.afterLoad fun st files current => ?_
  refine (Fallible.wp_bind _ _ _ _).mpr ?_
  refine wp_initIsAlive st ?_ fun _ => current.valid
  intro alive
  cases alive with
  | true =>
      exact current.valid
  | false =>
      refine (Fallible.wp_bind _ _ _ _).mpr ?_
      have looked : OnlyUses Calm
          (if 0 < st.shimPid then processAlive st.shimPid none
            else return false : Act Bool).run := by
        split
        · exact uses_processAlive calm_procStat _ _
        · exact .ret _
      refine wp_calm looked ?_ fun _ => current.valid
      intro shimAlive
      cases shimAlive with
      | true =>
          exact current.valid
      | false =>
          refine (Fallible.wp_bind _ _ _ _).mpr ?_
          exact Fallible.wp_consequence (fun _ _ all => all)
            (fun _ _ all => all) current.keeps_teardown

private theorem keeps_awaitShim
    (id : String)
    (left : Nat) :
    Keeps (Lifecycle.awaitShim id left) := by
  induction left with
  | zero =>
      refine Keeps.afterLoad fun st files current => ?_
      refine (Fallible.wp_bind _ _ _ _).mpr ?_
      exact Fallible.wp_consequence (fun _ _ all => all) (fun _ _ all => all)
        current.keeps_teardown
  | succ left inductionHypothesis =>
      refine Keeps.afterLoad fun st files current => ?_
      split
      · exact current.valid
      · exact ((keeps_host sleep).bind fun _ => inductionHypothesis) _
          current.valid

private theorem keeps_finalizeStopped (id : String) :
    Keeps (Lifecycle.finalizeStopped id) := by
  refine (Keeps.withLock (keeps_finalizeLocked id)).bind ?_
  intro outcome
  cases outcome with
  | some status => exact keeps_pure status
  | none => exact keeps_awaitShim id 100

private theorem keeps_graceLoop
    (id : String)
    (rounds : Nat) :
    Keeps (Lifecycle.graceLoop id rounds) := by
  induction rounds with
  | zero =>
      exact keeps_calm ((OnlyUses.perform trivial).bind fun never => never.elim)
  | succ rounds inductionHypothesis =>
      refine (keeps_host _).bind ?_
      intro late
      cases late with
      | true => exact keeps_pure false
      | false =>
          refine (keeps_load id).bind fun st => ?_
          refine (keeps_initIsAlive st).bind ?_
          intro alive
          cases alive with
          | false => exact keeps_pure true
          | true => exact (keeps_host sleep).bind fun _ => inductionHypothesis

private theorem keeps_deathLoop
    (id : String)
    (left : Nat) :
    Keeps (Lifecycle.deathLoop id left) := by
  induction left with
  | zero =>
      exact keeps_pure ()
  | succ left inductionHypothesis =>
      refine (keeps_load id).bind fun st => ?_
      refine (keeps_initIsAlive st).bind ?_
      intro alive
      cases alive with
      | false => exact keeps_pure ()
      | true => exact (keeps_host sleep).bind fun _ => inductionHypothesis

private theorem keeps_forceKill (id : String) : Keeps (Lifecycle.forceKill id) := by
  refine Keeps.withLock ((keeps_load id).bind fun st => ?_)
  refine (keeps_host _).bind ?_
  intro cgroup
  cases cgroup with
  | some cg => exact keeps_host _
  | none => exact (keeps_host _).bind fun _ => keeps_pure ()

private theorem keeps_stop
    (id : String)
    (rounds : Nat) :
    Keeps (Lifecycle.stop id rounds) := by
  refine (keeps_requestStop id).bind ?_
  intro outcome
  cases outcome with
  | some status => exact keeps_pure status
  | none =>
      refine (keeps_graceLoop id rounds).bind ?_
      intro gone
      cases gone with
      | true => exact keeps_finalizeStopped id
      | false =>
          refine (keeps_forceKill id).bind fun _ => ?_
          exact (keeps_deathLoop id 100).bind fun _ => keeps_finalizeStopped id

private theorem keeps_wait
    (id : String)
    (timed : Bool)
    (rounds : Nat) :
    Keeps (Lifecycle.wait id timed rounds) := by
  induction rounds with
  | zero =>
      exact keeps_calm ((OnlyUses.perform trivial).bind fun never => never.elim)
  | succ rounds inductionHypothesis =>
      refine Keeps.afterLoadReconciled fun st files current => ?_
      cases st.status.isLive with
      | false => exact current.valid
      | true =>
          refine ((keeps_host _).bind ?_) _ current.valid
          intro late
          cases late with
          | true => exact keeps_error _
          | false => exact (keeps_host sleep).bind fun _ => inductionHypothesis

private theorem wp_stopForDelete
    {id : String}
    {st : ContainerState}
    (current : Current files st)
    (force : Bool)
    (rounds : Nat) :
    (Lifecycle.stopForDelete id st force rounds).wp records files
      (fun st' files' => Current files' st') fun _ files' => AllValid files' := by
  unfold Lifecycle.stopForDelete
  cases st.status.isLive with
  | false =>
      exact current
  | true =>
      cases force with
      | false =>
          exact current.valid
      | true =>
          refine (Fallible.wp_bind _ _ _ _).mpr ?_
          refine Fallible.wp_consequence ?_ (fun _ _ all => all)
            (keeps_stop id rounds files current.valid)
          intro _ files' all
          refine wp_load ?_ fun _ => all
          exact fun st found same => ⟨all, same ▸ found⟩

private theorem keeps_remove (id : String) : Keeps (Store.remove id) :=
  fun _ all => wp_remove all (fun _ all => all) fun _ _ all => all

private theorem keeps_delete
    (id : String)
    (force : Bool)
    (rounds : Nat) :
    Keeps (Lifecycle.delete id force rounds) := by
  intro files all
  rw [Lifecycle.delete, Fallible.wp_bind]
  refine wp_withLock ?_ fun _ => all
  refine wp_loadReconciled all ?_ fun _ => all
  intro st files' current _
  refine (Fallible.wp_bind _ _ _ _).mpr ?_
  refine Fallible.wp_consequence ?_ (fun _ _ all => all)
    (wp_stopForDelete current force rounds)
  intro st' files'' current'
  refine (Fallible.wp_bind _ _ _ _).mpr ?_
  refine wp_withLock ?_ fun _ => current'.valid
  exact Fallible.wp_consequence (fun _ files => keeps_remove id files)
    (fun _ _ all => all) current'.keeps_teardown

/-- `reconcile` of the record in the file. -/
def reconcileFile (id : String) : Act (Bool × ContainerState) := do
  let st ← Store.load id
  Store.reconcile st

/-- `teardown` of the record in the file. -/
def teardownFile (id : String) : Act ContainerState := do
  let st ← Store.load id
  Supervisor.teardown st

private theorem keeps_reconcileFile (id : String) : Keeps (reconcileFile id) := by
  refine Keeps.afterLoad fun st files current => ?_
  exact wp_reconcile current (fun _ _ _ current' _ => current'.valid)
    fun _ => current.valid

private theorem keeps_teardownFile (id : String) : Keeps (teardownFile id) :=
  Keeps.afterLoad fun _ _ current => current.keeps_teardown

end Operations

/-! ## What is persisted -/

/-- A record that was persisted, and the one it replaced. -/
structure Persisted where
  before : Option ContainerState
  record : ContainerState

/-- The state files with everything that was persisted, newest first. -/
structure Ledger where
  files : Files
  persisted : List Persisted

namespace Ledger

/-- Persist a record. -/
def write (l : Ledger) (st : ContainerState) : Ledger where
  files := Function.update l.files st.id (some st)
  persisted := ⟨l.files st.id, st⟩ :: l.persisted

/-- Remove a container. -/
def remove (l : Ledger) (id : String) : Ledger :=
  { l with files := Function.update l.files id none }

/-- What an operation answers and does to the state files when no other process
interferes. Init may die at any moment, so what is seen of it is open. -/
def Step (l : Ledger) : (op : Op) → Ans op → Ledger → Prop
  | .readState id, answer, l' =>
      (∀ st, answer = .ok st → l.files id = some st) ∧ l' = l
  | .stateExists id, answer, l' => answer = (l.files id).isSome ∧ l' = l
  | .writeState _ st, .ok _, l' => l' = l.write st
  | .writeState _ _, .error _, l' => l' = l
  | .removeDir id, .removed, l' => l' = l.remove id
  | .removeDir id, .failed stateGone _, l' =>
      l' = if stateGone then l.remove id else l
  | .host .now, now, l' => 0 < (show UInt64 from now) ∧ l' = l
  | .cloneInit _ _, answer, l' =>
      (∀ pid, answer = .ok pid → 0 < pid) ∧ l' = l
  | _, _, l' => l' = l

/-- Every file holds a record of its container, and everything persisted is
sound. -/
structure Good (l : Ledger) : Prop where
  keyed : ∀ id st, l.files id = some st → st.id = id
  sound : ∀ entry ∈ l.persisted, Sound entry.before entry.record

private theorem Good.write
    {l : Ledger}
    (good : l.Good)
    {st : ContainerState}
    (sound : Sound (l.files st.id) st) :
    (l.write st).Good where
  keyed := by
    intro id found same
    by_cases here : id = st.id
    · subst here
      simp only [Ledger.write, Function.update_self, Option.some.injEq] at same
      rw [← same]
    · simp only [Ledger.write, Function.update_of_ne here] at same
      exact good.keyed id found same
  sound := by
    intro entry member
    rcases List.mem_cons.mp member with rfl | older
    · exact sound
    · exact good.sound entry older

private theorem Good.remove
    {l : Ledger}
    (good : l.Good)
    (id : String) :
    (l.remove id).Good where
  keyed := by
    intro other found same
    by_cases here : other = id
    · subst here
      simp [Ledger.remove] at same
    · simp only [Ledger.remove, Function.update_of_ne here] at same
      exact good.keyed other found same
  sound := good.sound

/-- One operation of a program that meets the contract. -/
theorem Good.step
    {l l' : Ledger}
    (good : l.Good)
    {op : Op}
    {answer : Ans op}
    (step : l.Step op answer l')
    {Q : Ans op → Files → Prop}
    (holds : records.spec op l.files Q) :
    l'.Good ∧ Q answer l'.files := by
  cases op with
  | readState id =>
      obtain ⟨known, rfl⟩ := step
      refine ⟨good, holds answer fun st same => ?_⟩
      exact ⟨known st same, good.keyed id st (known st same)⟩
  | stateExists id =>
      obtain ⟨rfl, rfl⟩ := step
      exact ⟨good, holds⟩
  | writeState place st =>
      obtain ⟨sound, written, failed⟩ := holds
      cases answer with
      | ok done =>
          obtain rfl := step
          exact ⟨good.write sound, written⟩
      | error e =>
          obtain rfl := step
          exact ⟨good, failed e⟩
  | removeDir id =>
      cases answer with
      | removed =>
          obtain rfl := step
          exact ⟨good.remove id, (holds _).2⟩
      | failed stateGone e =>
          obtain rfl := step
          cases stateGone with
          | true => exact ⟨good.remove id, (holds _).2⟩
          | false => exact ⟨good, (holds _).1⟩
  | cloneInit id cgroup =>
      obtain ⟨positive, rfl⟩ := step
      exact ⟨good, holds answer positive⟩
  | host op =>
      cases op with
      | now =>
          obtain ⟨positive, rfl⟩ := step
          exact ⟨good, holds answer positive⟩
      | _ =>
          obtain rfl := step
          exact ⟨good, holds answer⟩
  | _ =>
      obtain rfl := step
      exact ⟨good, holds answer⟩

/-- A whole program that meets the contract. -/
theorem Good.exec
    {α : Type}
    {p : Prog Op Ans α}
    {l l' : Ledger}
    {value : α}
    (exec : Prog.Exec Step p l value l')
    (good : l.Good)
    {Q : α → Files → Prop}
    (holds : p.wp records l.files Q) :
    l'.Good ∧ Q value l'.files := by
  induction exec with
  | ret value l =>
      exact ⟨good, holds⟩
  | call first rest inductionHypothesis =>
      obtain ⟨good', next⟩ := good.step first holds
      exact inductionHypothesis good' next

end Ledger

/-! ## Runs -/

/-- The operations that begin with what is in the state files. -/
inductive Operation where
  | create (now : UInt64) (config : ContainerConfig)
  | kill (id : String) (signal : Int32) (all : Bool)
  | stop (id : String) (rounds : Nat)
  | pause (id : String)
  | unpause (id : String)
  | wait (id : String) (timed : Bool) (rounds : Nat)
  | reconcile (id : String)
  | teardown (id : String)
  | delete (id : String) (force : Bool) (rounds : Nat)

/-- The program of an operation. -/
def Operation.program : Operation → Act Unit
  | create now config => Act.done (Supervisor.create (.new now config))
  | kill id signal all => Lifecycle.kill id signal all
  | stop id rounds => Act.done (Lifecycle.stop id rounds)
  | pause id => Lifecycle.pause id
  | unpause id => Lifecycle.unpause id
  | wait id timed rounds => Act.done (Lifecycle.wait id timed rounds)
  | reconcile id => Act.done (reconcileFile id)
  | teardown id => Act.done (teardownFile id)
  | delete id force rounds => Lifecycle.delete id force rounds

private theorem Keeps.done
    {α : Type}
    {p : Act α}
    (keeps : Keeps p) :
    Keeps (Act.done p) :=
  keeps.bind fun _ => keeps_pure ()

private theorem Operation.keeps (op : Operation) : Keeps op.program := by
  cases op with
  | create now config => exact (keeps_create now config).done
  | kill id signal all => exact keeps_kill id signal all
  | stop id rounds => exact (keeps_stop id rounds).done
  | pause id => exact keeps_pause id
  | unpause id => exact keeps_unpause id
  | wait id timed rounds => exact (keeps_wait id timed rounds).done
  | reconcile id => exact (keeps_reconcileFile id).done
  | teardown id => exact (keeps_teardownFile id).done
  | delete id force rounds => exact keeps_delete id force rounds

/-- The state files, and what the shims hold in memory. -/
structure Machine where
  ledger : Ledger
  /-- shims that wait for their container -/
  waiting : List (ContainerState × Running)
  /-- shims that have recorded an exit -/
  ended : List (ExitStatus × ContainerState)

/-- No container yet. -/
def Machine.empty : Machine where
  ledger := ⟨fun _ => none, []⟩
  waiting := []
  ended := []

/-- A shim that has launched its container waits for it. -/
def Machine.afterLaunch (m : Machine) (l : Ledger) :
    Result (ContainerState × Running) → Machine
  | .ok launched => { m with ledger := l, waiting := launched :: m.waiting }
  | .error _ => { m with ledger := l }

/-- A shim that has recorded an exit cleans up. -/
def Machine.afterExit (m : Machine) (l : Ledger)
    (waiting : List (ContainerState × Running)) :
    Result (ExitStatus × ContainerState) → Machine
  | .ok exit => ⟨l, waiting, exit :: m.ended⟩
  | .error _ => ⟨l, waiting, m.ended⟩

/-- One operation, alone. -/
inductive Machine.Step [F64Ops] : Machine → Machine → Prop where
  | operation
      {m : Machine}
      {result : Result Unit}
      {l : Ledger}
      (op : Operation)
      (exec : Prog.Exec Ledger.Step op.program.run m.ledger result l) :
      Step m { m with ledger := l }
  | launch
      {m : Machine}
      {result : Result (ContainerState × Running)}
      {l : Ledger}
      (id : String)
      (exec : Prog.Exec Ledger.Step (launched id).run m.ledger result l) :
      Step m (m.afterLaunch l result)
  | waitForExit
      {m : Machine}
      {front back : List (ContainerState × Running)}
      {st : ContainerState}
      {running : Running}
      {result : Result (ExitStatus × ContainerState)}
      {l : Ledger}
      (rounds : Nat)
      (among : m.waiting = front ++ (st, running) :: back)
      (exec : Prog.Exec Ledger.Step
        (Supervisor.waitForExit rounds st running).run m.ledger result l) :
      Step m (m.afterExit l (front ++ back) result)
  | cleanUp
      {m : Machine}
      {front back : List (ExitStatus × ContainerState)}
      {exit : ExitStatus}
      {st : ContainerState}
      {result : Result Int32}
      {l : Ledger}
      (among : m.ended = front ++ (exit, st) :: back)
      (exec : Prog.Exec Ledger.Step (Shim.cleanUp exit st).run m.ledger
        result l) :
      Step m ⟨l, m.waiting, front ++ back⟩

/-- What holds between operations. -/
structure Machine.Invariant (m : Machine) : Prop where
  good : m.ledger.Good
  valid : AllValid m.ledger.files
  waiting : ∀ shim ∈ m.waiting, shim.1.status = .running
  ended : ∀ shim ∈ m.ended, shim.2.status = .stopped ∧ Valid shim.2

private theorem Machine.Invariant.step [F64Ops]
    {m m' : Machine}
    (invariant : m.Invariant)
    (step : Machine.Step m m') :
    m'.Invariant := by
  obtain ⟨good, valid, waiting, ended⟩ := invariant
  cases step with
  | operation op exec =>
      obtain ⟨good', after⟩ := good.exec exec (op.keeps _ valid)
      refine ⟨good', ?_, waiting, ended⟩
      rename_i result l
      cases result <;> exact after
  | launch id exec =>
      obtain ⟨good', after⟩ := good.exec exec (wp_launched id valid)
      rename_i result l
      cases result with
      | ok shim =>
          obtain ⟨valid', isRunning⟩ := after
          refine ⟨good', valid', ?_, ended⟩
          intro other member
          rcases List.mem_cons.mp member with rfl | older
          · exact isRunning
          · exact waiting other older
      | error e =>
          exact ⟨good', after, waiting, ended⟩
  | waitForExit rounds among exec =>
      rename_i front back st running result l
      have isRunning : st.status = .running :=
        waiting (st, running) (by rw [among]; simp)
      have others : ∀ shim ∈ front ++ back, shim.1.status = .running := by
        intro shim member
        refine waiting shim ?_
        rw [among]
        simp only [List.mem_append, List.mem_cons] at member ⊢
        exact member.imp_right .inr
      have meets := @wp_waitForExit m.ledger.files
        (fun _ files' => AllValid files') rounds st running valid isRunning
        (fun exit files' => AllValid files' ∧ exit.2.status = .stopped ∧
          Valid exit.2)
        (fun _ _ _ all stopped new => ⟨all, stopped, new⟩) fun _ => valid
      obtain ⟨good', after⟩ := good.exec exec meets
      cases result with
      | ok exit =>
          obtain ⟨valid', stopped, new⟩ := after
          refine ⟨good', valid', others, ?_⟩
          intro shim member
          rcases List.mem_cons.mp member with rfl | older
          · exact ⟨stopped, new⟩
          · exact ended shim older
      | error e =>
          exact ⟨good', after, others, ended⟩
  | cleanUp among exec =>
      rename_i front back exit st result l
      obtain ⟨stopped, new⟩ := ended (exit, st) (by rw [among]; simp)
      obtain ⟨good', after⟩ :=
        good.exec exec (wp_cleanUp exit valid stopped new)
      refine ⟨good', ?_, waiting, ?_⟩
      · cases result <;> exact after
      · intro shim member
        refine ended shim ?_
        rw [among]
        simp only [List.mem_append, List.mem_cons] at member ⊢
        exact member.imp_right .inr

/-- A run of operations, each alone. -/
abbrev Machine.Run [F64Ops] : Machine → Machine → Prop :=
  Relation.ReflTransGen Machine.Step

/-- A whole shim is a run of its launch, its wait and its end. -/
theorem Machine.run_of_shim [F64Ops]
    {m : Machine}
    {id : String}
    {rounds : Nat}
    {result : Result Int32}
    {l : Ledger}
    (exec : Prog.Exec Ledger.Step (Shim.run id rounds).run m.ledger result l) :
    ∃ m', Machine.Run m m' ∧ m'.ledger = l := by
  have meets :
      (Shim.run id rounds).wp (.ofStep Ledger.Step) m.ledger
        (fun _ l => ∃ m', Machine.Run m m' ∧ m'.ledger = l)
        fun _ l => ∃ m', Machine.Run m m' ∧ m'.ledger = l := by
    rw [shim_run_eq, Fallible.wp_bind]
    apply Prog.wp_of_exec
    intro launch l₁ isLaunched
    have first := Machine.Step.launch id isLaunched
    cases launch with
    | error e => exact ⟨_, .single first, rfl⟩
    | ok shim =>
    obtain ⟨st, running⟩ := shim
    refine (Fallible.wp_bind _ _ _ _).mpr ?_
    apply Prog.wp_of_exec
    intro waited l₂ isWaited
    have second := @Machine.Step.waitForExit _
      (m.afterLaunch l₁ (.ok (st, running))) [] m.waiting st running waited l₂
      rounds rfl isWaited
    cases waited with
    | error e => exact ⟨_, .tail (.single first) second, rfl⟩
    | ok exit =>
    obtain ⟨status, stopped⟩ := exit
    apply Prog.wp_of_exec
    intro cleaned l₃ isCleaned
    have third := @Machine.Step.cleanUp _
      ⟨l₂, m.waiting, (status, stopped) :: m.ended⟩ [] m.ended status stopped
      cleaned l₃ rfl isCleaned
    have run := Relation.ReflTransGen.tail (.tail (.single first) second) third
    cases cleaned <;> exact ⟨_, run, rfl⟩
  have reached := exec.of_wp meets
  cases result <;> exact reached

private theorem Machine.Invariant.run [F64Ops]
    {m m' : Machine}
    (invariant : m.Invariant)
    (run : Machine.Run m m') :
    m'.Invariant := by
  induction run with
  | refl => exact invariant
  | tail _ step inductionHypothesis => exact inductionHypothesis.step step

private theorem Machine.invariant_empty : Machine.empty.Invariant where
  good := {
    keyed := fun _ _ found => nomatch found
    sound := fun _ member => nomatch member }
  valid := fun _ _ found => nomatch found
  waiting := fun _ member => nomatch member
  ended := fun _ member => nomatch member

/-- Nothing follows the last status. -/
theorem Leads.of_stopped
    {status : Status}
    (leads : Leads .stopped status) :
    status = .stopped := by
  induction leads with
  | refl => rfl
  | tail _ edge inductionHypothesis =>
      subst inductionHypothesis
      simp [Status.canTransitionTo] at edge

/--
Every record that any run persists: its status is reached from the one of the
record it replaces along the edges of the state machine and never leaves the
last one, and its fields agree with its status.
-/
theorem persisted_records_sound [F64Ops]
    {m : Machine}
    (run : Machine.Run .empty m)
    (entry : Persisted)
    (persisted : entry ∈ m.ledger.persisted) :
    (∀ old, entry.before = some old →
      Leads old.status entry.record.status ∧
        (old.status = .stopped → entry.record.status = .stopped)) ∧
    (entry.record.status.isLive = true →
      0 < entry.record.initPid ∧ 0 < entry.record.startedAt) ∧
    (entry.record.status = .stopped ↔ 0 < entry.record.finishedAt) ∧
    (entry.record.status ≠ .stopped →
      entry.record.exitCode = none ∧ entry.record.exitSignal = none ∧
        entry.record.finishedAt = 0) := by
  have sound :=
    (Machine.invariant_empty.run run).good.sound entry persisted
  refine ⟨fun old before => ?_, sound.valid.live, sound.valid.stopped,
    sound.valid.unset⟩
  have leads := sound.leads old before
  refine ⟨leads, fun stopped => ?_⟩
  rw [stopped] at leads
  exact leads.of_stopped

/-- The answers of a host on which nothing fails; init says that it is ready,
then that it has started. -/
def answersFrom (s : Ledger × Nat) : (op : Op) → Option (Ans op)
  | .readState id =>
      some (match s.1.files id with
        | some st => .ok st
        | none => .error (.notFound id))
  | .stateExists id => some (s.1.files id).isSome
  | .channel (.recv _) =>
      some (.ok (match s.2 with
        | 0 => some .ready
        | 1 => some .started
        | _ => none))
  | op => ({} : World).usual 7 8 op

/-- What an operation does to the ledger, with the frames that init has sent. -/
def moveFrom (s : Ledger × Nat) : (op : Op) → Ans op → Option (Ledger × Nat)
  | .writeState _ st, .ok _ => some (s.1.write st, s.2)
  | .removeDir id, .removed => some (s.1.remove id, s.2)
  | .removeDir _, .failed _ _ => none
  | .channel (.recv _), _ => some (s.1, s.2 + 1)
  | _, _ => some s

private theorem step_of_answersFrom
    (s : Ledger × Nat)
    (op : Op)
    (answer : Ans op)
    (s' : Ledger × Nat)
    (answered : answersFrom s op = some answer)
    (moved : moveFrom s op answer = some s') :
    s.1.Step op answer s'.1 := by
  cases op with
  | readState id =>
      obtain rfl := Option.some.inj moved
      refine ⟨?_, rfl⟩
      rintro st rfl
      simp only [answersFrom, Option.some.injEq] at answered
      split at answered
      · cases answered
        assumption
      · cases answered
  | stateExists id =>
      obtain rfl := Option.some.inj moved
      exact ⟨(Option.some.inj answered).symm, rfl⟩
  | writeState place st =>
      cases answer with
      | ok u =>
          obtain rfl := Option.some.inj moved
          rfl
      | error e =>
          obtain rfl := Option.some.inj moved
          rfl
  | removeDir id =>
      cases answer with
      | removed =>
          obtain rfl := Option.some.inj moved
          rfl
      | failed stateGone e =>
          cases moved
  | cloneInit id cgroup =>
      obtain rfl := Option.some.inj moved
      refine ⟨?_, rfl⟩
      rintro pid rfl
      obtain rfl : (8 : Pid) = pid := Except.ok.inj (Option.some.inj answered)
      decide
  | channel op =>
      cases op <;> (obtain rfl := Option.some.inj moved; rfl)
  | host op =>
      obtain rfl := Option.some.inj moved
      cases op with
      | now =>
          obtain rfl : (1 : UInt64) = answer := Option.some.inj answered
          exact ⟨by decide, rfl⟩
      | _ => rfl
  | spin => exact answer.elim
  | _ =>
      obtain rfl := Option.some.inj moved
      rfl

/-- A program on that host. -/
def played
    {α : Type}
    (p : Act α)
    (s : Ledger × Nat) :
    Option (Result α × (Ledger × Nat)) :=
  Prog.drive answersFrom moveFrom p.run s

private theorem exec_of_played
    {α : Type}
    {p : Act α}
    {s s' : Ledger × Nat}
    {result : Result α}
    (isPlayed : played p s = some (result, s')) :
    Prog.Exec Ledger.Step p.run s.1 result s'.1 :=
  (Prog.Exec.of_drive step_of_answersFrom isPlayed).map_state Prod.fst
    fun _ _ _ _ stepped => stepped

/-- A container is created, its shim runs from launch to clean-up, and it is
deleted: the record of its end replaced that of a running container. -/
theorem web_persisted_sound :
    ∃ m, @Machine.Run unitOps .empty m ∧ m.ledger.files "web" = none ∧
      ∃ entry ∈ m.ledger.persisted,
        (entry.before.map ContainerState.status = some .running ∧
          entry.record.status = .stopped ∧ entry.record.exitCode = some 0) ∧
        Leads .running .stopped ∧ 0 < entry.record.finishedAt := by
  let _ := unitOps
  have life :
      ((played (Operation.program (.create 5 { id := "web" }))
        (Machine.empty.ledger, 0)).any fun (_, s₁) =>
      (played (Shim.run "web" 5) s₁).any fun (_, s₂) =>
      (played (Operation.program (.delete "web" false 5)) s₂).any fun (_, s₃) =>
        (s₃.1.files "web").isNone && s₃.1.persisted.any fun entry =>
          entry.before.map ContainerState.status = some .running &&
            entry.record.status = .stopped &&
            entry.record.exitCode = some 0) = true := by
    decide +kernel
  simp only [Option.any_eq_true, Bool.and_eq_true, List.any_eq_true,
    decide_eq_true_eq, Option.isNone_iff_eq_none] at life
  obtain ⟨⟨_, s₁⟩, created, ⟨_, s₂⟩, supervised, ⟨_, s₃⟩, deleted, gone, entry,
    persisted, ⟨before, stopped⟩, code⟩ := life
  have first : Machine.Run .empty { Machine.empty with ledger := s₁.1 } :=
    .single (.operation _ (exec_of_played created))
  obtain ⟨m, second, sameLedger⟩ :=
    @Machine.run_of_shim _ { Machine.empty with ledger := s₁.1 } _ _ _ _
      (exec_of_played supervised)
  have last := exec_of_played deleted
  rw [← sameLedger] at last
  have run : Machine.Run .empty { m with ledger := s₃.1 } :=
    .tail (first.trans second) (.operation _ last)
  obtain ⟨reached, -, finished, -⟩ := persisted_records_sound run entry persisted
  obtain ⟨old, isOld, running⟩ := Option.map_eq_some_iff.mp before
  refine ⟨_, run, gone, entry, persisted, ⟨before, stopped, code⟩, ?_,
    finished.mp stopped⟩
  rw [← running, ← stopped]
  exact (reached old isOld).1

end Records

end Myrun
