import Myrun.Records

namespace Myrun

/-!
# A failed `create`

`create` writes the record of a new container twice: once in status creating,
from `Store::create`, and once more in status created.  Nothing it did is taken
back when a later step fails, and its callers `cmd_create` and `cmd_run` return
the error at once.  A directory without a state file is not listed by
`Store::ids`, so what matters is whether the first record was written.
-/

namespace CreationFailure

open Prog

/-- The host during one call, and the operation that was performed last. -/
structure Attempt where
  world : World
  last : Option Op := none

/-- One operation of the call. -/
def step (self : Pid) (a : Attempt) (op : Op) (answer : Ans op)
    (a' : Attempt) : Prop :=
  a.world.answer self op answer = some a'.world ∧ a'.last = some op

/-- The steps after the first record is on disk. -/
def AfterRecord : Op → Prop
  | .host (.fault point) => point = "after_state_create"
  | .writeState .create _ => True
  | _ => False

/-- The same containers are there, each with the same record. -/
def SameContainers (w w' : World) : Prop :=
  ∀ id, w'.state? id = w.state? id

/-! ## What `ids` and `list` show -/

section Visible

variable {self : Pid}

private theorem SameContainers.trans
    {w w' w'' : World}
    (first : SameContainers w w')
    (second : SameContainers w' w'') :
    SameContainers w w'' :=
  fun id => (second id).trans (first id)

/-- An operation that leaves the state files alone. -/
theorem answer_states_of_calm
    {w w' : World}
    {op : Op}
    {answer : Ans op}
    (calm : Records.Calm op)
    (answered : w.answer self op answer = some w') :
    SameContainers w w' := by
  intro id
  rcases w.stateChange_of_answer answered id with same | _ | _
  · exact same
  · exact False.elim calm
  · exact False.elim calm

private theorem wp_existing
    (entries : List String)
    {a : Attempt}
    {ok : List String → Attempt → Prop}
    (okHolds : ∀ names a', SameContainers a.world a'.world →
      (∀ id, id ∈ names ↔ id ∈ entries ∧ (a.world.state? id).isSome = true) →
      ok names a') :
    (Store.existing entries).wp (.ofStep (step self)) a ok
      fun _ _ => True := by
  induction entries generalizing a ok with
  | nil =>
      exact okHolds [] a (fun _ => rfl) (by simp)
  | cons entry rest inductionHypothesis =>
      rw [Store.existing, Fallible.wp_bind]
      intro present a1 stepped
      have ⟨isPresent, same⟩ :
          present = (a.world.state? entry).isSome ∧ a.world = a1.world := by
        simpa [World.answer, World.provided_eq_some] using stepped.1
      refine (Fallible.wp_bind _ _ _ _).mpr ?_
      refine inductionHypothesis ?_
      intro others a2 sameAfter listed
      rw [← same] at sameAfter listed
      refine okHolds _ a2 sameAfter ?_
      intro id
      by_cases here : id = entry
      · subst here
        cases found : (a.world.state? id).isSome with
        | true => simp [isPresent, found]
        | false => simp [isPresent, found, listed]
      · split
        · simp [here, listed]
        · simp [here, listed]

private theorem wp_ids
    {a : Attempt}
    {ok : List String → Attempt → Prop}
    (okHolds : ∀ names a', SameContainers a.world a'.world →
      (∀ id, id ∈ names ↔ (a.world.state? id).isSome = true) →
      ok names a') :
    Store.ids.wp (.ofStep (step self)) a ok fun _ _ => True := by
  rw [Store.ids, Fallible.wp_bind]
  intro entries a1 stepped
  cases entries with
  | error e => trivial
  | ok entries =>
      have ⟨all, same⟩ :
          entries = (a.world.states.map (·.id)).dedup ∧
            a.world = a1.world := by
        simpa [World.answer, World.provided_eq_some] using stepped.1
      refine (Fallible.wp_bind _ _ _ _).mpr ?_
      refine wp_existing entries ?_
      intro found a2 sameAfter filtered
      rw [← same] at sameAfter filtered
      refine okHolds _ a2 sameAfter ?_
      intro id
      rw [List.mem_mergeSort, filtered, all]
      constructor
      · exact And.right
      · intro present
        refine ⟨?_, present⟩
        obtain ⟨st, isState⟩ := Option.isSome_iff_exists.mp present
        have member := List.mem_of_find?_eq_some isState
        rw [List.mem_dedup]
        exact List.mem_map.mpr ⟨st, member, World.state?_id isState⟩

private theorem wp_loadAll
    (names : List String)
    {a : Attempt}
    {ok : List ContainerState → Attempt → Prop}
    (okHolds : ∀ states a', SameContainers a.world a'.world →
      (∀ st ∈ states, a.world.state? st.id = some st) → ok states a') :
    (Store.loadAll names).wp (.ofStep (step self)) a ok fun _ _ => True := by
  induction names generalizing a ok with
  | nil =>
      exact okHolds [] a (fun _ => rfl) (by simp)
  | cons name rest inductionHypothesis =>
      rw [Store.loadAll, Fallible.wp_bind, Fallible.wp_attempt]
      intro loaded a1 stepped
      have calm : Records.Calm (.readState name) := trivial
      have same := answer_states_of_calm calm stepped.1
      have others : ∀ {ok' : List ContainerState → Attempt → Prop},
          (∀ states a', SameContainers a.world a'.world →
            (∀ st ∈ states, a.world.state? st.id = some st) → ok' states a') →
          (Store.loadAll rest).wp (.ofStep (step self)) a1 ok'
            fun _ _ => True := by
        intro ok' holds
        refine inductionHypothesis ?_
        intro states a2 sameAfter read
        refine holds states a2 (same.trans sameAfter) ?_
        intro st member
        rw [← same]
        exact read st member
      cases loaded with
      | error e =>
          refine (Fallible.wp_bind _ _ _ _).mpr (others ?_)
          exact okHolds
      | ok st =>
          have isState : a.world.state? name = some st := by
            have answered := stepped.1
            simp only [World.answer, World.provided_eq_some] at answered
            exact answered.1
          refine (Fallible.wp_bind _ _ _ _).mpr (others ?_)
          intro states a2 sameAfter read
          refine okHolds (st :: states) a2 sameAfter ?_
          intro other member
          rcases List.mem_cons.mp member with rfl | inRest
          · rw [World.state?_id isState]
            exact isState
          · exact read other inRest

end Visible

/-! ## What the operations before the record do -/

/-- A step that reads, or touches the host outside the store. -/
def Early (op : Op) : Prop :=
  Records.Calm op ∧ ¬ AfterRecord op

/-- Nothing recorded since `w`, and not yet past the record. -/
def Before (w : World) (a : Attempt) : Prop :=
  SameContainers w a.world ∧ ∀ op, a.last = some op → ¬ AfterRecord op

private theorem wp_early
    {α : Type}
    {self : Pid}
    {w : World}
    {p : Prog Op Ans α}
    (early : OnlyUses Early p)
    {a : Attempt}
    (before : Before w a)
    {Q : α → Attempt → Prop}
    (holds : ∀ value a', Before w a' → Q value a') :
    p.wp (.ofStep (step self)) a Q := by
  induction early generalizing a with
  | ret value =>
      exact holds value a before
  | call allowed rest inductionHypothesis =>
      intro answer a' stepped
      apply inductionHypothesis answer
      refine ⟨?_, ?_⟩
      · intro id
        exact (answer_states_of_calm allowed.1 stepped.1 id).trans
          (before.1 id)
      · intro op isLast
        obtain rfl := Option.some.inj (stepped.2.symm.trans isLast)
        exact allowed.2

section Calls

variable {self : Pid} {w : World} {a : Attempt} {st : ContainerState}

/-- One operation on the host that is not the fault point behind the record. -/
theorem wp_host_early
    (op : HostOp)
    (early : ¬ AfterRecord (.host op))
    (before : Before w a)
    {Q : HostAns op → Attempt → Prop}
    (holds : ∀ answer a', Before w a' → Q answer a') :
    (ask (.host op)).wp (.ofStep (step self)) a Q := by
  have isEarly : Early (.host op) := ⟨trivial, early⟩
  exact wp_early (.perform isEarly) before holds

/-- `Store::create` fails before the record is written, or has written it. -/
theorem wp_storeCreate
    (before : Before w a)
    {ok : Unit → Attempt → Prop}
    (okHolds : ∀ a', w.state? st.id = none → a'.world.state? st.id = some st →
      ok () a') :
    (Supervisor.storeCreate st).wp (.ofStep (step self)) a ok
      fun _ a' => Before w a' := by
  rw [Supervisor.storeCreate, Fallible.wp_bind]
  intro present a' stepped
  have answered := stepped.1
  have isPresent : present = (a.world.state? st.id).isSome ∧
      a.world = a'.world := by
    simpa [World.answer, World.provided_eq_some] using answered
  have before' : Before w a' := by
    refine ⟨?_, ?_⟩
    · rw [← isPresent.2]
      exact before.1
    · intro op isLast
      obtain rfl := Option.some.inj (stepped.2.symm.trans isLast)
      exact not_false
  cases present with
  | true =>
      exact before'
  | false =>
      have absent : w.state? st.id = none := by
        rw [← before.1 st.id]
        simpa using isPresent.1.symm
      refine (Fallible.wp_bind _ _ _ _).mpr ?_
      have names : OnlyUses Early (Supervisor.checkName st.name).run :=
        uses_checkName ⟨trivial, not_false⟩ (fun _ => ⟨trivial, not_false⟩)
          (fun _ => ⟨trivial, not_false⟩) _
      refine wp_early names before' ?_
      intro outcome a2 before2
      cases outcome with
      | error e => exact before2
      | ok _ =>
          refine (Fallible.wp_bind _ _ _ _).mpr ?_
          refine wp_host_early (.writeConfig st.id st.config) not_false before2 ?_
          intro written a3 before3
          cases written with
          | error e => exact before3
          | ok _ =>
              intro saved a4 last
              cases saved with
              | error e =>
                  obtain same : a3.world = a4.world := by
                    simpa [World.answer] using last.1
                  refine ⟨same ▸ before3.1, ?_⟩
                  intro op isLast
                  obtain rfl := Option.some.inj (last.2.symm.trans isLast)
                  exact not_false
              | ok _ =>
                  obtain stored : a3.world.putState st = a4.world := by
                    simpa [World.answer] using last.1
                  refine okHolds a4 absent ?_
                  rw [← stored]
                  exact a3.world.state?_putState_same st

/-- Past the record: the container is listed, and was not before. -/
def Recorded (w : World) (st : ContainerState) (a : Attempt) : Prop :=
  w.state? st.id = none ∧ (a.world.state? st.id).isSome = true

private theorem Recorded.host
    {op : HostOp}
    {answer : HostAns op}
    {a' : Attempt}
    (recorded : Recorded w st a)
    (stepped : step self a (.host op) answer a') :
    Recorded w st a' := by
  have calm : Records.Calm (.host op) := trivial
  refine ⟨recorded.1, ?_⟩
  rw [answer_states_of_calm calm stepped.1 st.id]
  exact recorded.2

/-- How a call of `create` that fails can end. -/
def Failed (w : World) (st : ContainerState) (a : Attempt) : Prop :=
  Before w a ∨
    Recorded w st a ∧ ∃ op, a.last = some op ∧ AfterRecord op

private theorem wp_create
    (new : st.status = .creating)
    (before : Before w a) :
    (Supervisor.create st).wp (.ofStep (step self)) a (fun _ _ => True)
      fun _ a' => Failed w st a' := by
  rw [Supervisor.create]
  refine (Fallible.wp_bind _ _ _ _).mpr ?_
  have notYet : ¬ AfterRecord (.host (.fault "before_state_create")) := by
    simp [AfterRecord]
  refine wp_host_early (.fault "before_state_create") notYet before ?_
  intro first a1 before1
  cases first with
  | error e => exact .inl before1
  | ok _ =>
      refine (Fallible.wp_bind _ _ _ _).mpr ?_
      have storing :
          (Supervisor.storeCreate st).wp (.ofStep (step self)) a1
            (fun _ a2 => Recorded w st a2) fun _ a2 => Before w a2 :=
        wp_storeCreate before1 fun a2 absent stored =>
          ⟨absent, by simp [stored]⟩
      refine Fallible.wp_consequence ?_ (fun _ _ failed => .inl failed) storing
      intro _ a2 recorded
      refine (Fallible.wp_bind _ _ _ _).mpr ?_
      intro second a3 faulted
      have recorded3 : Recorded w st a3 := recorded.host faulted
      cases second with
      | error e => exact .inr ⟨recorded3, _, faulted.2, rfl⟩
      | ok _ =>
          refine (Fallible.wp_bind _ _ _ _).mpr ?_
          intro now a4 clock
          have recorded4 : Recorded w st a4 := recorded3.host clock
          have moves :
              st.transition .created now = .ok (st.enter .created now) := by
            simp [ContainerState.transition, new, Status.canTransitionTo]
          change Fallible.onResult _ _ (st.transition .created now) a4
          rw [moves]
          refine (Fallible.wp_bind _ _ _ _).mpr ?_
          intro saved a5 last
          cases saved with
          | ok _ => trivial
          | error e =>
              obtain same : a4.world = a5.world := by
                simpa [World.answer] using last.1
              exact .inr ⟨⟨recorded.1, same ▸ recorded4.2⟩, _, last.2, trivial⟩

private theorem before_start (w : World) :
    Before w { world := w } := by
  refine ⟨fun _ => rfl, ?_⟩
  intro op isLast
  simp at isLast

/--
A call of `create` for a new container that fails leaves the containers as they
were exactly when the step that fails is not one of the two behind the first
record: the fault point after it and the second write.
-/
theorem create_atomic_iff
    {self : Pid}
    {w : World}
    {st : ContainerState}
    (new : st.status = .creating)
    {e : Error}
    {a : Attempt}
    (failed :
      Exec (step self) (Supervisor.create st).run { world := w } (.error e)
        a) :
    SameContainers w a.world ↔ ∀ op, a.last = some op → ¬ AfterRecord op := by
  have outcome : Failed w st a :=
    failed.of_wp (wp_create new (before_start w))
  rcases outcome with before | ⟨recorded, op, isLast, after⟩
  · exact ⟨fun _ => before.2, fun _ => before.1⟩
  · constructor
    · intro same
      have absent := (same st.id).trans recorded.1
      exact absurd recorded.2 (by simp [absent])
    · intro early
      exact absurd after (early op isLast)

end Calls

/-! ## Two failures -/

/-- A new container without a name. -/
def newWeb : ContainerState :=
  .new 1700000000000 { id := "web", command := ["sh"] }

/-- The disk is full. -/
def diskFull : Error :=
  .syscall "io" 28 "No space left on device (os error 28)"

/-- Another container, which has a name. -/
def oldDb : ContainerState :=
  { ContainerState.new 1600000000000 { id := "db", name := some "db" } with
    status := .created }

/-- A host with that container. -/
def dbWorld : World where
  states := [oldDb]

/-- A new container with another name. -/
def namedWeb : ContainerState :=
  .new 1700000000000 { id := "web", name := some "web", command := ["sh"] }

/-- A host whose disk is full when the first record is written. -/
def fullAtFirst (a : Attempt) : (op : Op) → Option (Ans op)
  | .writeState .storeCreate _ => some (.error diskFull)
  | op => a.world.usual 1 2 op

/-- What an operation does there. -/
def attempted (a : Attempt) (op : Op) (answer : Ans op) : Option Attempt :=
  (a.world.answer 1 op answer).map fun world => { world, last := some op }

private theorem step_of_attempted
    (a : Attempt)
    (op : Op)
    (answer : Ans op)
    (a' : Attempt)
    (_ : fullAtFirst a op = some answer)
    (moved : attempted a op answer = some a') :
    step 1 a op answer a' := by
  obtain ⟨world, answered, rfl⟩ := Option.map_eq_some_iff.mp moved
  exact ⟨answered, rfl⟩

/-- A write of the first record that fails, after the name was compared with that
of another container. -/
theorem first_write_is_atomic :
    ∃ e a, Exec (step 1) (Supervisor.create namedWeb).run { world := dbWorld }
        (.error e) a ∧
      (∃ st, a.last = some (.writeState .storeCreate st)) ∧
      SameContainers dbWorld a.world := by
  have driven : (drive fullAtFirst attempted (Supervisor.create namedWeb).run
      { world := dbWorld }).any (fun (result, a) => !result.toBool &&
        a.last.any fun
          | .writeState .storeCreate _ => true
          | _ => false) = true := by
    decide +kernel
  obtain ⟨result, a, ran, ending⟩ :=
    Exec.of_drive_any step_of_attempted driven
  simp only [Bool.and_eq_true, Option.any_eq_true] at ending
  obtain ⟨isError, op, isLast, isWrite⟩ := ending
  cases result with
  | ok st => cases isError
  | error e =>
      obtain ⟨st, rfl⟩ : ∃ st, op = .writeState .storeCreate st := by
        split at isWrite
        · exact ⟨_, rfl⟩
        · cases isWrite
      refine ⟨e, a, ran, ⟨st, isLast⟩, (create_atomic_iff rfl ran).mpr ?_⟩
      intro op same
      obtain rfl := Option.some.inj (isLast.symm.trans same)
      exact id

/-- The host after the first record of `newWeb`. -/
def recordedWorld : World :=
  ({} : World).putState newWeb

/-- A second write that fails leaves a container in status creating. -/
theorem second_write_leaves_phantom :
    ¬ ∀ self w st e a, st.status = .creating →
      Exec (step self) (Supervisor.create st).run { world := w } (.error e)
        a →
      SameContainers w a.world := by
  intro atomic
  let created := newWeb.enter .created 1700000000001
  let after (world : World) (op : Op) : Attempt := { world, last := some op }
  have fault :
      step 1 { world := {} } (.host (.fault "before_state_create")) (.ok ())
        (after {} (.host (.fault "before_state_create"))) :=
    ⟨rfl, rfl⟩
  have absent :
      step 1 (after {} (.host (.fault "before_state_create")))
        (.stateExists "web") false (after {} (.stateExists "web")) :=
    ⟨rfl, rfl⟩
  have config :
      step 1 (after {} (.stateExists "web"))
        (.host (.writeConfig "web" newWeb.config)) (.ok ())
        (after {} (.host (.writeConfig "web" newWeb.config))) :=
    ⟨rfl, rfl⟩
  have recorded :
      step 1 (after {} (.host (.writeConfig "web" newWeb.config)))
        (.writeState .storeCreate newWeb) (.ok ())
        (after recordedWorld (.writeState .storeCreate newWeb)) :=
    ⟨rfl, rfl⟩
  have passed :
      step 1 (after recordedWorld (.writeState .storeCreate newWeb))
        (.host (.fault "after_state_create")) (.ok ())
        (after recordedWorld (.host (.fault "after_state_create"))) :=
    ⟨rfl, rfl⟩
  have clock :
      step 1 (after recordedWorld (.host (.fault "after_state_create")))
        (.host .now) (1700000000001 : UInt64)
        (after recordedWorld (.host .now)) :=
    ⟨rfl, rfl⟩
  have full :
      step 1 (after recordedWorld (.host .now)) (.writeState .create created)
        (.error diskFull)
        (after recordedWorld (.writeState .create created)) :=
    ⟨rfl, rfl⟩
  have failed :
      Exec (step 1) (Supervisor.create newWeb).run { world := {} }
        (.error diskFull)
        (after recordedWorld (.writeState .create created)) :=
    .call fault (.call absent (.call config (.call recorded (.call passed
      (.call clock (.call full (.ret _ _)))))))
  have same := atomic 1 {} newWeb diskFull _ rfl failed "web"
  exact absurd same (by decide)

end CreationFailure

end Myrun
