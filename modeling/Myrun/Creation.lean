import Myrun.Discipline
import Myrun.Runtime

namespace Myrun

namespace Creation

/-!
# Concurrent creation of containers

Any number of calls of `create` and of `Store::remove` over one store, each a
process of its own.  `create` looks for the id and the name it was given before
it writes its record, and nothing keeps other calls out in between.

Each call is followed with what it has seen of the store so far.  The names stay
unique as long as calls for the same name or the same id do not overlap; two
calls that do overlap can both succeed.
-/

/-! ## The system -/

/-- A call on the store. -/
inductive Call where
  | create (st : ContainerState)
  | remove (id : String)
  deriving DecidableEq

/-- The operations of a call, and its return. -/
inductive CallOp where
  | act (op : Op)
  | returned (ok : Bool)

/-- The answers. -/
abbrev CallAns : CallOp → Type
  | .act op => Ans op
  | .returned _ => Unit

/-- A call up to its return. -/
def followed {α : Type} (p : Act α) : Prog CallOp CallAns Unit :=
  (p.run.map .act fun _ answer => answer).bind fun result =>
    .call (.returned result.isOk) fun _ => .ret ()

/-- The program of a call. -/
def Call.program : Call → Prog CallOp CallAns Unit
  | create st => followed (Supervisor.create st)
  | remove id => followed (Store.remove id)

/-- The calls over one store. -/
def office : System CallOp CallAns where
  World := World
  Pid := Pid
  Happening := World.Happening
  Out := Unit
  answer w pid
    | .act op, answer => w.answer pid op answer
    | .returned _, _ => some w
  happen := World.happen
  starts _ _ := none
  bury := World.bury

/-- The calls before they begin. -/
def opening (w : World) (calls : Pid → Option Call) : office.Config where
  world := w
  process pid := (calls pid).map Call.program

/-! ## What a call has seen -/

/-- A call and what it did so far, newest first. -/
structure View where
  call : Option Call
  trace : List ((op : Op) × Ans op) := []

/-- What `create` has found out before it writes: the id is not taken, and no
container it could read has the name. -/
structure Cleared (st : ContainerState) (trace : List ((op : Op) × Ans op)) :
    Prop where
  id : ⟨.stateExists st.id, false⟩ ∈ trace
  name : ∀ name, st.name = some name →
    ∃ entries, ⟨.dirEntries, .ok entries⟩ ∈ trace ∧ ∀ entry ∈ entries,
      ⟨.stateExists entry, false⟩ ∈ trace ∨
      (∃ e, ⟨.readState entry, .error e⟩ ∈ trace) ∨
      ∃ other, ⟨.readState entry, .ok other⟩ ∈ trace ∧ other.name ≠ some name

namespace View

/-- What a call may do next. -/
def requires (v : View) : CallOp → Prop
  | .act (.writeState _ written) => ∃ st, v.call = some (.create st) ∧
      written.id = st.id ∧ written.name = st.name ∧ Cleared st v.trace
  | .returned true => ∀ st, v.call = some (.create st) →
      ∃ written, written.id = st.id ∧
        ⟨.writeState .create written, .ok ()⟩ ∈ v.trace
  | _ => True

/-- The view after an operation. -/
def after (v : View) : (op : CallOp) → CallAns op → View
  | .act op, answer => { v with trace := ⟨op, answer⟩ :: v.trace }
  | .returned _, _ => v

/-- A later view of the same call. -/
structure Older (v v' : View) : Prop where
  call : v'.call = v.call
  trace : v.trace <:+ v'.trace

end View

/-- The calls as a discipline. -/
def steps : Discipline CallOp CallAns View where
  requires := View.requires
  credible _ _ := True
  after := View.after

namespace View.Older

variable {u v w : View}

private theorem refl (v : View) : v.Older v :=
  ⟨rfl, List.suffix_rfl⟩

private theorem trans
    (first : u.Older v)
    (second : v.Older w) :
    u.Older w :=
  ⟨second.call.trans first.call, first.trace.trans second.trace⟩

private theorem add
    (v : View)
    (seen : (op : Op) × Ans op) :
    v.Older { v with trace := seen :: v.trace } :=
  ⟨rfl, List.suffix_cons _ _⟩

private theorem mem
    (older : v.Older w)
    {seen : (op : Op) × Ans op}
    (member : seen ∈ v.trace) :
    seen ∈ w.trace :=
  older.trace.subset member

end View.Older

/-! ## The calls keep to it -/

section Programs

open Prog

variable {v : View} {α : Type}

/-- The discipline for the operations of a call. -/
def actSteps : Contract Op Ans View :=
  steps.contract.pull .act fun _ answer => answer

/-- Every operation but a write of a record is free. -/
def Free : Op → Prop
  | .writeState _ _ => False
  | _ => True

private theorem wp_free
    (op : Op)
    (free : Free op)
    {Q : Ans op → View → Prop}
    (holds : ∀ answer, Q answer { v with trace := ⟨op, answer⟩ :: v.trace }) :
    actSteps.spec op v Q := by
  refine ⟨?_, ?_⟩
  · cases op with
    | writeState place st => exact False.elim free
    | _ => trivial
  · intro answer _
    exact holds answer

private theorem wp_host
    {p : HostAct α}
    {ok : α → View → Prop}
    (okHolds : ∀ value v', v.Older v' → ok value v') :
    (liftM p : Act α).wp actSteps v ok fun _ _ => True := by
  have grows : ∀ (p : Prog HostOp HostAns (Result α)) (u : View), v.Older u →
      (p.map Op.host fun _ answer => answer : Proc (Result α)).wp actSteps u
        (Fallible.onResult ok fun _ _ => True) := by
    intro p
    induction p with
    | ret result =>
        intro u older
        cases result with
        | ok value => exact okHolds value u older
        | error e => trivial
    | call op next inductionHypothesis =>
        intro u older
        refine wp_free (.host op) trivial ?_
        intro answer
        exact inductionHypothesis answer _ (older.trans (.add _ _))
  exact grows p.run v (.refl v)

private theorem wp_existing
    (entries : List String)
    {ok : List String → View → Prop}
    (okHolds : ∀ names v', v.Older v' →
      (∀ entry ∈ entries, entry ∈ names ∨ ⟨.stateExists entry, false⟩ ∈ v'.trace) →
      ok names v') :
    (Store.existing entries).wp actSteps v ok fun _ _ => True := by
  induction entries generalizing v ok with
  | nil =>
      exact okHolds [] v (.refl v) (by simp)
  | cons entry entries inductionHypothesis =>
      rw [Store.existing, Fallible.wp_bind, Fallible.wp_liftM]
      refine wp_free (.stateExists entry) trivial ?_
      intro present
      rw [Prog.wp_ret, Fallible.wp_bind]
      refine inductionHypothesis ?_
      intro names v' older all
      rw [Fallible.wp_pure]
      refine okHolds _ v' ((View.Older.add _ _).trans older) ?_
      intro other member
      cases present with
      | true =>
          rcases List.mem_cons.mp member with rfl | later
          · exact .inl List.mem_cons_self
          · exact (all other later).imp_left (List.mem_cons_of_mem _)
      | false =>
          rcases List.mem_cons.mp member with rfl | later
          · exact .inr (older.mem List.mem_cons_self)
          · exact all other later

private theorem wp_nameFree
    (name : String)
    (ids : List String)
    {ok : Unit → View → Prop}
    (okHolds : ∀ v', v.Older v' →
      (∀ id ∈ ids, (∃ e, ⟨.readState id, .error e⟩ ∈ v'.trace) ∨
        ∃ other, ⟨.readState id, .ok other⟩ ∈ v'.trace ∧
          other.name ≠ some name) →
      ok () v') :
    (Supervisor.nameFree name ids).wp actSteps v ok fun _ _ => True := by
  induction ids generalizing v with
  | nil =>
      exact okHolds v (.refl v) (by simp)
  | cons id ids inductionHypothesis =>
      rw [Supervisor.nameFree, Fallible.wp_bind, Fallible.wp_attempt]
      refine wp_free (.readState id) trivial ?_
      intro answer
      cases answer with
      | error e =>
          refine inductionHypothesis ?_
          intro v' older all
          refine okHolds v' ((View.Older.add _ _).trans older) ?_
          intro other member
          rcases List.mem_cons.mp member with rfl | later
          · exact .inl ⟨e, older.mem List.mem_cons_self⟩
          · exact all other later
      | ok loaded =>
          by_cases taken : loaded.name = some name
          · simp [taken]
          · simp only [Prog.wp_ret, Fallible.onResult_ok, taken, if_false]
            refine inductionHypothesis ?_
            intro v' older all
            refine okHolds v' ((View.Older.add _ _).trans older) ?_
            intro other member
            rcases List.mem_cons.mp member with rfl | later
            · exact .inr ⟨loaded, older.mem List.mem_cons_self, taken⟩
            · exact all other later

private theorem wp_checkName
    (name : Option String)
    {ok : Unit → View → Prop}
    (okHolds : ∀ v', v.Older v' →
      (∀ n, name = some n →
        ∃ entries, ⟨.dirEntries, .ok entries⟩ ∈ v'.trace ∧ ∀ entry ∈ entries,
          ⟨.stateExists entry, false⟩ ∈ v'.trace ∨
          (∃ e, ⟨.readState entry, .error e⟩ ∈ v'.trace) ∨
          ∃ other, ⟨.readState entry, .ok other⟩ ∈ v'.trace ∧
            other.name ≠ some n) →
      ok () v') :
    (Supervisor.checkName name).wp actSteps v ok fun _ _ => True := by
  cases name with
  | none =>
      exact okHolds v (.refl v) (by simp)
  | some name =>
      rw [Supervisor.checkName, Store.ids]
      simp only [Fallible.wp_bind, Fallible.wp_of]
      refine wp_free .dirEntries trivial ?_
      intro answer
      cases answer with
      | error e =>
          trivial
      | ok entries =>
          refine wp_existing entries ?_
          intro present v₁ older₁ listed
          rw [Fallible.wp_pure]
          refine wp_nameFree name _ ?_
          intro v₂ older₂ free
          refine okHolds v₂ ((View.Older.add _ _).trans (older₁.trans older₂)) ?_
          intro n same
          obtain rfl := Option.some.inj same
          refine ⟨entries, (older₁.trans older₂).mem List.mem_cons_self, ?_⟩
          intro entry member
          rcases listed entry member with found | absent
          · exact .inr (free entry (List.mem_mergeSort.mpr found))
          · exact .inl (older₂.mem absent)

private theorem Cleared.mono
    {st : ContainerState}
    {trace trace' : List ((op : Op) × Ans op)}
    (cleared : Cleared st trace)
    (older : trace <:+ trace') :
    Cleared st trace' := by
  refine ⟨older.subset cleared.id, ?_⟩
  intro name named
  obtain ⟨entries, listed, all⟩ := cleared.name name named
  refine ⟨entries, older.subset listed, ?_⟩
  intro entry member
  rcases all entry member with absent | ⟨e, failed⟩ | ⟨other, read, different⟩
  · exact .inl (older.subset absent)
  · exact .inr (.inl ⟨e, older.subset failed⟩)
  · exact .inr (.inr ⟨other, older.subset read, different⟩)

private theorem wp_save
    {place : SavePoint}
    {st written : ContainerState}
    (call : v.call = some (.create st))
    (sameId : written.id = st.id)
    (sameName : written.name = st.name)
    (cleared : Cleared st v.trace)
    {ok : Unit → View → Prop}
    (okHolds : ok ()
      { v with trace := ⟨.writeState place written, .ok ()⟩ :: v.trace }) :
    (Store.save place written).wp actSteps v ok fun _ _ => True := by
  refine ⟨⟨st, call, sameId, sameName, cleared⟩, ?_⟩
  intro answer _
  cases answer with
  | error e => trivial
  | ok u => exact okHolds

private theorem wp_transition
    {st : ContainerState}
    {next : Status}
    {ok : ContainerState → View → Prop}
    (okHolds : ∀ st' now, st.transition next now = .ok st' →
      ∀ v', v.Older v' → ok st' v') :
    (liftM (transitionNow st next) : Act ContainerState).wp actSteps v ok
      fun _ _ => True := by
  refine wp_free (.host .now) trivial ?_
  intro now
  change Fallible.onResult ok (fun _ _ => True) (st.transition next now) _
  cases moved : st.transition next now with
  | ok st' => exact okHolds st' now moved _ (.add _ _)
  | error e => trivial

private theorem wp_storeCreate
    {st : ContainerState}
    (call : v.call = some (.create st))
    {ok : Unit → View → Prop}
    (okHolds : ∀ v', v.Older v' → Cleared st v'.trace → ok () v') :
    (Supervisor.storeCreate st).wp actSteps v ok fun _ _ => True := by
  rw [Supervisor.storeCreate, Fallible.wp_bind, Fallible.wp_liftM]
  refine wp_free (.stateExists st.id) trivial ?_
  intro present
  cases present with
  | true =>
      trivial
  | false =>
      refine (Fallible.wp_bind _ _ _ _).mpr ?_
      refine wp_checkName st.name ?_
      intro v₁ older₁ named
      refine (Fallible.wp_bind _ _ _ _).mpr ?_
      refine wp_host ?_
      intro _ v₂ older₂
      have cleared : Cleared st v₂.trace :=
        Cleared.mono ⟨older₁.mem List.mem_cons_self, named⟩ older₂.trace
      have older : v.Older v₂ := (View.Older.add _ _).trans (older₁.trans older₂)
      refine wp_save (older.call.trans call) rfl rfl cleared ?_
      exact okHolds _ (older.trans (.add _ _))
        (cleared.mono (List.suffix_cons _ _))

/-- A call of `create` keeps to the discipline. -/
theorem create_follows
    (st : ContainerState) :
    steps.Follows { call := some (.create st) } (Call.create st).program := by
  have created : (Supervisor.create st).wp actSteps { call := some (.create st) }
      (fun _ v => v.call = some (.create st) ∧ ∃ written, written.id = st.id ∧
        ⟨.writeState .create written, .ok ()⟩ ∈ v.trace)
      fun _ _ => True := by
    rw [Supervisor.create]
    simp only [Fallible.wp_bind]
    refine wp_host ?_
    intro _ v₁ older₁
    refine wp_storeCreate older₁.call ?_
    intro v₂ older₂ cleared
    refine wp_host ?_
    intro _ v₃ older₃
    refine wp_transition ?_
    intro st' now moved v₄ older₄
    have older := older₁.trans (older₂.trans (older₃.trans older₄))
    refine wp_save older.call (ContainerState.SameLaunch.transition moved).id.symm
      (ContainerState.transition_name moved)
      (cleared.mono (older₃.trans older₄).trace) ?_
    exact ⟨older.call, st', (ContainerState.SameLaunch.transition moved).id.symm,
      List.mem_cons_self⟩
  rw [Discipline.Follows, Call.program, followed, wp_bind, wp_map]
  refine wp_mono ?_ created
  intro result v known
  cases result with
  | ok st' =>
      refine ⟨?_, fun _ _ => trivial⟩
      intro st₁ call
      obtain rfl : st = st₁ := by
        simpa using known.1.symm.trans call
      exact known.2
  | error e =>
      exact ⟨trivial, fun _ _ => trivial⟩

/-- A removal keeps to the discipline. -/
theorem remove_follows
    (id : String) :
    steps.Follows { call := some (.remove id) } (Call.remove id).program := by
  rw [Discipline.Follows, Call.program, followed, wp_bind, wp_map]
  have removed : (Store.remove id).wp actSteps { call := some (.remove id) }
      (fun _ v => v.call = some (.remove id)) fun _ _ => True := by
    rw [Store.remove, Fallible.wp_bind, Fallible.wp_liftM]
    refine wp_free (.removeDir id) trivial ?_
    intro answer
    cases answer with
    | removed => exact rfl
    | failed stateGone e => trivial
  refine wp_mono ?_ removed
  intro result v known
  cases result with
  | ok u =>
      refine ⟨?_, fun _ _ => trivial⟩
      intro st call
      have removing : v.call = some (.remove id) := known
      simp [removing] at call
  | error e =>
      exact ⟨trivial, fun _ _ => trivial⟩

end Programs

/-! ## Runs -/

section Runs

variable {calls : Pid → Option Call} {past : List office.Event}
  {c c' : office.Config}

/-- What a call has seen after a run. -/
abbrev viewOf (calls : Pid → Option Call) (past : List office.Event)
    (pid : Pid) : View :=
  System.views (S := office) steps (fun _ _ => { call := none })
    (fun pid => { call := calls pid }) past pid

/-- A call that has begun. -/
def Begun (past : List office.Event) (pid : Pid) : Prop :=
  ∃ op answer, .call pid op answer ∈ past

/-- A call that has begun and has not returned. -/
def UnderWay (past : List office.Event) (c : office.Config) (pid : Pid) : Prop :=
  Begun past pid ∧ ∃ op next, c.process pid = some (.call op next)

/-- The same id, or the same name. -/
def Clash (a b : ContainerState) : Prop :=
  a.id = b.id ∨ ∃ name, a.name = some name ∧ b.name = some name

/-- A step after which names stay unique: when a call of `create` begins, no
other one with its id or its name is under way; and a record that exists can be
read. -/
structure Orderly (calls : Pid → Option Call) (past : List office.Event)
    (c : office.Config) (event : office.Event) : Prop where
  apart : ∀ pid op answer, event = .call pid op answer → ¬ Begun past pid →
    ∀ st other st', calls pid = some (.create st) →
      calls other = some (.create st') → other ≠ pid → Clash st st' →
      ¬ UnderWay past c other
  readable : ∀ pid id e, event = .call pid (.act (.readState id)) (.error e) →
    World.state? c.world id = none

/-- No two containers have the same name. -/
def UniqueNames (w : World) : Prop :=
  ∀ a b name, w.state? a.id = some a → w.state? b.id = some b →
    a.name = some name → b.name = some name → a.id = b.id

/-- A write of a record. -/
def Writes (pid : Pid) (id : String) (event : office.Event) : Prop :=
  ∃ place st, st.id = id ∧ event = .call pid (.act (.writeState place st)) (.ok ())

/-- A removal of a record. -/
def Removes (id : String) (event : office.Event) : Prop :=
  ∃ pid answer, event = .call pid (.act (.removeDir id)) answer ∧
    (answer = .removed ∨ ∃ e, answer = .failed true e)

/-- After some point of a run the record was removed. -/
def RemovedSince (id : String) (older past : List office.Event) : Prop :=
  ∃ event earlier, event :: earlier <:+ past ∧ older <:+ earlier ∧
    Removes id event

/-- A call that has returned `Ok` has written its record, and between any write of
one call and any later write of another for the same id the record was removed.
So two calls return `Ok` for one id only with a removal in between. -/
structure CreatedOnce (calls : Pid → Option Call) (past : List office.Event) :
    Prop where
  written : ∀ p st, calls p = some (.create st) →
    .call p (.returned true) () ∈ past → ∃ event ∈ past, Writes p st.id event
  removed : ∀ p q id event event' older earlier, p ≠ q →
    Writes p id event → Writes q id event' →
    event :: older <:+ earlier → event' :: earlier <:+ past →
    RemovedSince id (event :: older) earlier

/-- What a call has seen is what it sees of a record with this id and name. -/
structure Shows (id name : String) (trace : List ((op : Op) × Ans op)) : Prop where
  present : ⟨.stateExists id, false⟩ ∉ trace
  readable : ∀ e, ⟨.readState id, .error e⟩ ∉ trace
  named : ∀ other, ⟨.readState id, .ok other⟩ ∈ trace → other.name = some name
  listed : ∀ entries, ⟨.dirEntries, .ok entries⟩ ∈ trace → id ∈ entries

private theorem Shows.nil (id name : String) : Shows id name [] :=
  ⟨by simp, by simp, by simp, by simp⟩

private theorem Cleared.not_shows
    {st : ContainerState}
    {id name : String}
    {trace : List ((op : Op) × Ans op)}
    (cleared : Cleared st trace)
    (named : st.name = some name) :
    ¬ Shows id name trace := by
  intro shows
  obtain ⟨entries, listed, all⟩ := cleared.name name named
  rcases all id (shows.listed entries listed) with absent | ⟨e, failed⟩ | ⟨other, read, different⟩
  · exact shows.present absent
  · exact shows.readable e failed
  · exact different (shows.named other read)

/-- The answers of a store that holds the record. -/
theorem Shows.answer
    {id name : String}
    {trace : List ((op : Op) × Ans op)}
    (shows : Shows id name trace)
    {w w' : World}
    {self : Pid}
    {st : ContainerState}
    (present : w.state? id = some st)
    (named : st.name = some name)
    {op : Op}
    {answer : Ans op}
    (answered : w.answer self op answer = some w')
    (readable : ∀ id e, (⟨op, answer⟩ : (op : Op) × Ans op) =
      ⟨.readState id, .error e⟩ → w.state? id = none) :
    Shows id name (⟨op, answer⟩ :: trace) := by
  refine ⟨?_, ?_, ?_, ?_⟩
  · intro member
    rcases List.mem_cons.mp member with now | before
    · obtain ⟨rfl, same⟩ := Sigma.mk.inj now
      obtain rfl := eq_of_heq same
      simp [World.answer, World.provided_eq_some, present] at answered
    · exact shows.present before
  · intro e member
    rcases List.mem_cons.mp member with now | before
    · have absent := readable id e now.symm
      simp [present] at absent
    · exact shows.readable e before
  · intro other member
    rcases List.mem_cons.mp member with now | before
    · obtain ⟨rfl, same⟩ := Sigma.mk.inj now
      obtain rfl := eq_of_heq same
      simp only [World.answer, World.provided_eq_some, present] at answered
      obtain rfl := Option.some.inj answered.1
      exact named
    · exact shows.named other before
  · intro entries member
    rcases List.mem_cons.mp member with now | before
    · obtain ⟨rfl, same⟩ := Sigma.mk.inj now
      obtain rfl := eq_of_heq same
      simp only [World.answer, World.provided_eq_some] at answered
      rw [answered.1, List.mem_dedup, List.mem_map]
      exact ⟨st, List.mem_of_find?_eq_some present, World.state?_id present⟩
    · exact shows.listed entries before

/-- What holds after every orderly run. -/
structure Inv (calls : Pid → Option Call) (past : List office.Event)
    (c : office.Config) : Prop where
  call : ∀ pid, (viewOf calls past pid).call = calls pid
  fresh : ∀ pid, ¬ Begun past pid → (viewOf calls past pid).trace = []
  apart : ∀ p q a b, p ≠ q → calls p = some (.create a) →
    calls q = some (.create b) → Clash a b → UnderWay past c p →
    ¬ UnderWay past c q
  unique : UniqueNames c.world
  seen : ∀ pid st name, calls pid = some (.create st) → st.name = some name →
    UnderWay past c pid → ∀ rival, World.state? c.world rival.id = some rival →
    rival.name = some name → rival.id ≠ st.id →
    Shows rival.id name (viewOf calls past pid).trace
  present : ∀ pid id event older, Writes pid id event → event :: older <:+ past →
    World.state? c.world id = none → RemovedSince id (event :: older) past
  renewed : ∀ pid st, calls pid = some (.create st) → UnderWay past c pid →
    ⟨.stateExists st.id, false⟩ ∈ (viewOf calls past pid).trace →
    ∀ other event older, Writes other st.id event → event :: older <:+ past →
      other ≠ pid → RemovedSince st.id (event :: older) past
  once : ∀ p q id event event' earlier older, p ≠ q → Writes q id event' →
    event' :: earlier <:+ past → Writes p id event → event :: older <:+ earlier →
    RemovedSince id (event :: older) earlier

private theorem viewOf_self
    (pid : Pid)
    (op : CallOp)
    (answer : CallAns op) :
    viewOf calls (.call pid op answer :: past) pid =
      (viewOf calls past pid).after op answer :=
  System.views_call_self (S := office) nofun

private theorem viewOf_other
    {pid other : Pid}
    (op : CallOp)
    (answer : CallAns op)
    (different : other ≠ pid) :
    viewOf calls (.call pid op answer :: past) other =
      viewOf calls past other :=
  System.views_call_other (S := office) different nofun

private theorem begun_of_trace
    (inv : Inv calls past c)
    {pid : Pid}
    {seen : (op : Op) × Ans op}
    (member : seen ∈ (viewOf calls past pid).trace) :
    Begun past pid := by
  by_contra notBegun
  rw [inv.fresh pid notBegun] at member
  simp at member

private theorem begun_mono
    {event : office.Event}
    {pid : Pid}
    (begun : Begun past pid) :
    Begun (event :: past) pid := by
  obtain ⟨op, answer, member⟩ := begun
  exact ⟨op, answer, List.mem_cons_of_mem _ member⟩

private theorem RemovedSince.mono
    {id : String}
    {older past' : List office.Event}
    (removed : RemovedSince id older past)
    (later : past <:+ past') :
    RemovedSince id older past' := by
  obtain ⟨event, earlier, suffix, after, removes⟩ := removed
  exact ⟨event, earlier, suffix.trans later, after, removes⟩

/-! ### One operation -/

variable {pid : Pid} {op : CallOp} {answer : CallAns op}

/-- A record in the store was there before the operation, or the operation wrote
it. -/
theorem record_before
    (step : System.Step c (.call pid op answer) c')
    {st : ContainerState}
    (present : World.state? c'.world st.id = some st) :
    World.state? c.world st.id = some st ∨
      ∃ place, (.call pid op answer : office.Event) =
        .call pid (.act (.writeState place st)) (.ok ()) := by
  have answered := step.call_inv.2.1
  cases op with
  | returned ok =>
      obtain same : c.world = c'.world := Option.some.inj answered
      exact .inl (same ▸ present)
  | act op =>
      cases World.stateChange_of_answer answered st.id with
      | none same =>
          exact .inl (same.symm.trans present)
      | @written place written here now =>
          obtain rfl := Option.some.inj (now.symm.trans present)
          exact .inr ⟨place, rfl⟩
      | removed gone =>
          simp [gone] at present

/-- A record that is gone was gone before, or the operation removed it. -/
theorem removed_or_before
    (step : System.Step c (.call pid op answer) c')
    {id : String}
    (absent : World.state? c'.world id = none) :
    World.state? c.world id = none ∨ Removes id (.call pid op answer) := by
  have answered := step.call_inv.2.1
  cases op with
  | returned ok =>
      obtain same : c.world = c'.world := Option.some.inj answered
      exact .inl (same ▸ absent)
  | act op =>
      cases World.stateChange_of_answer answered id with
      | none same =>
          exact .inl (same.symm.trans absent)
      | written here now =>
          simp [now] at absent
      | @removed removal gone =>
          cases removal with
          | removed => exact .inr ⟨pid, _, rfl, .inl rfl⟩
          | failed stateGone e =>
              cases stateGone with
              | true => exact .inr ⟨pid, _, rfl, .inr ⟨e, rfl⟩⟩
              | false =>
                  obtain same : c.world = c'.world := Option.some.inj answered
                  exact .inl (same ▸ absent)

/-- The other calls are under way as before. -/
theorem underWay_other
    (step : System.Step c (.call pid op answer) c')
    {other : Pid}
    (different : other ≠ pid)
    (underWay : UnderWay (.call pid op answer :: past) c' other) :
    UnderWay past c other := by
  obtain ⟨⟨op', answer', member⟩, op'', next, running⟩ := underWay
  have same := step.call_inv.2.2 other different nofun
  refine ⟨⟨op', answer', ?_⟩, op'', next, same ▸ running⟩
  rcases List.mem_cons.mp member with now | before
  · injection now with samePid
    exact absurd samePid different
  · exact before

private theorem underWay_self
    (step : System.Step c (.call pid op answer) c')
    (begun : Begun past pid) :
    UnderWay past c pid := by
  obtain ⟨⟨next, ready, _⟩, _⟩ := step.call_inv
  exact ⟨begun, op, next, ready⟩

/-- A write is the write of a call of `create` that has cleared its name. -/
theorem write_inv
    (inv : Inv calls past c)
    (required : (viewOf calls past pid).requires op)
    {written : ContainerState}
    {place : SavePoint}
    (writes : (.call pid op answer : office.Event) =
      .call pid (.act (.writeState place written)) (.ok ())) :
    ∃ st, calls pid = some (.create st) ∧ written.id = st.id ∧
      written.name = st.name ∧ Cleared st (viewOf calls past pid).trace := by
  injection writes with _ isWrite
  subst isWrite
  obtain ⟨st, call, sameId, sameName, cleared⟩ := required
  exact ⟨st, (inv.call pid).symm.trans call, sameId, sameName, cleared⟩

private theorem Clash.symm
    {a b : ContainerState}
    (clash : Clash a b) :
    Clash b a := by
  rcases clash with sameId | ⟨name, aNamed, bNamed⟩
  · exact .inl sameId.symm
  · exact .inr ⟨name, bNamed, aNamed⟩

/-- Calls that clash are not under way together. -/
theorem Inv.call_apart
    (inv : Inv calls past c)
    (step : System.Step c (.call pid op answer) c')
    (orderly : Orderly calls past c (.call pid op answer)) :
    ∀ p q a b, p ≠ q → calls p = some (.create a) →
      calls q = some (.create b) → Clash a b →
      UnderWay (.call pid op answer :: past) c' p →
      ¬ UnderWay (.call pid op answer :: past) c' q := by
  -- the call that moves, against one that does not
  have against : ∀ q a b, q ≠ pid → calls pid = some (.create a) →
      calls q = some (.create b) → Clash a b → ¬ UnderWay past c q := by
    intro q a b different creates creates' clash
    by_cases begun : Begun past pid
    · exact inv.apart pid q a b different.symm creates creates' clash
        (underWay_self step begun)
    · exact orderly.apart pid op answer rfl begun a q b creates creates'
        different clash
  intro p q a b different creates creates' clash first second
  by_cases moves : p = pid
  · subst moves
    exact against q a b different.symm creates creates' clash
      (underWay_other step different.symm second)
  · have firstBefore := underWay_other step moves first
    by_cases moves' : q = pid
    · subst moves'
      exact against p b a moves creates' creates clash.symm firstBefore
    · exact inv.apart p q a b different creates creates' clash firstBefore
        (underWay_other step moves' second)

/-- What a call has seen stays what the store shows of a rival. -/
theorem Inv.call_seen
    (inv : Inv calls past c)
    (step : System.Step c (.call pid op answer) c')
    (required : (viewOf calls past pid).requires op)
    (orderly : Orderly calls past c (.call pid op answer))
    {p : Pid}
    {st rival : ContainerState}
    {name : String}
    (creates : calls p = some (.create st))
    (named : st.name = some name)
    (underWay : UnderWay (.call pid op answer :: past) c' p)
    (present : World.state? c'.world rival.id = some rival)
    (rivalNamed : rival.name = some name)
    (different : rival.id ≠ st.id) :
    Shows rival.id name
      (viewOf calls (.call pid op answer :: past) p).trace := by
  by_cases moves : p = pid
  · subst moves
    have presentBefore : World.state? c.world rival.id = some rival := by
      rcases record_before step present with before | ⟨place, writes⟩
      · exact before
      · obtain ⟨st', creates', sameId, _, _⟩ := write_inv inv required writes
        obtain rfl : st = st' := by
          simpa using creates.symm.trans creates'
        exact absurd sameId different
    have before : Shows rival.id name (viewOf calls past p).trace := by
      by_cases begun : Begun past p
      · exact inv.seen p st name creates named (underWay_self step begun) rival
          presentBefore rivalNamed different
      · rw [inv.fresh p begun]
        exact .nil _ _
    rw [viewOf_self]
    cases op with
    | returned ok => exact before
    | act op =>
        refine before.answer presentBefore rivalNamed step.call_inv.2.1 ?_
        intro id e failed
        obtain ⟨rfl, same⟩ := Sigma.mk.inj failed
        obtain rfl := eq_of_heq same
        exact orderly.readable p id e rfl
  · have underWayBefore := underWay_other step moves underWay
    rw [viewOf_other op answer moves]
    rcases record_before step present with before | ⟨place, writes⟩
    · exact inv.seen p st name creates named underWayBefore rival before
        rivalNamed different
    · -- the writer clashes with a call that is under way
      obtain ⟨st', creates', _, sameName, cleared⟩ := write_inv inv required writes
      have clash : Clash st st' :=
        .inr ⟨name, named, sameName.symm.trans rivalNamed⟩
      have writer := underWay_self step (begun_of_trace inv cleared.id)
      exact absurd writer
        (inv.apart p pid st st' moves creates creates' clash underWayBefore)

/-- The names stay unique. -/
theorem Inv.call_unique
    (inv : Inv calls past c)
    (step : System.Step c (.call pid op answer) c')
    (required : (viewOf calls past pid).requires op) :
    UniqueNames c'.world := by
  -- a record that is written has no rival in the store
  have alone : ∀ written place rival name,
      (.call pid op answer : office.Event) =
        .call pid (.act (.writeState place written)) (.ok ()) →
      written.name = some name → World.state? c.world rival.id = some rival →
      rival.name = some name → written.id = rival.id := by
    intro written place rival name writes named present rivalNamed
    obtain ⟨st, creates, sameId, sameName, cleared⟩ := write_inv inv required writes
    by_contra different
    have shows := inv.seen pid st name creates (sameName.symm.trans named)
      (underWay_self step (begun_of_trace inv cleared.id)) rival present
      rivalNamed fun same => different (sameId.trans same.symm)
    exact cleared.not_shows (sameName.symm.trans named) shows
  intro a b name aPresent bPresent aNamed bNamed
  rcases record_before step aPresent with aBefore | ⟨place, aWrites⟩
  · rcases record_before step bPresent with bBefore | ⟨place, bWrites⟩
    · exact inv.unique a b name aBefore bBefore aNamed bNamed
    · exact (alone b place a name bWrites bNamed aBefore aNamed).symm
  · rcases record_before step bPresent with bBefore | ⟨place', bWrites⟩
    · exact alone a place b name aWrites aNamed bBefore bNamed
    · obtain ⟨st, creates, sameId, _, _⟩ := write_inv inv required aWrites
      obtain ⟨st', creates', sameId', _, _⟩ := write_inv inv required bWrites
      obtain rfl : st = st' := by
        simpa using creates.symm.trans creates'
      exact sameId.trans sameId'.symm

/-- A record that was written and is gone was removed since. -/
theorem Inv.call_present
    (inv : Inv calls past c)
    (step : System.Step c (.call pid op answer) c')
    {p : Pid}
    {id : String}
    {event : office.Event}
    {older : List office.Event}
    (writes : Writes p id event)
    (suffix : event :: older <:+ .call pid op answer :: past)
    (absent : World.state? c'.world id = none) :
    RemovedSince id (event :: older) (.call pid op answer :: past) := by
  rcases List.suffix_cons_iff.mp suffix with same | before
  · obtain ⟨rfl, rfl⟩ := List.cons.inj same
    obtain ⟨place, st, rfl, isWrite⟩ := writes
    injection isWrite with _ isWrite sameAnswer
    subst isWrite
    obtain rfl := eq_of_heq sameAnswer
    have written : World.putState c.world st = c'.world :=
      Option.some.inj step.call_inv.2.1
    have here : World.state? c'.world st.id = some st :=
      written ▸ World.state?_putState_same c.world st
    simp [here] at absent
  · rcases removed_or_before step absent with absentBefore | removes
    · exact (inv.present p id event older writes before absentBefore).mono
        (List.suffix_cons _ _)
    · exact ⟨_, past, List.suffix_rfl, before, removes⟩

/-- A call that found the id free found it free after every removal of what
others wrote. -/
theorem Inv.call_renewed
    (inv : Inv calls past c)
    (step : System.Step c (.call pid op answer) c')
    (required : (viewOf calls past pid).requires op)
    {p other : Pid}
    {st : ContainerState}
    {event : office.Event}
    {older : List office.Event}
    (creates : calls p = some (.create st))
    (underWay : UnderWay (.call pid op answer :: past) c' p)
    (found : ⟨.stateExists st.id, false⟩ ∈
      (viewOf calls (.call pid op answer :: past) p).trace)
    (writes : Writes other st.id event)
    (suffix : event :: older <:+ .call pid op answer :: past)
    (different : other ≠ p) :
    RemovedSince st.id (event :: older) (.call pid op answer :: past) := by
  rcases List.suffix_cons_iff.mp suffix with same | before
  · -- a write for the id while the call is under way
    obtain ⟨rfl, rfl⟩ := List.cons.inj same
    obtain ⟨place, written, sameId, isWrite⟩ := writes
    obtain rfl : pid = other := by
      injection isWrite
    obtain ⟨st', creates', sameId', _, cleared⟩ := write_inv inv required isWrite
    have clash : Clash st st' := .inl (sameId.symm.trans sameId')
    exact absurd (underWay_self step (begun_of_trace inv cleared.id))
      (inv.apart p pid st st' different.symm creates creates' clash
        (underWay_other step different.symm underWay))
  · suffices removed : RemovedSince st.id (event :: older) past from
      removed.mono (List.suffix_cons _ _)
    by_cases moves : p = pid
    · subst moves
      rw [viewOf_self] at found
      have foundBefore : ∀ member : (⟨.stateExists st.id, false⟩ :
          (op : Op) × Ans op) ∈ (viewOf calls past p).trace,
          RemovedSince st.id (event :: older) past :=
        fun member => inv.renewed p st creates
          (underWay_self step (begun_of_trace inv member)) member other event
          older writes before different
      cases op with
      | returned ok => exact foundBefore found
      | act op =>
          rcases List.mem_cons.mp found with now | member
          · obtain ⟨rfl, same⟩ := Sigma.mk.inj now
            obtain rfl := eq_of_heq same
            have answered := step.call_inv.2.1
            simp only [office, World.answer, World.provided_eq_some] at answered
            have absent : World.state? c.world st.id = none := by
              simpa using answered.1
            exact inv.present other st.id event older writes before absent
          · exact foundBefore member
    · rw [viewOf_other op answer moves] at found
      exact inv.renewed p st creates (underWay_other step moves underWay) found
        other event older writes before different

/-- Between the writes of two calls for one id it was removed. -/
theorem Inv.call_once
    (inv : Inv calls past c)
    (step : System.Step c (.call pid op answer) c')
    (required : (viewOf calls past pid).requires op)
    {p q : Pid}
    {id : String}
    {event event' : office.Event}
    {earlier older : List office.Event}
    (different : p ≠ q)
    (writes' : Writes q id event')
    (suffix' : event' :: earlier <:+ .call pid op answer :: past)
    (writes : Writes p id event)
    (suffix : event :: older <:+ earlier) :
    RemovedSince id (event :: older) earlier := by
  rcases List.suffix_cons_iff.mp suffix' with same | before
  · obtain ⟨rfl, rfl⟩ := List.cons.inj same
    obtain ⟨place, written, rfl, isWrite⟩ := writes'
    obtain rfl : pid = q := by
      injection isWrite
    obtain ⟨st, creates, sameId, _, cleared⟩ := write_inv inv required isWrite
    rw [sameId] at writes ⊢
    exact inv.renewed pid st creates
      (underWay_self step (begun_of_trace inv cleared.id)) cleared.id p event
      older writes suffix different
  · exact inv.once p q id event event' earlier older different writes' before
      writes suffix

/-- An operation keeps the invariant. -/
theorem Inv.after_call
    (inv : Inv calls past c)
    (step : System.Step c (.call pid op answer) c')
    (required : (viewOf calls past pid).requires op)
    (orderly : Orderly calls past c (.call pid op answer)) :
    Inv calls (.call pid op answer :: past) c' where
  call p := by
    by_cases moves : p = pid
    · subst moves
      rw [viewOf_self, ← inv.call p]
      cases op <;> rfl
    · rw [viewOf_other op answer moves]
      exact inv.call p
  fresh p notBegun := by
    have different : p ≠ pid := by
      rintro rfl
      exact notBegun ⟨op, answer, List.mem_cons_self⟩
    rw [viewOf_other op answer different]
    exact inv.fresh p fun begun => notBegun (begun_mono begun)
  apart := inv.call_apart step orderly
  unique := inv.call_unique step required
  seen _ _ _ creates named underWay _ present rivalNamed different :=
    inv.call_seen step required orderly creates named underWay present
      rivalNamed different
  present _ _ _ _ writes suffix absent :=
    inv.call_present step writes suffix absent
  renewed _ _ creates underWay found _ _ _ writes suffix different :=
    inv.call_renewed step required creates underWay found writes suffix different
  once _ _ _ _ _ _ _ different writes' suffix' writes suffix :=
    inv.call_once step required different writes' suffix' writes suffix

/-! ### Whole runs -/

/-- What no call does leaves the records alone and lets no call begin. -/
theorem Inv.unseen
    {event : office.Event}
    (inv : Inv calls past c)
    (notCall : ∀ pid op answer, event ≠ .call pid op answer)
    (views : ∀ pid, viewOf calls (event :: past) pid = viewOf calls past pid)
    (states : World.states c'.world = World.states c.world)
    (processes : ∀ pid p, c'.process pid = some p → c.process pid = some p) :
    Inv calls (event :: past) c' := by
  have sameState := World.state?_congr states
  have begunBefore : ∀ pid, Begun (event :: past) pid → Begun past pid := by
    rintro pid ⟨op, answer, member⟩
    rcases List.mem_cons.mp member with now | before
    · exact absurd now.symm (notCall pid op answer)
    · exact ⟨op, answer, before⟩
  have underWayBefore : ∀ pid, UnderWay (event :: past) c' pid →
      UnderWay past c pid := by
    rintro pid ⟨begun, op, next, running⟩
    exact ⟨begunBefore pid begun, op, next, processes pid _ running⟩
  have writtenBefore : ∀ {pid id e older}, Writes pid id e →
      e :: older <:+ event :: past → e :: older <:+ past := by
    rintro pid id e older ⟨place, st, _, rfl⟩ suffix
    rcases List.suffix_cons_iff.mp suffix with same | before
    · exact absurd (List.cons.inj same).1.symm (notCall _ _ _)
    · exact before
  refine ⟨?_, ?_, ?_, ?_, ?_, ?_, ?_, ?_⟩
  · intro pid
    rw [views]
    exact inv.call pid
  · intro pid notBegun
    rw [views]
    exact inv.fresh pid fun begun => notBegun (begun_mono begun)
  · intro p q a b different creates creates' clash first second
    exact inv.apart p q a b different creates creates' clash
      (underWayBefore p first) (underWayBefore q second)
  · intro a b name aPresent bPresent
    rw [sameState] at aPresent bPresent
    exact inv.unique a b name aPresent bPresent
  · intro pid st name creates named underWay rival present
    rw [sameState] at present
    rw [views]
    exact inv.seen pid st name creates named (underWayBefore pid underWay) rival
      present
  · intro pid id e older writes suffix absent
    rw [sameState] at absent
    exact (inv.present pid id e older writes (writtenBefore writes suffix)
      absent).mono (List.suffix_cons _ _)
  · intro pid st creates underWay found other e older writes suffix different
    rw [views] at found
    exact (inv.renewed pid st creates (underWayBefore pid underWay) found other e
      older writes (writtenBefore writes suffix) different).mono
        (List.suffix_cons _ _)
  · intro p q id e e' earlier older different writes' suffix' writes suffix
    exact inv.once p q id e e' earlier older different writes'
      (writtenBefore writes' suffix') writes suffix

private theorem disciplined
    (w : World)
    (calls : Pid → Option Call)
    (allowed : List office.Event → office.Config → office.Event → Prop) :
    System.Disciplined (S := office) steps (fun _ _ => { call := none })
      (fun pid => { call := calls pid }) allowed (opening w calls) where
  initially := by
    intro pid p running
    obtain ⟨call, isCall, rfl⟩ := Option.map_eq_some_iff.mp running
    rw [isCall]
    cases call with
    | create st => exact create_follows st
    | remove id => exact remove_follows id
  started := by
    intro op answer child p started
    exact nomatch started
  answers := fun _ _ _ _ _ _ _ _ => trivial

variable {w : World}

private theorem inv_of_run
    (unique : UniqueNames w)
    (run : System.Run (Orderly calls) (opening w calls) past c) :
    Inv calls past c := by
  refine run.invariant ?_ ?_
  · have nobody : ∀ pid, ¬ UnderWay [] (opening w calls) pid := by
      rintro pid ⟨⟨op, answer, member⟩, _⟩
      simp at member
    refine ⟨fun _ => rfl, fun _ _ => rfl, ?_, unique, ?_, ?_, ?_, ?_⟩
    · intro p q a b _ _ _ _ underWay
      exact absurd underWay (nobody p)
    · intro pid st name _ _ underWay
      exact absurd underWay (nobody pid)
    · intro pid id e older _ suffix
      simp at suffix
    · intro pid st _ underWay
      exact absurd underWay (nobody pid)
    · intro p q id e e' earlier older _ _ suffix
      simp at suffix
  · intro past c c' event before inv step orderly
    cases event with
    | call pid op answer =>
        exact inv.after_call step
          (before.requires (disciplined w calls _) step) orderly
    | happen what =>
        refine inv.unseen (by simp) (fun _ => rfl)
          ?_ ?_
        · cases step with
          | happen happened => exact World.happen_states happened
        · cases step with
          | happen happened => exact fun _ _ running => running
    | kill pid =>
        refine inv.unseen (by simp) (fun _ => rfl)
          ?_ ?_
        · rw [step.kill_inv.1]
          rfl
        · cases step with
          | kill alive =>
              exact fun _ _ running => System.Config.process_after_kill running

/-- What a call has seen are its events. -/
theorem mem_of_trace
    {pid : Pid}
    {op : Op}
    {answer : Ans op}
    (member : ⟨op, answer⟩ ∈ (viewOf calls past pid).trace) :
    .call pid (.act op) answer ∈ past := by
  induction past with
  | nil =>
      simp [viewOf, System.views] at member
  | cons event past inductionHypothesis =>
      cases event with
      | call p o a =>
          by_cases moves : pid = p
          · subst moves
            rw [viewOf_self] at member
            cases o with
            | returned ok =>
                exact List.mem_cons_of_mem _ (inductionHypothesis member)
            | act o =>
                rcases List.mem_cons.mp member with now | before
                · obtain ⟨rfl, same⟩ := Sigma.mk.inj now
                  obtain rfl := eq_of_heq same
                  exact List.mem_cons_self
                · exact List.mem_cons_of_mem _ (inductionHypothesis before)
          · rw [viewOf_other o a moves] at member
            exact List.mem_cons_of_mem _ (inductionHypothesis member)
      | happen what => exact List.mem_cons_of_mem _ (inductionHypothesis member)
      | kill p => exact List.mem_cons_of_mem _ (inductionHypothesis member)

/-- A call that returned `Ok` wrote its record. -/
theorem written_of_returned
    (unique : UniqueNames w)
    (run : System.Run (Orderly calls) (opening w calls) past c)
    {p : Pid}
    {st : ContainerState}
    (creates : calls p = some (.create st))
    (returned : .call p (.returned true) () ∈ past) :
    ∃ event ∈ past, Writes p st.id event := by
  obtain ⟨newer, earlier, rfl⟩ := List.append_of_mem returned
  have suffix := List.suffix_append newer (.call p (.returned true) () :: earlier)
  obtain ⟨c₁, c₂, reached, step⟩ := run.step_at suffix
  have required : (viewOf calls earlier p).requires (.returned true) :=
    reached.requires (disciplined w calls _) step
  have call := (inv_of_run unique reached).call p
  obtain ⟨written, sameId, member⟩ := required st (call.trans creates)
  refine ⟨_, ?_, .create, written, sameId, rfl⟩
  exact List.mem_append_right _ (List.mem_cons_of_mem _ (mem_of_trace member))

/-- Names and ids stay unique when calls for one name or one id do not
overlap. -/
theorem names_and_ids_unique
    (w : World)
    (calls : Pid → Option Call)
    (unique : UniqueNames w)
    (past : List office.Event)
    (c : office.Config)
    (run : System.Run (Orderly calls) (opening w calls) past c) :
    UniqueNames c.world ∧ CreatedOnce calls past := by
  have inv := inv_of_run unique run
  refine ⟨inv.unique, ?_, ?_⟩
  · intro p st creates returned
    exact written_of_returned unique run creates returned
  · intro p q id event event' older earlier different writes writes' before suffix
    exact inv.once p q id event event' earlier older different writes' suffix
      writes before

end Runs

/-! ## Calls that overlap -/

/-- A container to be created. -/
def requested (id name : String) : ContainerState :=
  .new 1 { id, name := some name }

/-- Two calls that ask for the same name. -/
def sameName : Pid → Option Call := fun pid =>
  if pid = 7 then some (.create (requested "a1" "web"))
  else if pid = 8 then some (.create (requested "b2" "web"))
  else none

/-- A host on which nothing fails. -/
def usual (w : World) : (op : CallOp) → Option (CallAns op)
  | .act op => w.usual 7 8 op
  | .returned _ => some ()

/-- Both calls look for the name before either of them writes its record. -/
def overlapping : List (System.Turn office) :=
  List.replicate 3 (.go (7 : Pid) usual) ++ List.replicate 3 (.go (8 : Pid) usual) ++
  List.replicate 6 (.go (7 : Pid) usual) ++ List.replicate 6 (.go (8 : Pid) usual)

/-- Two records in the store have one name. -/
def nameTwice (w : World) : Bool :=
  w.states.any fun a => w.states.any fun b =>
    a.id ≠ b.id && a.name.isSome && a.name = b.name &&
      w.state? a.id = some a && w.state? b.id = some b

private theorem not_unique_of_nameTwice
    {w : World}
    (twice : nameTwice w = true) :
    ¬ UniqueNames w := by
  intro unique
  simp only [nameTwice, List.any_eq_true, Bool.and_eq_true, decide_eq_true_eq,
    Option.isSome_iff_exists] at twice
  obtain ⟨a, _, b, _, ⟨⟨⟨different, name, named⟩, sameName⟩, aPresent⟩, bPresent⟩ :=
    twice
  exact different
    (unique a b name aPresent bPresent named (sameName.symm.trans named))

theorem overlapping_calls_share_name :
    ∃ past c,
      System.Run (fun _ _ _ => True) (opening {} sameName) past c ∧
        ¬ UniqueNames c.world := by
  have played : ((opening {} sameName).play [] overlapping).any
      (fun outcome => nameTwice outcome.2.world) = true := by
    decide +kernel
  obtain ⟨⟨past, c⟩, isPlayed, twice⟩ := (Option.any_eq_true _ _).mp played
  exact ⟨past, c, System.Config.run_of_play_start isPlayed,
    not_unique_of_nameTwice twice⟩

/-- Two calls that ask for different names, and a removal. -/
def differentNames : Pid → Option Call := fun pid =>
  if pid = 7 then some (.create (requested "a1" "web"))
  else if pid = 8 then some (.create (requested "b2" "db"))
  else if pid = 9 then some (.remove "a1")
  else none

/-- A read that fails. -/
def failedRead : office.Event → Bool
  | .call _ (.act (.readState _)) (.error _) => true
  | _ => false

private theorem differentNames_apart
    {p q : Pid}
    {a b : ContainerState}
    (different : q ≠ p)
    (creates : differentNames p = some (.create a))
    (creates' : differentNames q = some (.create b)) :
    ¬ Clash a b := by
  have either : ∀ {r : Pid} {st}, differentNames r = some (.create st) →
      r = 7 ∧ st = requested "a1" "web" ∨ r = 8 ∧ st = requested "b2" "db" := by
    intro r st creates
    unfold differentNames at creates
    split at creates
    · rename_i isSeven
      exact .inl ⟨isSeven, by simpa using creates.symm⟩
    · split at creates
      · rename_i isEight
        exact .inr ⟨isEight, by simpa using creates.symm⟩
      · split at creates <;> simp at creates
  rcases either creates with ⟨rfl, rfl⟩ | ⟨rfl, rfl⟩ <;>
    rcases either creates' with ⟨rfl, rfl⟩ | ⟨rfl, rfl⟩
  · exact absurd rfl different
  · simp [Clash, requested, ContainerState.new]
  · simp [Clash, requested, ContainerState.new]
  · exact absurd rfl different

theorem different_names_stay_unique :
    UniqueNames {} ∧ ∃ past c,
      System.Run (Orderly differentNames) (opening {} differentNames) past c ∧
        UniqueNames c.world ∧ CreatedOnce differentNames past := by
  have empty : UniqueNames {} := by
    intro a b name present
    simp [World.state?] at present
  refine ⟨empty, ?_⟩
  have played : ((opening {} differentNames).play []
      (overlapping ++ List.replicate 2 (.go (9 : Pid) usual))).any
      (fun outcome => outcome.1.all fun event => !failedRead event) = true := by
    decide +kernel
  obtain ⟨⟨past, c⟩, isPlayed, readable⟩ := (Option.any_eq_true _ _).mp played
  have noFailedRead : ∀ event ∈ past, failedRead event = false := by
    simpa using readable
  have restricted : System.Run (fun _ _ event => failedRead event = false)
      (opening {} differentNames) past c := by
    refine (System.Config.run_of_play_start isPlayed).restrict ?_
    intro event earlier suffix
    exact noFailedRead event (suffix.subset List.mem_cons_self)
  have run : System.Run (Orderly differentNames) (opening {} differentNames)
      past c := by
    refine restricted.mono ?_
    intro past c event reads
    refine ⟨?_, ?_⟩
    · intro pid op answer _ _ st other st' creates creates' different clash
      exact absurd clash (differentNames_apart different creates creates')
    · rintro pid id e rfl
      simp [failedRead] at reads
  exact ⟨past, c, run, names_and_ids_unique {} differentNames empty past c run⟩

end Creation

end Myrun
