import Myrun.Cleanup
import Myrun.Records

namespace Myrun

/-!
# Garbage collection

One run of `gc` with no other command beside it; the host may change by itself
before every operation.  Whatever was left on the host by whatever happened
before: when `gc` returns, every lease and every interface is that of a
container whose record is live, and so is every cgroup that was empty.  And of a
container whose record is live, `gc` takes nothing.
-/

namespace Reclaim

open Prog Cleanup

/-! ## One operation of a process that is alone -/

/-- What the host does by itself. -/
abbrev Settles : World → World → Prop :=
  Relation.ReflTransGen fun w w' => ∃ what, w.happen what = some w'

/-- A restriction on the answers of the host. -/
abbrev Restriction : Type :=
  World → (op : Op) → Ans op → Prop

/-- One operation, after whatever the host does by itself. -/
def step (C : Restriction) (self : Pid) (w : World) (op : Op) (answer : Ans op)
    (w' : World) : Prop :=
  ∃ now, Settles w now ∧ C now op answer ∧ now.answer self op answer = some w'

/-- A state file that is there can be read. -/
def Readable : Restriction
  | w, .readState id, .error _ => w.state? id = none
  | _, _, _ => True

/-- What cleaning up relies on besides.  The preparations of a step succeed, and
so do listing the cgroups below a directory, listing the interfaces and looking
one up; releasing leases and deleting an interface succeed; a directory that is
there is removed unless a process is in it; and the kernel lists no process in a
cgroup that is empty. -/
def Cooperates : Restriction
  | w, .readState id, .error _ => w.state? id = none
  | _, .host (.prepare _), .error _ => False
  | _, .host (.subdirs _), .error _ => False
  | w, .host (.removeEmptyDir path), .busy => w.populated path = true
  | w, .host (.removeEmptyDir path), .failed _ => path ∉ w.dirs
  | w, .host (.readText path), .ok text =>
      ∀ dir, path = joinPath dir "cgroup.procs" → w.populated dir = false →
        text = ""
  | _, .host (.leaseGc _), .error _ => False
  | _, .host (.leaseRelease _), .error _ => False
  | _, .host .listLinks, .error _ => False
  | _, .host (.linkIndex _), .error _ => False
  | _, .host (.deleteLink _), .error _ => False
  | _, _, _ => True

/-- A host that cooperates can be read. -/
private theorem Cooperates.readable
    {w : World}
    {op : Op}
    {answer : Ans op}
    (cooperates : Cooperates w op answer) :
    Readable w op answer := by
  cases op with
  | readState id =>
      cases answer with
      | ok st => trivial
      | error e => exact cooperates
  | _ => trivial

/-- The record of the container is there and live. -/
def Live (w : World) (id : String) : Prop :=
  ∃ st, w.state? id = some st ∧ st.status.isLive = true

/-- The cgroup of a container, given where the hierarchy is mounted. -/
def cgroupPath (mount id : String) : String :=
  joinPath (joinPath mount Cgroup.baseName) id

/-! ## What is kept for one container -/

/-- The resources of a container are still there.  An interface whose other end
is in the namespace of an init process goes when that process does. -/
structure Kept (mount id : String) (w w' : World) : Prop where
  lease : ∀ lease ∈ w.leases.entries, lease.id = id → lease ∈ w'.leases.entries
  cgroup : cgroupPath mount id ∈ w.dirs → cgroupPath mount id ∈ w'.dirs
  link : ∀ link ∈ w.links, link.name = hostVeth id → link.peer = none →
    (∀ pid, link.peerIn = some pid → w'.initAlive pid = true) → link ∈ w'.links

/-- No two interfaces have the same index. -/
def Indexed (w : World) : Prop :=
  (w.links.map Link.index).Nodup

namespace Kept

variable {mount id : String} {w w' w'' : World}

/-- What is there at first is kept. -/
private theorem refl : Kept mount id w w where
  lease := fun _ member _ => member
  cgroup := fun member => member
  link := fun _ member _ _ _ => member

/-- What is kept twice is kept. -/
private theorem trans
    (first : Kept mount id w w')
    (second : Kept mount id w' w'')
    (shrinks : Shrinks w' w'') :
    Kept mount id w w'' where
  lease := fun lease member own => second.lease lease (first.lease lease member own) own
  cgroup := fun member => second.cgroup (first.cgroup member)
  link := fun link member named alone alive =>
    second.link link
      (first.link link member named alone fun pid there =>
        shrinks.alive pid (alive pid there)) named alone alive

/-- The same resources are kept. -/
private theorem of_same
    (same : Same w w') :
    Kept mount id w w' where
  lease := fun lease member _ => by rw [same.leases]; exact member
  cgroup := fun member => by rw [same.dirs]; exact member
  link := fun link member _ _ _ => by rw [same.links]; exact member

/-- An interface goes with the process that holds its other end, not before. -/
theorem of_happen
    (indexed : Indexed w)
    {what : World.Happening}
    (happened : w.happen what = some w') :
    Kept mount id w w' := by
  cases what with
  | initDies pid =>
      obtain rfl := Option.some.inj happened
      exact
        { lease := fun _ member _ => member
          cgroup := fun member => member
          link := fun _ member _ _ _ => member }
  | linkVanishes index =>
      simp only [World.happen] at happened
      split at happened
      · rename_i orphaned
        obtain rfl := Option.some.inj happened
        refine
          { lease := fun _ member _ => member
            cgroup := fun member => member
            link := ?_ }
        intro link member _ alone alive
        refine List.mem_filter.mpr ⟨member, ?_⟩
        obtain ⟨other, isLink, dead⟩ := List.any_eq_true.mp orphaned
        simp only [Bool.and_eq_true, decide_eq_true_eq] at dead
        have different : link.index ≠ index := by
          intro same
          obtain rfl : other = link :=
            List.inj_on_of_nodup_map indexed isLink member (dead.1.trans same.symm)
          obtain ⟨pid, there, isDead⟩ := (Option.any_eq_true _ _).mp dead.2
          have stillAlive : w.initAlive pid = true := alive pid there
          rw [stillAlive] at isDead
          cases isDead
        simp [different, alone]
      · cases happened

end Kept

/-! ## Operations that leave the records alone -/

/-- An operation that takes nothing of one container; deleting an interface is
looked at where it happens. -/
def Spares (mount own : String) : HostOp → Prop
  | .removeEmptyDir path => path ≠ cgroupPath mount own
  | .leaseRelease id => id ≠ own
  | .leaseGc liveIds => own ∈ liveIds
  | .deleteLink _ => False
  | op => Removing op

/-- An ordinary operation spares every container. -/
private theorem spares_of_ordinary
    {mount own : String}
    (op : HostOp)
    (plain : Ordinary op) :
    Spares mount own op := by
  cases op <;> first | exact plain | exact plain.elim

/-- An operation that spares the container keeps its resources. -/
private theorem kept_of_hostAnswer
    {mount own : String}
    {w w' : World}
    {op : HostOp}
    {answer : HostAns op}
    (spares : Spares mount own op)
    (answered : w.hostAnswer op answer = some w') :
    Kept mount own w w' := by
  by_cases plain : Ordinary op
  · exact .of_same (same_of_hostAnswer plain answered)
  cases op with
  | removeEmptyDir path =>
      cases answer with
      | removed =>
          simp only [World.hostAnswer] at answered
          split at answered
          · cases answered
          · obtain rfl := Option.some.inj answered
            exact
              { lease := fun _ member _ => member
                cgroup := fun member =>
                  List.mem_filter.mpr ⟨member, decide_eq_true spares.symm⟩
                link := fun _ member _ _ _ => member }
      | busy =>
          obtain rfl := Option.some.inj answered
          exact .refl
      | failed e =>
          obtain rfl := Option.some.inj answered
          exact .refl
  | leaseRelease id =>
      cases answer with
      | error e =>
          obtain rfl := Option.some.inj answered
          exact .refl
      | ok u =>
          obtain rfl := Option.some.inj answered
          refine
            { lease := ?_
              cgroup := fun member => member
              link := fun _ member _ _ _ => member }
          rintro lease member rfl
          exact List.mem_filter.mpr ⟨member, decide_eq_true spares.symm⟩
  | leaseGc liveIds =>
      cases answer with
      | error e =>
          obtain rfl := Option.some.inj answered
          exact .refl
      | ok removed =>
          simp only [World.hostAnswer] at answered
          split at answered
          · obtain rfl := Option.some.inj answered
            refine
              { lease := ?_
                cgroup := fun member => member
                link := fun _ member _ _ _ => member }
            rintro lease member rfl
            exact List.mem_filter.mpr ⟨member, decide_eq_true spares⟩
          · cases answered
  | _ => exact absurd spares plain

/-- The records are the same, no resource is new, and if `P` then nothing of
`own` is gone. -/
structure Quiet (P : Prop) (mount own : String) (w w' : World) : Prop where
  shrinks : Shrinks w w'
  states : w'.states = w.states
  kept : P → Indexed w → Kept mount own w w'

/-- The indices stay below the next one when interfaces go. -/
private theorem Indexed.shrinks
    {w w' : World}
    (indexed : Indexed w)
    (shrinks : Shrinks w w') :
    Indexed w' :=
  indexed.sublist (shrinks.links.map _)

section Quiet

variable {P : Prop} {mount own : String} {w w' w'' : World}

/-- Nothing has changed at first. -/
theorem Quiet.refl : Quiet P mount own w w where
  shrinks := .refl w
  states := rfl
  kept := fun _ _ => .refl

/-- Quiet changes in sequence are quiet. -/
private theorem Quiet.trans
    (first : Quiet P mount own w w')
    (second : Quiet P mount own w' w'') :
    Quiet P mount own w w'' where
  shrinks := first.shrinks.trans second.shrinks
  states := second.states.trans first.states
  kept := fun holds indexed =>
    (first.kept holds indexed).trans
      (second.kept holds (indexed.shrinks first.shrinks)) second.shrinks

/-- A quiet change leaves every record. -/
private theorem Quiet.state?
    (quiet : Quiet P mount own w w')
    (id : String) :
    w'.state? id = w.state? id :=
  World.state?_congr quiet.states id

/-- What happens on its own is quiet. -/
private theorem Quiet.of_settles
    (settles : Settles w w') :
    Quiet P mount own w w' := by
  induction settles with
  | refl => exact .refl
  | tail before happened inductionHypothesis =>
      obtain ⟨what, happened⟩ := happened
      refine inductionHypothesis.trans ?_
      exact
        { shrinks := .of_happen happened
          states := World.happen_states happened
          kept := fun _ indexed => .of_happen indexed happened }

/-- What such an operation on the host may be. -/
def HostAllowed (P : Prop) (mount own : String) (op : HostOp) : Prop :=
  Removing op ∧ (P → Spares mount own op)

/-- What such an operation may be. -/
def Allowed (P : Prop) (mount own : String) : Op → Prop
  | .host op => HostAllowed P mount own op
  | op => Cleaning op ∧ Records.Calm op

/-- An allowed operation is quiet. -/
private theorem Quiet.of_answer
    {self : Pid}
    {op : Op}
    {answer : Ans op}
    (allowed : Allowed P mount own op)
    (answered : w.answer self op answer = some w') :
    Quiet P mount own w w' := by
  cases op with
  | host op =>
      exact
        { shrinks := .of_hostAnswer allowed.1 answered
          states := World.hostAnswer_states answered
          kept := fun holds _ => kept_of_hostAnswer (allowed.2 holds) answered }
  | writeState place st => exact allowed.2.elim
  | removeDir id => exact allowed.2.elim
  | spin => exact answer.elim
  | _ =>
      have same := same_of_answer (fun _ never => by cases never) allowed.1 answered
      refine { shrinks := same.shrinks, states := ?_, kept := fun _ _ => .of_same same }
      all_goals
        (try cases answer) <;>
        simp [World.answer, World.provided_eq_some] at answered <;>
        grind

variable {C : Restriction} {self : Pid} {α : Type}

/-- So is the step of the host that contains it. -/
private theorem Quiet.of_step
    {op : Op}
    {answer : Ans op}
    (allowed : Allowed P mount own op)
    (stepped : step C self w op answer w') :
    Quiet P mount own w w' := by
  obtain ⟨now, settles, _, answered⟩ := stepped
  exact (of_settles settles).trans (of_answer allowed answered)

/-- A program of allowed operations is quiet, whatever it returns. -/
private theorem wp_quiet
    {p : Prog Op Ans α}
    (uses : OnlyUses (Allowed P mount own) p)
    {Q : α → World → Prop}
    (holds : ∀ value w', Quiet P mount own w w' → Q value w') :
    p.wp (.ofStep (step C self)) w Q := by
  induction uses generalizing w with
  | ret value => exact holds value w .refl
  | call allowed rest inductionHypothesis =>
      intro answer w' stepped
      refine inductionHypothesis answer ?_
      intro value w'' quiet
      exact holds value w'' ((Quiet.of_step allowed stepped).trans quiet)

/-- A program that leaves the records alone. -/
theorem wp_act
    {p : Act α}
    (uses : OnlyUses (Allowed P mount own) p.run)
    {ok : α → World → Prop}
    {err : Error → World → Prop}
    (okHolds : ∀ value w', Quiet P mount own w w' → ok value w')
    (errHolds : ∀ e w', Quiet P mount own w w' → err e w') :
    p.wp (.ofStep (step C self)) w ok err := by
  refine wp_quiet uses ?_
  intro result w' quiet
  cases result with
  | ok value => exact okHolds value w' quiet
  | error e => exact errHolds e w' quiet

/-- A program on the host. -/
theorem wp_host
    {p : HostAct α}
    (uses : OnlyUses (HostAllowed P mount own) p.run)
    {ok : α → World → Prop}
    {err : Error → World → Prop}
    (okHolds : ∀ value w', Quiet P mount own w w' → ok value w')
    (errHolds : ∀ e w', Quiet P mount own w w' → err e w') :
    (liftM p : Act α).wp (.ofStep (step C self)) w ok err :=
  wp_act (uses.embed (R := Allowed P mount own) (fun _ allowed => allowed) _)
    okHolds errHolds

/-- Every ordinary operation is allowed. -/
private theorem allowed_of_ordinary
    (op : HostOp)
    (plain : Ordinary op) :
    HostAllowed P mount own op := by
  have spares : Spares mount own op := spares_of_ordinary op plain
  refine ⟨?_, fun _ => spares⟩
  cases op <;> first | exact plain | exact plain.elim

end Quiet

/-! ## Listing the containers -/

section Listing

variable {C : Restriction} {self : Pid} {P : Prop} {mount own : String}
  {w : World}

/-- The entries that are kept are those with a state file. -/
private theorem wp_existing
    (entries : List String)
    {ok : List String → World → Prop}
    {err : Error → World → Prop}
    (okHolds : ∀ w', Quiet P mount own w w' →
      ok (entries.filter fun name => (w.state? name).isSome) w') :
    (Store.existing entries).wp (.ofStep (step C self)) w ok err := by
  induction entries generalizing w ok with
  | nil => exact okHolds w .refl
  | cons entry rest inductionHypothesis =>
      rw [Store.existing, Fallible.wp_bind, Fallible.wp_liftM]
      rintro present w' ⟨now, settles, _, answered⟩
      have before : Quiet P mount own w now := .of_settles settles
      obtain ⟨rfl, rfl⟩ := World.provided_eq_some.mp answered
      refine (Fallible.wp_bind _ _ _ _).mpr
        (inductionHypothesis fun w'' quiet => ?_)
      have same : (rest.filter fun name => (now.state? name).isSome) =
          rest.filter fun name => (w.state? name).isSome := by
        simp only [before.state?]
      have now_eq := okHolds w'' (before.trans quiet)
      rw [Fallible.wp_pure, same, before.state?]
      simpa [List.filter_cons] using now_eq

/-- The names of the containers that have a record. -/
def Names (w : World) (names : List String) : Prop :=
  names.Nodup ∧ ∀ id, id ∈ names ↔ (w.state? id).isSome = true

/-- `ids` returns the ids with a state file. -/
private theorem wp_ids
    {ok : List String → World → Prop}
    {err : Error → World → Prop}
    (okHolds : ∀ names w', Quiet P mount own w w' → Names w names → ok names w')
    (errHolds : ∀ e w', Quiet P mount own w w' → err e w') :
    Store.ids.wp (.ofStep (step C self)) w ok err := by
  rw [Store.ids, Fallible.wp_bind]
  rintro entries w' ⟨now, settles, _, answered⟩
  have before : Quiet P mount own w now := .of_settles settles
  cases entries with
  | error e =>
      obtain rfl := Option.some.inj answered
      exact errHolds e now before
  | ok entries =>
      obtain ⟨rfl, rfl⟩ := World.provided_eq_some.mp answered
      refine (Fallible.wp_bind _ _ _ _).mpr
        (wp_existing _ fun w'' (quiet : Quiet P mount own now w'') => ?_)
      refine okHolds _ w'' (before.trans quiet) ⟨?_, ?_⟩
      · rw [(List.mergeSort_perm _ _).nodup_iff]
        exact (List.nodup_dedup _).filter _
      · intro id
        rw [List.mem_mergeSort, List.mem_filter, List.mem_dedup, before.state?]
        constructor
        · exact And.right
        · intro present
          refine ⟨?_, present⟩
          obtain ⟨st, isState⟩ := Option.isSome_iff_exists.mp present
          rw [← before.state?] at isState
          exact List.mem_map.mpr
            ⟨st, List.mem_of_find?_eq_some isState, World.state?_id isState⟩

/-- Where records can be read, all that are there are returned. -/
private theorem wp_loadAll
    (readable : ∀ {w op answer}, C w op answer → Readable w op answer)
    (names : List String)
    {ok : List ContainerState → World → Prop}
    {err : Error → World → Prop}
    (okHolds : ∀ w', Quiet P mount own w w' → ok (names.filterMap w.state?) w') :
    (Store.loadAll names).wp (.ofStep (step C self)) w ok err := by
  induction names generalizing w ok with
  | nil => exact okHolds w .refl
  | cons name rest inductionHypothesis =>
      rw [Store.loadAll, Fallible.wp_bind, Fallible.wp_attempt]
      rintro loaded w' ⟨now, settles, permitted, answered⟩
      have before : Quiet P mount own w now := .of_settles settles
      have others : ∀ {ok' : List ContainerState → World → Prop},
          now = w' →
          (∀ w'', Quiet P mount own w w'' → ok' (rest.filterMap w.state?) w'') →
          (Store.loadAll rest).wp (.ofStep (step C self)) w' ok' err := by
        rintro ok' rfl holds
        refine inductionHypothesis ?_
        intro w'' quiet
        have same : now.state? = w.state? := funext before.state?
        rw [same]
        exact holds w'' (before.trans quiet)
      cases loaded with
      | error e =>
          have missing : w.state? name = none := by
            rw [← before.state?]
            exact readable permitted
          refine (Fallible.wp_bind _ _ _ _).mpr
            (others (Option.some.inj answered) ?_)
          intro w'' quiet
          have listed := okHolds w'' quiet
          rw [List.filterMap_cons_none missing] at listed
          exact listed
      | ok st =>
          obtain ⟨found, same⟩ := World.provided_eq_some.mp answered
          rw [before.state?] at found
          refine (Fallible.wp_bind _ _ _ _).mpr (others same ?_)
          intro w'' quiet
          have listed := okHolds w'' quiet
          rw [List.filterMap_cons_some found] at listed
          exact listed

/-- The records of all containers, one for each id. -/
structure Listed (w : World) (states : List ContainerState) : Prop where
  distinct : (states.map (·.id)).Nodup
  sound : ∀ st ∈ states, w.state? st.id = some st
  complete : ∀ id st, w.state? id = some st → st ∈ states

/-- The records of the ids with a state file are all records. -/
private theorem Listed.of_names
    {names : List String}
    (known : Names w names)
    {states : List ContainerState}
    (same : states.Perm (names.filterMap w.state?)) :
    Listed w states where
  distinct := by
    rw [(same.map _).nodup_iff]
    have ids : ∀ names : List String, names.Nodup →
        ((names.filterMap w.state?).map (·.id)).Nodup := by
      intro names distinct
      refine List.Nodup.sublist ?_ distinct
      clear distinct
      induction names with
      | nil => exact .slnil
      | cons name rest inductionHypothesis =>
          cases found : w.state? name with
          | none =>
              rw [List.filterMap_cons_none found]
              exact inductionHypothesis.cons name
          | some st =>
              rw [List.filterMap_cons_some found, List.map_cons,
                World.state?_id found]
              exact inductionHypothesis.cons_cons name
    exact ids names known.1
  sound := by
    intro st member
    obtain ⟨name, _, found⟩ := List.mem_filterMap.mp (same.mem_iff.mp member)
    rw [World.state?_id found]
    exact found
  complete := by
    intro id st found
    refine same.mem_iff.mpr (List.mem_filterMap.mpr ⟨id, ?_, found⟩)
    exact (known.2 id).mpr (by simp [found])

/-- Where records can be read, `list` returns all of them. -/
private theorem wp_list
    (readable : ∀ {w op answer}, C w op answer → Readable w op answer)
    {ok : List ContainerState → World → Prop}
    {err : Error → World → Prop}
    (okHolds : ∀ states w', Quiet P mount own w w' → Listed w states →
      ok states w')
    (errHolds : ∀ e w', Quiet P mount own w w' → err e w') :
    Store.list.wp (.ofStep (step C self)) w ok err := by
  rw [Store.list, Fallible.wp_bind]
  refine wp_ids (fun names w' (quiet : Quiet P mount own w w') known => ?_) errHolds
  refine (Fallible.wp_bind _ _ _ _).mpr (wp_loadAll readable names
    fun w'' (later : Quiet P mount own w' w'') => ?_)
  have same : w'.state? = w.state? := funext quiet.state?
  rw [same]
  exact okHolds _ w'' (quiet.trans later)
    (.of_names known (List.mergeSort_perm _ _))

end Listing

/-! ## Deleting interfaces -/

section Interfaces

variable {C : Restriction} {self : Pid} {P : Prop} {mount own : String}
  {w : World} {α : Type}

/-- The same rules for programs on the host. -/
abbrev hostRules (C : Restriction) (self : Pid) : Contract HostOp HostAns World :=
  (Contract.ofStep (step C self)).pull Op.host fun _ answer => answer

/-- A host program inside an action meets the rules of the host. -/
theorem wp_lift
    {p : HostAct α}
    {ok : α → World → Prop}
    {err : Error → World → Prop} :
    (liftM p : Act α).wp (.ofStep (step C self)) w ok err ↔
      p.wp (hostRules C self) w ok err :=
  wp_map _ _ _ _ _

/-- A host program of allowed operations is quiet. -/
private theorem wp_removing
    {p : HostAct α}
    (uses : OnlyUses (HostAllowed P mount own) p.run)
    {ok : α → World → Prop}
    {err : Error → World → Prop}
    (okHolds : ∀ value w', Quiet P mount own w w' → ok value w')
    (errHolds : ∀ e w', Quiet P mount own w w' → err e w') :
    p.wp (hostRules C self) w ok err :=
  wp_lift.mp (wp_host uses okHolds errHolds)

/-- Deleting an interface with another index. -/
theorem kept_of_deleteLink
    {w' : World}
    {index : UInt32}
    {answer : Result Unit}
    (answered : w.hostAnswer (.deleteLink index) answer = some w')
    (other : ∀ link ∈ w.links, link.name = hostVeth own → link.index ≠ index) :
    Kept mount own w w' := by
  cases answer with
  | error e =>
      obtain rfl := Option.some.inj answered
      exact .refl
  | ok u =>
      obtain rfl := Option.some.inj answered
      refine
        { lease := fun _ member _ => member
          cgroup := fun member => member
          link := ?_ }
      intro link member named alone _
      exact List.mem_filter.mpr ⟨member, by simp [other link member named, alone]⟩

/-- Interfaces are told apart by their names. -/
def Named (w : World) : Prop :=
  (w.links.map Link.name).Nodup

/-- Once an interface was found by its name and deleted, no other has the name. -/
theorem missing_of_withoutLink
    (named : Named w)
    {name : String}
    {l : Link}
    (found : w.link? name = some l)
    {link : Link}
    (member : link ∈ (w.withoutLink l.index).links) :
    link.name ≠ name := by
  intro same
  obtain ⟨there, kept⟩ := List.mem_filter.mp member
  have sameName : l.name = name := by simpa using List.find?_some found
  obtain rfl : link = l :=
    List.inj_on_of_nodup_map named there (List.mem_of_find?_eq_some found)
      (same.trans sameName.symm)
  simp at kept

/-- Deleting the interface with a name, once it was looked up. -/
theorem wp_deleteFound
    {name : String}
    (different : P → name ≠ hostVeth own)
    {index : UInt32}
    (found : (w.link? name).map Link.index = some index)
    {ok : Unit → World → Prop}
    {err : Error → World → Prop}
    (okHolds : ∀ w', Quiet P mount own w w' →
      (Named w → ∀ link ∈ w'.links, link.name ≠ name) → ok () w')
    (errHolds : ∀ e now w', Quiet P mount own w w' →
      C now (.host (.deleteLink index)) (.error e) → err e w') :
    (Network.deleteLink index).wp (hostRules C self) w ok err := by
  rintro answer w' ⟨now, settles, permitted, answered⟩
  have before : Quiet P mount own w now := .of_settles settles
  obtain ⟨l, isLink, rfl⟩ := Option.map_eq_some_iff.mp found
  have named : l.name = name := by simpa using List.find?_some isLink
  have removing : Removing (.deleteLink l.index) := trivial
  have deleted : Quiet P mount own w w' :=
    { shrinks := before.shrinks.trans (.of_hostAnswer removing answered)
      states := (World.hostAnswer_states answered).trans before.states
      kept := by
        intro holds indexed
        refine (before.kept holds indexed).trans (kept_of_deleteLink answered ?_)
          (.of_hostAnswer removing answered)
        intro link member isOwn same
        have there := before.shrinks.links.subset member
        obtain rfl : link = l :=
          List.inj_on_of_nodup_map indexed there
            (List.mem_of_find?_eq_some isLink) same
        exact different holds (named.symm.trans isOwn) }
  cases answer with
  | error e => exact errHolds e now w' deleted permitted
  | ok u =>
      refine okHolds w' deleted fun distinct link member => ?_
      obtain rfl := Option.some.inj answered
      obtain ⟨there, kept⟩ := List.mem_filter.mp member
      exact missing_of_withoutLink distinct isLink
        (List.mem_filter.mpr ⟨before.shrinks.links.subset there, kept⟩)

/-- `link_index` returns the index of the interface or nothing. -/
private theorem wp_linkIndex
    (name : String)
    {ok : Option UInt32 → World → Prop}
    {err : Error → World → Prop}
    (okHolds : ∀ w', Quiet P mount own w w' →
      ok ((w'.link? name).map Link.index) w')
    (errHolds : ∀ e w', Quiet P mount own w w' → C w' (.host (.linkIndex name)) (.error e) → err e w') :
    (Network.linkIndex name).wp (hostRules C self) w ok err := by
  rintro answer w' ⟨now, settles, permitted, answered⟩
  have before : Quiet P mount own w now := .of_settles settles
  cases answer with
  | ok index =>
      obtain ⟨rfl, rfl⟩ := World.provided_eq_some.mp answered
      exact okHolds now before
  | error e =>
      obtain rfl := Option.some.inj answered
      exact errHolds e now before permitted

/-- `delete_host_veth` is quiet about every other interface. -/
private theorem wp_deleteHostVeth
    {name : String}
    (different : P → name ≠ hostVeth own)
    {ok : Unit → World → Prop}
    {err : Error → World → Prop}
    (okHolds : ∀ w', Quiet P mount own w w' → ok () w')
    (errHolds : ∀ e w', Quiet P mount own w w' → err e w') :
    (Network.deleteHostVeth name).wp (hostRules C self) w ok err := by
  rw [Network.deleteHostVeth, Fallible.wp_bind]
  refine wp_removing
    (.perform (allowed_of_ordinary (.prepare .openNetlink) trivial))
    (fun _ w₁ (opened : Quiet P mount own w w₁) => ?_) errHolds
  rw [Fallible.wp_bind]
  refine wp_linkIndex name (fun w₂ (looked : Quiet P mount own w₁ w₂) => ?_)
    fun e w₂ looked _ => errHolds e w₂ (opened.trans looked)
  cases found : (w₂.link? name).map Link.index with
  | none => exact okHolds w₂ (opened.trans looked)
  | some index =>
      exact wp_deleteFound different found
        (fun w₃ deleted _ => okHolds w₃ ((opened.trans looked).trans deleted))
        fun e _ w₃ deleted _ => errHolds e w₃ ((opened.trans looked).trans deleted)

/-- `teardown` is quiet about every other container. -/
private theorem wp_networkTeardown
    {id : String}
    {net : NetworkState}
    (otherId : P → id ≠ own)
    (otherLink : P → net.hostVeth ≠ some (hostVeth own))
    {ok : Unit → World → Prop}
    (okHolds : ∀ w', Quiet P mount own w w' → ok () w')
    {err : Error → World → Prop}
    (errHolds : ∀ e w', Quiet P mount own w w' → err e w') :
    (Network.teardown id net).wp (hostRules C self) w ok err := by
  have release : OnlyUses (HostAllowed P mount own)
      (Network.releaseLease id).attempt.run :=
    Fallible.uses_attempt (.perform ⟨trivial, otherId⟩)
  unfold Network.teardown
  split
  · refine wp_removing (Fallible.uses_bind release fun _ => .ret _)
      (fun _ w' quiet => okHolds w' quiet) errHolds
  · rw [Fallible.wp_bind]
    refine wp_removing (uses_cleanup allowed_of_ordinary id)
      (fun _ w₁ (cleaned : Quiet P mount own w w₁) => ?_) errHolds
    have rest : ∀ w₂, Quiet P mount own w₁ w₂ →
        (do
          let _ ← (Network.releaseLease id).attempt
          return () : HostAct Unit).wp (hostRules C self) w₂ ok err := by
      intro w₂ deleted
      refine wp_removing (Fallible.uses_bind release fun _ => .ret _)
        (fun _ w₃ released => okHolds w₃ ((cleaned.trans deleted).trans released))
        fun e w₃ released => errHolds e w₃ ((cleaned.trans deleted).trans released)
    rw [Fallible.wp_bind]
    cases recorded : net.hostVeth with
    | none => exact rest w₁ .refl
    | some name =>
        refine (Fallible.wp_bind _ _ _ _).mpr ((Fallible.wp_attempt _ _ _).mpr ?_)
        refine wp_deleteHostVeth (fun holds same => ?_) rest fun _ => rest
        exact otherLink holds (by rw [recorded, same])

end Interfaces

/-! ## Correcting and tearing down one container -/

section Records

variable {C : Restriction} {self : Pid} {P : Prop} {mount own id : String}
  {w w' w'' : World}

/-- Like `Quiet`, but the record of one container may be another one. -/
structure Touches (P : Prop) (mount own id : String) (w w' : World) :
    Prop where
  shrinks : Shrinks w w'
  others : ∀ other, other ≠ id → w'.state? other = w.state? other
  kept : P → Indexed w → Kept mount own w w'

/-- A quiet change touches no record. -/
private theorem Quiet.touches
    (quiet : Quiet P mount own w w') :
    Touches P mount own id w w' where
  shrinks := quiet.shrinks
  others := fun other _ => quiet.state? other
  kept := quiet.kept

/-- Changes to one record in sequence are changes to that record. -/
private theorem Touches.trans
    (first : Touches P mount own id w w')
    (second : Touches P mount own id w' w'') :
    Touches P mount own id w w'' where
  shrinks := first.shrinks.trans second.shrinks
  others := fun other different =>
    (second.others other different).trans (first.others other different)
  kept := fun holds indexed =>
    (first.kept holds indexed).trans
      (second.kept holds (indexed.shrinks first.shrinks)) second.shrinks

/-- Less has to be spared. -/
private theorem Touches.weaken
    {R : Prop}
    (touches : Touches P mount own id w w')
    (weaker : R → P) :
    Touches R mount own id w w' :=
  { touches with kept := fun holds => touches.kept (weaker holds) }

/-- Saving a record: it is the record of its container, or nothing changed. -/
theorem wp_save
    {place : SavePoint}
    {st : ContainerState}
    {ok : Unit → World → Prop}
    {err : Error → World → Prop}
    (okHolds : ∀ w', Touches P mount own st.id w w' →
      w'.state? st.id = some st → ok () w')
    (errHolds : ∀ e w', Quiet P mount own w w' → err e w') :
    (Store.save place st).wp (.ofStep (step C self)) w ok err := by
  rintro answer w' ⟨now, settles, _, answered⟩
  have before : Quiet P mount own w now := .of_settles settles
  cases answer with
  | error e =>
      obtain rfl := Option.some.inj answered
      exact errHolds e now before
  | ok u =>
      have cleaning : Cleaning (.writeState place st) := trivial
      have same := same_of_answer (fun _ never => by cases never) cleaning answered
      obtain rfl := Option.some.inj answered
      refine okHolds _ (before.touches.trans ?_)
        (World.state?_putState_same now st)
      exact
        { shrinks := same.shrinks
          others := fun other different =>
            World.state?_putState_other now different.symm
          kept := fun _ _ => .of_same same }

/-- `kill_init` uses allowed operations. -/
private theorem uses_killInit (st : ContainerState) :
    OnlyUses (Allowed P mount own) (Supervisor.killInit st).run := by
  have kills : OnlyUses (HostAllowed P mount own)
      (killPid st.initPid sigkill).attempt.run :=
    Fallible.uses_attempt
      (.perform (allowed_of_ordinary (.kill st.initPid sigkill) trivial))
  unfold Supervisor.killInit
  split
  · exact .ret _
  · refine Fallible.uses_bind
      (uses_initIsAlive (fun _ => ⟨trivial, trivial⟩) st) ?_
    intro alive
    cases alive with
    | false => exact .ret _
    | true =>
        refine Fallible.uses_bind
          (kills.embed (R := Allowed P mount own) (fun _ used => used) _) fun _ => ?_
        exact Fallible.uses_bind
          (Fallible.uses_attempt (.perform ⟨trivial, trivial⟩)) fun _ => .ret _

/-- A record that was read and brought up to date. -/
structure Reconciled (P : Prop) (mount own : String) (w : World)
    (st : ContainerState) (corrected : Bool) (st' : ContainerState)
    (w' : World) : Prop where
  touches : Touches P mount own st.id w w'
  here : w'.state? st.id = some st'
  sameLaunch : st.SameLaunch st'
  ended : corrected = true → st'.status.isLive = false

/-- `reconcile` touches its record and leaves what `Reconciled` says. -/
private theorem wp_reconcile
    {st : ContainerState}
    (here : w.state? st.id = some st)
    {ok : Bool × ContainerState → World → Prop}
    {err : Error → World → Prop}
    (okHolds : ∀ corrected st' w',
      Reconciled P mount own w st corrected st' w' → ok (corrected, st') w')
    (errHolds : ∀ e w', Quiet P mount own w w' → err e w') :
    (Store.reconcile st).wp (.ofStep (step C self)) w ok err := by
  have unchanged : ∀ w', Quiet P mount own w w' → ok (false, st) w' :=
    fun w' quiet => okHolds false st w'
      { touches := quiet.touches
        here := (quiet.state? st.id).trans here
        sameLaunch := .refl st
        ended := fun never => by cases never }
  unfold Store.reconcile
  split
  · exact unchanged w .refl
  · rw [Fallible.wp_bind]
    refine wp_act (uses_initIsAlive (fun _ => ⟨trivial, trivial⟩) st)
      (fun alive w₁ (looked : Quiet P mount own w w₁) => ?_) errHolds
    cases alive with
    | true => exact unchanged w₁ looked
    | false =>
        refine (Fallible.wp_bind _ _ _ _).mpr (wp_host
          ((OnlyUses.perform (allowed_of_ordinary .now trivial)).bind fun _ => .ret _)
          (fun now w₂ (read : Quiet P mount own w₁ w₂) => ?_)
          fun e w₂ read => errHolds e w₂ (looked.trans read))
        refine (Fallible.wp_bind _ _ _ _).mpr (wp_save
          (fun w₃ (saved : Touches P mount own _ w₂ w₃) found => ?_)
          fun e w₃ unsaved => errHolds e w₃ ((looked.trans read).trans unsaved))
        rw [ContainerState.markGone_id] at saved found
        refine okHolds true _ w₃
          { touches := (looked.trans read).touches.trans saved
            here := found
            sameLaunch := .markGone st now
            ended := ?_ }
        intro _
        simp [ContainerState.markGone, Status.isLive]

/-- What a teardown takes is that of its own container. -/
theorem wp_teardown
    {st : ContainerState}
    (ended : st.status.isLive = false)
    (otherId : P → st.id ≠ own)
    (otherCgroup : P → st.cgroupPath ≠ some (cgroupPath mount own))
    (otherLink : P → st.network.hostVeth ≠ some (hostVeth own))
    {ok : ContainerState → World → Prop}
    {err : Error → World → Prop}
    (okHolds : ∀ st' w', Touches P mount own st.id w w' →
      st'.id = st.id → st'.status.isLive = false →
      (¬ Live w st.id → ¬ Live w' st.id) → ok st' w')
    (errHolds : ∀ e w', Quiet P mount own w w' → err e w') :
    (Supervisor.teardown st).wp (.ofStep (step C self)) w ok err := by
  have finish : ∀ {st' : ContainerState} {w₁ : World},
      Quiet P mount own w w₁ → st'.id = st.id → st'.status.isLive = false →
      st'.network = st.network →
      (do
        Network.teardown st'.id st'.network
        let now ← nowMs
        let last := st'.markTornDown now
        let _ ← (Store.save .teardown last).attempt
        return last : Act ContainerState).wp (.ofStep (step C self)) w₁ ok err := by
    intro st' w₁ before sameId dead sameNetwork
    rw [Fallible.wp_bind, sameId, sameNetwork]
    refine wp_lift.mpr (wp_networkTeardown otherId otherLink
      (fun w₂ (torn : Quiet P mount own w₁ w₂) => ?_)
      fun e w₂ torn => errHolds e w₂ (before.trans torn))
    refine (Fallible.wp_bind _ _ _ _).mpr (wp_host
      ((OnlyUses.perform (allowed_of_ordinary .now trivial)).bind fun _ => .ret _)
      (fun now w₃ (read : Quiet P mount own w₂ w₃) => ?_)
      fun e w₃ read => errHolds e w₃ ((before.trans torn).trans read))
    have quiet := (before.trans torn).trans read
    have last : st'.markTornDown now = st' := by
      simp [ContainerState.markTornDown, dead]
    rw [last]
    refine (Fallible.wp_bind _ _ _ _).mpr ((Fallible.wp_attempt _ _ _).mpr
      (wp_save (fun w₄ (saved : Touches P mount own _ w₃ w₄) found => ?_)
        fun e w₄ (unsaved : Quiet P mount own w₃ w₄) => ?_))
    · rw [sameId] at saved found
      refine okHolds st' w₄ (quiet.touches.trans saved) sameId dead ?_
      rintro _ ⟨record, isRecord, live⟩
      rw [found] at isRecord
      obtain rfl := Option.some.inj isRecord
      rw [dead] at live
      cases live
    · refine okHolds st' w₄ (quiet.trans unsaved).touches sameId dead ?_
      intro notLive live
      refine notLive ?_
      simpa only [Live, (quiet.trans unsaved).state?] using live
  rw [Supervisor.teardown, Fallible.wp_bind]
  refine wp_host (Fallible.uses_attempt
      (.perform (allowed_of_ordinary (.fault "before_teardown") trivial)))
    (fun _ w₁ (checked : Quiet P mount own w w₁) => ?_) errHolds
  refine (Fallible.wp_bind _ _ _ _).mpr (wp_act (uses_killInit st)
    (fun _ w₂ (killed : Quiet P mount own w₁ w₂) => ?_)
    fun e w₂ killed => errHolds e w₂ (checked.trans killed))
  have removes : ∀ path, st.cgroupPath = some path →
      HostAllowed P mount own (.removeEmptyDir path) := by
    intro path recorded
    refine ⟨trivial, fun holds same => otherCgroup holds ?_⟩
    rw [recorded, same]
  refine (Fallible.wp_bind _ _ _ _).mpr (wp_host
    (uses_removeCgroup allowed_of_ordinary removes)
    (fun oom w₃ (removed : Quiet P mount own w₂ w₃) => ?_)
    fun e w₃ removed => errHolds e w₃ ((checked.trans killed).trans removed))
  have quiet := (checked.trans killed).trans removed
  cases oom with
  | true => exact finish quiet rfl ended rfl
  | false => exact finish quiet rfl ended rfl

/-- The records name other resources than those of `own`. -/
def Elsewhere (mount own : String) (states : List ContainerState) : Prop :=
  ∀ st ∈ states, st.id ≠ own →
    st.cgroupPath ≠ some (cgroupPath mount own) ∧
      st.network.hostVeth ≠ some (hostVeth own)

/-- Some records were brought up to date; if that of `own` is live, nothing of
it is gone. -/
structure Spared (mount own : String) (w : World)
    (states : List ContainerState) (w' : World) : Prop where
  shrinks : Shrinks w w'
  others : ∀ id, (∀ st ∈ states, st.id ≠ id) → w'.state? id = w.state? id
  kept : Elsewhere mount own states → Live w' own → Indexed w →
    Kept mount own w w'

/-- A quiet change spares the container. -/
private theorem Quiet.spared
    {states : List ContainerState}
    (quiet : Quiet True mount own w w') :
    Spared mount own w states w' where
  shrinks := quiet.shrinks
  others := fun id _ => quiet.state? id
  kept := fun _ _ => quiet.kept trivial

/-- The first record, then the others.  That of `own` is not the first one if
`corrected`, as it would not be live then. -/
theorem Spared.cons
    {st : ContainerState}
    {rest : List ContainerState}
    {corrected : Bool}
    (later : Spared mount own w' rest w'')
    (notInRest : ∀ other ∈ rest, other.id ≠ st.id)
    (first : Touches (st.id ≠ own ∧ Elsewhere mount own (st :: rest) ∨
      corrected = false) mount own st.id w w')
    (ended : corrected = true → ¬ Live w' st.id) :
    Spared mount own w (st :: rest) w'' where
  shrinks := first.shrinks.trans later.shrinks
  others := by
    intro other absent
    rw [later.others other fun st' member =>
      absent st' (List.mem_cons_of_mem _ member)]
    exact first.others other (absent st List.mem_cons_self).symm
  kept := by
    intro elsewhere alive indexed
    have spared : st.id ≠ own ∧ Elsewhere mount own (st :: rest) ∨
        corrected = false := by
      by_cases isOwn : st.id = own
      · refine .inr (Bool.eq_false_iff.mpr fun isCorrected => ?_)
        rw [← isOwn] at alive
        exact ended isCorrected
          (by simpa only [Live, later.others st.id notInRest] using alive)
      · exact .inl ⟨isOwn, elsewhere⟩
    refine (first.kept spared indexed).trans ?_ later.shrinks
    exact later.kept
      (fun other member => elsewhere other (List.mem_cons_of_mem _ member))
      alive (indexed.shrinks first.shrinks)

/-- All were brought up to date; `live` are the live ones. -/
structure Collected (mount own : String) (w : World)
    (states : List ContainerState) (live : List String) (w' : World) : Prop
    extends Spared mount own w states w' where
  live : ∀ id, id ∈ live ↔ (∃ st ∈ states, st.id = id) ∧ Live w' id

/-- The first record is up to date after `reconcile`, and torn down if it was
corrected. -/
private theorem wp_reconciledTeardown
    {st st' : ContainerState}
    (rest : List ContainerState)
    {corrected : Bool}
    (reconciled : Reconciled True mount own w st corrected st' w')
    {next : ContainerState → World → Prop}
    {err : Error → World → Prop}
    (holds : ∀ st'' w₂,
      Touches (st.id ≠ own ∧ Elsewhere mount own (st :: rest) ∨
        corrected = false) mount own st.id w w₂ →
      st''.id = st.id →
      (st''.status.isLive = true ↔ Live w₂ st.id) →
      (corrected = true → ¬ Live w₂ st.id) →
      next st'' w₂)
    (errHolds : ∀ e w₂,
      Touches (st.id ≠ own ∧ Elsewhere mount own (st :: rest) ∨
        corrected = false) mount own st.id w w₂ →
      ¬ Live w₂ st.id → err e w₂) :
    (if corrected then Supervisor.teardown st' else return st' :
      Act ContainerState).wp (.ofStep (step C self)) w' next err := by
  have sameId : st'.id = st.id := reconciled.sameLaunch.id.symm
  have isLive : Live w' st.id ↔ st'.status.isLive = true := by
    simp [Live, reconciled.here]
  cases corrected with
  | false =>
      refine holds st' w' (reconciled.touches.weaken fun _ => trivial) sameId
        isLive.symm ?_
      intro never
      cases never
  | true =>
      have dead : ¬ Live w' st.id := by simp [isLive, reconciled.ended rfl]
      have both : ∀ {w₂ : World},
          Touches (st.id ≠ own ∧ Elsewhere mount own (st :: rest)) mount own
            st.id w' w₂ →
          Touches (st.id ≠ own ∧ Elsewhere mount own (st :: rest) ∨
            true = false) mount own st.id w w₂ := by
        intro w₂ torn
        refine (reconciled.touches.weaken fun _ => trivial).trans
          (torn.weaken fun holds => holds.resolve_right ?_)
        intro never
        cases never
      refine wp_teardown
        (P := st.id ≠ own ∧ Elsewhere mount own (st :: rest))
        (reconciled.ended rfl) (fun holds => sameId ▸ holds.1) ?_ ?_
        (fun st'' w₂ (torn : Touches _ mount own _ _ _) sameId' dead' stays => ?_)
        fun e w₂ (failed : Quiet _ mount own _ _) => ?_
      · intro holds
        rw [← reconciled.sameLaunch.cgroupPath]
        exact (holds.2 st List.mem_cons_self holds.1).1
      · intro holds
        rw [← reconciled.sameLaunch.network]
        exact (holds.2 st List.mem_cons_self holds.1).2
      · rw [sameId] at torn sameId' stays
        exact holds st'' w₂ (both torn) sameId' (by simp [dead', stays dead])
          fun _ => stays dead
      · refine errHolds e w₂ (both failed.touches) ?_
        simpa only [Live, failed.state?] using dead

/-- The loop over the records collects the ids that are live. -/
private theorem wp_gcStates
    (states : List ContainerState)
    (distinct : (states.map (·.id)).Nodup)
    (sound : ∀ st ∈ states, w.state? st.id = some st)
    {ok : List String × List String → World → Prop}
    {err : Error → World → Prop}
    (okHolds : ∀ report live w', Collected mount own w states live w' →
      ok (report, live) w')
    (errHolds : ∀ e w', Spared mount own w states w' → err e w') :
    (Supervisor.gcStates states).wp (.ofStep (step C self)) w ok err := by
  induction states generalizing w ok err with
  | nil =>
      exact okHolds [] [] w
        { shrinks := .refl w
          others := fun _ _ => rfl
          live := by simp
          kept := fun _ _ _ => .refl }
  | cons st rest inductionHypothesis =>
      obtain ⟨fresh, distinct⟩ := List.nodup_cons.mp distinct
      have notInRest : ∀ other ∈ rest, other.id ≠ st.id :=
        fun other member same => fresh (List.mem_map.mpr ⟨other, member, same⟩)
      rw [Supervisor.gcStates, Fallible.wp_bind]
      refine wp_reconcile (sound st List.mem_cons_self)
        (fun corrected st' w₁ (reconciled : Reconciled True mount own w st _ _ w₁) => ?_)
        fun e w₁ (failed : Quiet True mount own w w₁) => errHolds e w₁ failed.spared
      refine (Fallible.wp_bind _ _ _ _).mpr
        (wp_reconciledTeardown rest reconciled
          (fun st' w₁ first sameId isLive ended => ?_)
          fun e w₂ torn dead => errHolds e w₂
            (Quiet.refl.spared.cons notInRest torn fun _ => dead))
      rw [Fallible.wp_bind]
      refine inductionHypothesis distinct ?_ ?_ ?_
      · intro other member
        rw [first.others other.id (notInRest other member)]
        exact sound other (List.mem_cons_of_mem _ member)
      · intro report live w₂ later
        have lastRecord : Live w₂ st.id ↔ Live w₁ st.id := by
          simp only [Live, later.others st.id notInRest]
        refine okHolds _ _ w₂
          { later.toSpared.cons notInRest first ended with live := ?_ }
        intro id
        have cons : id ∈ (if st'.status.isLive = true then st'.id :: live else live) ↔
            (id = st.id ∧ Live w₁ st.id) ∨ id ∈ live := by
          rw [sameId, ← isLive]
          split <;> simp_all
        rw [cons, later.live]
        constructor
        · rintro (⟨rfl, alive⟩ | ⟨⟨other, member, rfl⟩, alive⟩)
          · exact ⟨⟨st, List.mem_cons_self, rfl⟩, lastRecord.mpr alive⟩
          · exact ⟨⟨other, List.mem_cons_of_mem _ member, rfl⟩, alive⟩
        · rintro ⟨⟨other, member, rfl⟩, alive⟩
          rcases List.mem_cons.mp member with rfl | inRest
          · exact .inl ⟨rfl, lastRecord.mp alive⟩
          · exact .inr ⟨⟨other, inRest, rfl⟩, alive⟩
      · exact fun e w₂ later => errHolds e w₂ (later.cons notInRest first ended)

end Records

/-! ## Orphaned cgroups -/

section Cgroups

variable {C : Restriction} {self : Pid} {P : Prop} {mount own path : String}
  {w₀ w : World}

/-- Every answer is one of a host that cooperates. -/
abbrev Full (C : Restriction) : Prop :=
  ∀ {w op answer}, C w op answer → Cooperates w op answer

/-- A cgroup is gone, or a process was in it at the beginning. -/
def Gone (C : Restriction) (w₀ : World) (path : String) (w : World) : Prop :=
  Full C → path ∈ w.dirs → w₀.populated path = true

/-- A cgroup that is gone stays gone. -/
private theorem Gone.later
    {w' : World}
    (gone : Gone C w₀ path w)
    (shrinks : Shrinks w w') :
    Gone C w₀ path w' :=
  fun full there => gone full (shrinks.dirs there)

/-- A cgroup that was populated before is excused later. -/
private theorem Gone.earlier
    {w₁ : World}
    (gone : Gone C w₁ path w)
    (shrinks : Shrinks w₀ w₁) :
    Gone C w₀ path w :=
  fun full there => shrinks.populated path (gone full there)

/-- What is left after the leading part is what was put after it. -/
theorem stripLeading_append (leading rest : String) :
    stripLeading leading (leading ++ rest) = some rest := by
  have chars : ∀ front : List Char,
      stripPrefixChars front (front ++ rest.toList) = some rest.toList := by
    intro front
    induction front with
    | nil => simp [stripPrefixChars]
    | cons c front inductionHypothesis =>
        simpa [stripPrefixChars] using inductionHypothesis
  simp [stripLeading, String.toList_append, chars]

/-- The removal loop ends with the directory gone, or populated at first. -/
private theorem wp_removeLoop
    {cg : Cgroup}
    (different : P → cg.path ≠ cgroupPath mount own)
    (before : Quiet P mount own w₀ w)
    {attempt left : Nat}
    (tried : left = 0 → Gone C w₀ cg.path w)
    {ok : Unit → World → Prop}
    {err : Error → World → Prop}
    (okHolds : ∀ w', Quiet P mount own w₀ w' → Gone C w₀ cg.path w' → ok () w')
    (errHolds : ∀ e w', Quiet P mount own w₀ w' → Gone C w₀ cg.path w' → err e w') :
    (cg.removeLoop attempt left).wp (hostRules C self) w ok err := by
  induction left generalizing w attempt with
  | zero => exact errHolds _ w before (tried rfl)
  | succ left inductionHypothesis =>
      have allowed : HostAllowed P mount own (.removeEmptyDir cg.path) :=
        ⟨trivial, different⟩
      rw [Cgroup.removeLoop, Fallible.wp_bind, Fallible.wp_lift]
      rintro outcome w₁ ⟨now, settles, permitted, answered⟩
      have settled : Quiet P mount own w₀ now :=
        before.trans (.of_settles settles)
      have quiet : Quiet P mount own w₀ w₁ :=
        settled.trans (.of_answer
          (show Allowed P mount own (.host (.removeEmptyDir cg.path)) from allowed)
          answered)
      -- one more attempt, after the pause that follows a refused one
      have again : ∀ {w₂ : World}, Quiet P mount own w₁ w₂ →
          Gone C w₀ cg.path w₁ →
          (do
            sleep
            cg.removeLoop (attempt + 1) left : HostAct Unit).wp
              (hostRules C self) w₂ ok err := by
        intro w₂ later gone
        rw [Fallible.wp_bind]
        refine wp_removing (uses_lift allowed_of_ordinary (show Ordinary .sleep from trivial))
          (fun _ w₃ (slept : Quiet P mount own w₂ w₃) => ?_)
          fun e w₃ (slept : Quiet P mount own w₂ w₃) => ?_
        · refine inductionHypothesis ((quiet.trans later).trans slept) fun _ => ?_
          exact gone.later (later.trans slept).shrinks
        · exact errHolds e w₃ ((quiet.trans later).trans slept)
            (gone.later (later.trans slept).shrinks)
      cases outcome with
      | removed =>
          refine okHolds w₁ quiet ?_
          intro _ there
          simp only [World.answer, World.hostAnswer] at answered
          split at answered
          · cases answered
          · obtain rfl := Option.some.inj answered
            exact absurd (List.mem_filter.mp there).2 (by simp)
      | busy =>
          obtain rfl := Option.some.inj answered
          have gone : Gone C w₀ cg.path now := by
            intro full _
            exact settled.shrinks.populated _ (full permitted)
          by_cases first : attempt = 0
          · simp only [first, if_true]
            refine (Fallible.wp_bind _ _ _ _).mpr (wp_removing
              (Fallible.uses_attempt (uses_killAll allowed_of_ordinary cg))
              (fun _ w₂ (killed : Quiet P mount own now w₂) => ?_)
              fun e w₂ (killed : Quiet P mount own now w₂) => ?_)
            · simpa only [first] using again killed gone
            · exact errHolds e w₂ (quiet.trans killed) (gone.later killed.shrinks)
          · simp only [first, if_false]
            exact again .refl gone
      | failed e =>
          obtain rfl := Option.some.inj answered
          have gone : Gone C w₀ cg.path now :=
            fun full there => absurd there (full permitted)
          refine (Fallible.wp_bind _ _ _ _).mpr (wp_removing
            (uses_lift allowed_of_ordinary (show Ordinary (.dirExists cg.path) from trivial))
            (fun present w₂ (looked : Quiet P mount own now w₂) => ?_)
            fun e w₂ (looked : Quiet P mount own now w₂) => ?_)
          · cases present with
            | true => exact again looked gone
            | false => exact okHolds w₂ (quiet.trans looked) (gone.later looked.shrinks)
          · exact errHolds e w₂ (quiet.trans looked) (gone.later looked.shrinks)

/-- So does `Cgroup::remove`. -/
theorem wp_remove
    {cg : Cgroup}
    (different : P → cg.path ≠ cgroupPath mount own)
    (before : Quiet P mount own w₀ w)
    {ok : Unit → World → Prop}
    {err : Error → World → Prop}
    (okHolds : ∀ w', Quiet P mount own w₀ w' → Gone C w₀ cg.path w' → ok () w')
    (errHolds : ∀ e w', Quiet P mount own w₀ w' → Gone C w₀ cg.path w' → err e w') :
    cg.remove.wp (hostRules C self) w ok err := by
  rw [Cgroup.remove, Fallible.wp_bind, Fallible.wp_lift]
  rintro present w₁ ⟨now, settles, _, answered⟩
  have settled : Quiet P mount own w₀ now := before.trans (.of_settles settles)
  obtain ⟨isPresent, rfl⟩ := World.provided_eq_some.mp answered
  cases present with
  | true =>
      refine wp_removeLoop different settled (fun never => ?_) okHolds errHolds
      cases never
  | false =>
      refine okHolds now settled fun _ there => ?_
      exact absurd there (of_decide_eq_false isPresent.symm)

/-- `Cgroup::attach` fails only where there is no directory. -/
theorem wp_attach
    (before : Quiet P mount own w₀ w)
    {ok : Cgroup → World → Prop}
    {err : Error → World → Prop}
    (okHolds : ∀ cg w', Quiet P mount own w₀ w' → cg.path = path → ok cg w')
    (errHolds : ∀ e w', Quiet P mount own w₀ w' → path ∉ w'.dirs → err e w') :
    (Cgroup.attach path).wp (hostRules C self) w ok err := by
  rw [Cgroup.attach, Fallible.wp_bind, Fallible.wp_lift]
  rintro present w₁ ⟨now, settles, _, answered⟩
  have settled : Quiet P mount own w₀ now := before.trans (.of_settles settles)
  obtain ⟨isPresent, rfl⟩ := World.provided_eq_some.mp answered
  cases present with
  | false => exact errHolds _ now settled (of_decide_eq_false isPresent.symm)
  | true =>
      refine (Fallible.wp_bind _ _ _ _).mpr ((Fallible.wp_bind _ _ _ _).mpr
        ((Fallible.wp_attempt _ _ _).mpr (wp_removing
          (uses_readTrimmed allowed_of_ordinary _)
          (fun _ w₂ (read : Quiet P mount own now w₂) => ?_)
          fun _ w₂ (read : Quiet P mount own now w₂) => ?_)))
      · exact okHolds _ w₂ (settled.trans read) rfl
      · exact okHolds _ w₂ (settled.trans read) rfl

/-- `Cgroup::pids` lists a process only of a populated cgroup. -/
private theorem wp_pids
    {cg : Cgroup}
    (before : Quiet P mount own w₀ w)
    {ok : List Pid → World → Prop}
    {err : Error → World → Prop}
    (okHolds : ∀ pids w', Quiet P mount own w₀ w' →
      (pids.isEmpty = false → Gone C w₀ cg.path w') → ok pids w') :
    cg.pids.wp (hostRules C self) w ok err := by
  rw [Cgroup.pids, Fallible.wp_bind, Fallible.wp_attempt, readTrimmed,
    Fallible.wp_bind]
  rintro read w₁ ⟨now, settles, permitted, answered⟩
  obtain rfl := Option.some.inj answered
  have settled : Quiet P mount own w₀ now := before.trans (.of_settles settles)
  cases read with
  | error e =>
      refine okHolds [] now settled fun never => ?_
      cases never
  | ok text =>
      refine okHolds _ now settled fun listed full _ => ?_
      refine settled.shrinks.populated _ (Bool.of_not_eq_false fun empty => ?_)
      have noText : text = "" := full permitted cg.path rfl empty
      subst noText
      exact absurd listed (by decide)

/-- One entry below the base directory. -/
private theorem wp_gcEntry
    {base name : String}
    (different : P → joinPath base name ≠ cgroupPath mount own)
    (before : Quiet P mount own w₀ w)
    {ok : Bool → World → Prop}
    {err : Error → World → Prop}
    (okHolds : ∀ removed w', Quiet P mount own w₀ w' →
      Gone C w₀ (joinPath base name) w' → ok removed w') :
    (Cgroup.gcEntry base name).wp (hostRules C self) w ok err := by
  rw [Cgroup.gcEntry, Fallible.wp_bind, Fallible.wp_attempt]
  refine wp_attach before (fun cg w₁ quiet same => ?_) fun e w₁ quiet missing => ?_
  · rw [← same] at different okHolds
    refine (Fallible.wp_bind _ _ _ _).mpr (wp_pids quiet fun pids w₂ quiet gone => ?_)
    cases empty : pids.isEmpty with
    | false =>
        simp only [Bool.false_eq_true, if_false]
        exact okHolds false w₂ quiet (gone empty)
    | true =>
        simp only [if_true]
        refine (Fallible.wp_bind _ _ _ _).mpr ((Fallible.wp_attempt _ _ _).mpr
          (wp_remove different quiet ?_ ?_))
        · exact fun w₃ quiet gone => okHolds _ w₃ quiet gone
        · exact fun e w₃ quiet gone => okHolds _ w₃ quiet gone
  · exact okHolds false w₁ quiet fun _ there => absurd there missing

/-- Different names are different paths in one directory. -/
private theorem joinPath_right_injective (dir : String) :
    Function.Injective (joinPath dir) := by
  intro name name' same
  have chars := congrArg String.toList same
  simp only [joinPath, String.toList_append, List.append_cancel_left_eq] at chars
  exact String.toList_inj.mp chars

/-- The loop over the entries leaves no cgroup of a dead id that can go. -/
private theorem wp_gcEach
    {live : List String}
    (names : List String)
    {ok : Nat → World → Prop}
    {err : Error → World → Prop}
    (okHolds : ∀ n w', Quiet (own ∈ live) mount own w w' →
      (∀ name ∈ names, name ∉ live → Gone C w (cgroupPath mount name) w') →
      ok n w') :
    (Cgroup.gcEach (joinPath mount Cgroup.baseName) live names).wp
      (hostRules C self) w ok err := by
  induction names generalizing w ok with
  | nil => exact okHolds 0 w .refl (by simp)
  | cons name rest inductionHypothesis =>
      rw [Cgroup.gcEach]
      cases isLive : live.contains name with
      | true =>
          simp only [if_true]
          have member : name ∈ live := List.contains_iff_mem.mp isLive
          refine inductionHypothesis fun n w' quiet gone => ?_
          refine okHolds n w' quiet ?_
          rintro other (_ | ⟨_, inRest⟩) notLive
          · exact absurd member notLive
          · exact gone other inRest notLive
      | false =>
          simp only [Bool.false_eq_true, if_false]
          have notLive : name ∉ live := by simpa using isLive
          have different : own ∈ live →
              joinPath (joinPath mount Cgroup.baseName) name ≠ cgroupPath mount own := by
            intro member same
            obtain rfl : name = own := joinPath_right_injective _ same
            exact notLive member
          refine (Fallible.wp_bind _ _ _ _).mpr (wp_gcEntry different .refl
            fun removed w₁ first gone => ?_)
          refine (Fallible.wp_bind _ _ _ _).mpr (inductionHypothesis
            fun n w₂ later others => ?_)
          refine okHolds _ w₂ (first.trans later) ?_
          rintro other (_ | ⟨_, inRest⟩) dead
          · exact gone.later later.shrinks
          · exact (others other inRest dead).earlier first.shrinks

/-- `gc_empty` leaves no cgroup of a dead id that can go. -/
private theorem wp_gcEmpty
    {live : List String}
    (mounted : w.mount = some mount)
    {ok : Nat → World → Prop}
    {err : Error → World → Prop}
    (okHolds : ∀ n w', Quiet (own ∈ live) mount own w w' →
      (∀ id, id ∉ live → Gone C w (cgroupPath mount id) w') → ok n w') :
    (Cgroup.gcEmpty live).wp (hostRules C self) w ok err := by
  rw [Cgroup.gcEmpty, Fallible.wp_bind, Fallible.wp_attempt, Cgroup.mountPoint,
    Fallible.wp_bind, Fallible.wp_lift]
  rintro found w₁ ⟨now, settles, _, answered⟩
  have found : Quiet (own ∈ live) mount own w now := .of_settles settles
  obtain ⟨rfl, rfl⟩ := World.provided_eq_some.mp answered
  rw [found.shrinks.mount, mounted]
  refine (Fallible.wp_bind _ _ _ _).mpr ?_
  rintro listed w₂ ⟨later, settles, permitted, answered⟩
  have settled : Quiet (own ∈ live) mount own w later :=
    found.trans (.of_settles settles)
  cases listed with
  | error e =>
      obtain rfl := Option.some.inj answered
      refine okHolds 0 later settled fun _ _ full => ?_
      exact (full permitted).elim
  | ok names =>
      obtain ⟨rfl, rfl⟩ := World.provided_eq_some.mp answered
      refine wp_gcEach _ fun n w₃ (quiet : Quiet (own ∈ live) mount own later w₃)
        gone => ?_
      refine okHolds n w₃ (settled.trans quiet) fun id notLive full there => ?_
      have isDir : cgroupPath mount id ∈ later.dirs := quiet.shrinks.dirs there
      have isName : id ∈ later.dirs.filterMap
          (stripLeading (joinPath mount Cgroup.baseName ++ "/")) :=
        List.mem_filterMap.mpr ⟨_, isDir, stripLeading_append _ id⟩
      exact settled.shrinks.populated _ (gone id isName notLive full there)

end Cgroups

/-! ## Stale leases and orphaned interfaces -/

section Network

variable {C : Restriction} {self : Pid} {mount own : String}
  {w : World} {live : List String}

/-- The leases that are left are those of live ids. -/
private theorem wp_gcLeases
    {ok : List String → World → Prop}
    {err : Error → World → Prop}
    (okHolds : ∀ report w', Quiet (own ∈ live) mount own w w' →
      (Full C → ∀ lease ∈ w'.leases.entries, lease.id ∈ live) → ok report w') :
    (Supervisor.gcLeases live).wp (hostRules C self) w ok err := by
  rw [Supervisor.gcLeases, Fallible.wp_bind, Fallible.wp_attempt]
  rintro outcome w₁ ⟨now, settles, permitted, answered⟩
  have quiet : Quiet (own ∈ live) mount own w w₁ :=
    .trans (.of_settles settles) (.of_answer
      (show Allowed (own ∈ live) mount own (.host (.leaseGc live)) from
        ⟨trivial, fun member => member⟩) answered)
  cases outcome with
  | error e => exact okHolds [] w₁ quiet fun full => (full permitted).elim
  | ok removed =>
      refine okHolds _ w₁ quiet fun _ lease member => ?_
      simp only [World.answer, World.hostAnswer] at answered
      split at answered
      · obtain rfl := Option.some.inj answered
        exact of_decide_eq_true (List.mem_filter.mp member).2
      · cases answered

/-- The interfaces of a list are deleted, where deletions succeed. -/
private theorem wp_deleteVeths
    (names : List String)
    (others : own ∈ live → hostVeth own ∉ names)
    {ok : List String → World → Prop}
    {err : Error → World → Prop}
    (okHolds : ∀ report w', Quiet (own ∈ live) mount own w w' →
      (Full C → Named w → ∀ link ∈ w'.links, link.name ∉ names) → ok report w') :
    (Supervisor.deleteVeths names).wp (hostRules C self) w ok err := by
  induction names generalizing w ok with
  | nil => exact okHolds [] w .refl (by simp)
  | cons name rest inductionHypothesis =>
      have different : own ∈ live → name ≠ hostVeth own := by
        rintro member rfl
        exact others member List.mem_cons_self
      have othersRest : own ∈ live → hostVeth own ∉ rest :=
        fun member inRest => others member (List.mem_cons_of_mem _ inRest)
      -- what is left to do once this one was deleted
      have finish : ∀ (outcome : Except Error Unit) (w₁ : World),
          Quiet (own ∈ live) mount own w w₁ →
          (Full C → Named w → ∀ link ∈ w₁.links, link.name ≠ name) →
          (do
            let others ← Supervisor.deleteVeths rest
            return if outcome.toBool then
              ("deleted orphaned interface " ++ name) :: others else others :
            HostAct (List String)).wp (hostRules C self) w₁ ok err := by
        intro outcome w₁ quiet missing
        rw [Fallible.wp_bind]
        refine inductionHypothesis othersRest fun report w₂ later gone => ?_
        refine okHolds _ w₂ (quiet.trans later) ?_
        intro full named link member
        rintro (_ | ⟨_, inRest⟩)
        · exact missing full named link (later.shrinks.links.subset member) rfl
        · exact gone full (named.sublist (quiet.shrinks.links.map _)) link member inRest
      rw [Supervisor.deleteVeths, Fallible.wp_bind, Fallible.wp_attempt,
        Fallible.wp_bind]
      rintro opened w₁ ⟨now, settles, permitted, answered⟩
      obtain rfl := Option.some.inj answered
      have settled : Quiet (own ∈ live) mount own w now := .of_settles settles
      cases opened with
      | error e => exact finish (.error e) now settled fun full => (full permitted).elim
      | ok u =>
          refine (Fallible.wp_bind _ _ _ _).mpr ((Fallible.wp_bind _ _ _ _).mpr
            (wp_linkIndex name (fun w₂ (looked : Quiet (own ∈ live) mount own now w₂) => ?_)
              fun e w₂ (looked : Quiet (own ∈ live) mount own now w₂) refused => ?_))
          · have quiet := settled.trans looked
            cases found : w₂.link? name with
            | none =>
                refine finish (.error _) w₂ quiet ?_
                intro _ _ link member same
                exact List.find?_eq_none.mp found link member (decide_eq_true same)
            | some l =>
                have isFound : (w₂.link? name).map Link.index = some l.index := by
                  rw [found, Option.map_some]
                refine wp_deleteFound different isFound
                  (fun w₃ (deleted : Quiet (own ∈ live) mount own w₂ w₃) missing => ?_)
                  fun e _ w₃ (deleted : Quiet (own ∈ live) mount own w₂ w₃) refused => ?_
                · exact finish (.ok ()) w₃ (quiet.trans deleted) fun _ distinct =>
                    missing (distinct.sublist (quiet.shrinks.links.map _))
                · exact finish (.error e) w₃ (quiet.trans deleted)
                    fun full => (full refused).elim
          · exact finish (.error e) w₂ (settled.trans looked)
              fun full => (full refused).elim

/-- The host interfaces that are left are those of live ids. -/
private theorem wp_gcVeths
    {ok : List String → World → Prop}
    {err : Error → World → Prop}
    (okHolds : ∀ report w', Quiet (own ∈ live) mount own w w' →
      (Full C → Named w → ∀ link ∈ w'.links, Network.isHostVeth link.name = true →
        ∃ id ∈ live, link.name = hostVeth id) → ok report w') :
    (Supervisor.gcVeths live).wp (hostRules C self) w ok err := by
  rw [Supervisor.gcVeths, Fallible.wp_bind, Fallible.wp_attempt,
    Network.orphanedVeths, Fallible.wp_bind]
  rintro opened w₁ ⟨now, settles, permitted, answered⟩
  obtain rfl := Option.some.inj answered
  have settled : Quiet (own ∈ live) mount own w now := .of_settles settles
  cases opened with
  | error e => exact okHolds [] now settled fun full => (full permitted).elim
  | ok u =>
      refine (Fallible.wp_bind _ _ _ _).mpr ?_
      rintro listed w₂ ⟨later, settles, permitted, answered⟩
      have quiet : Quiet (own ∈ live) mount own w later :=
        settled.trans (.of_settles settles)
      cases listed with
      | error e =>
          obtain rfl := Option.some.inj answered
          exact okHolds [] later quiet fun full => (full permitted).elim
      | ok names =>
          obtain ⟨rfl, rfl⟩ := World.provided_eq_some.mp answered
          refine wp_deleteVeths _ ?_ fun report w₃
            (deleted : Quiet (own ∈ live) mount own later w₃) gone => ?_
          · intro member orphaned
            have unexpected := (List.mem_filter.mp orphaned).2
            simp only [Bool.and_eq_true, Bool.not_eq_true', List.contains_eq_mem,
              decide_eq_false_iff_not] at unexpected
            exact unexpected.2 (List.mem_map_of_mem member)
          · refine okHolds report w₃ (quiet.trans deleted) ?_
            intro full distinct link member isVeth
            have notOrphaned := gone full
              (distinct.sublist (quiet.shrinks.links.map _)) link member
            by_contra none
            refine notOrphaned (List.mem_filter.mpr
              ⟨List.mem_map_of_mem (deleted.shrinks.links.subset member), ?_⟩)
            simp only [isVeth, Bool.true_and, Bool.not_eq_true',
              List.contains_eq_mem, decide_eq_false_iff_not, List.mem_map]
            rintro ⟨id, isLive, same⟩
            exact none ⟨id, isLive, same.symm⟩

/-- The shared clean-up uses allowed operations. -/
private theorem uses_gcShared_allowed :
    OnlyUses (HostAllowed (own ∈ live) mount own)
      (Supervisor.gcShared live).run := by
  cases live with
  | nil =>
      refine uses_gcShared allowed_of_ordinary (fun index => ⟨trivial, ?_⟩) []
      intro never
      cases never
  | cons id rest => exact .ret _

end Network

/-! ## The whole command -/

section Gc

variable {C : Restriction} {self : Pid} {mount own : String} {w : World}

/-- Nothing of a container is gone whose record is still live. -/
def Untaken (mount own : String) (w w' : World) : Prop :=
  (∀ id st, w.state? id = some st → Elsewhere mount own [st]) →
    Live w' own → Indexed w → Kept mount own w w'

/-- How `gc` leaves the host. -/
structure Swept (C : Restriction) (mount own : String) (w w' : World) :
    Prop where
  leases : Full C → ∀ lease ∈ w'.leases.entries, Live w' lease.id
  cgroups : ∀ id, ¬ Live w' id → Gone C w (cgroupPath mount id) w'
  links : Full C → Named w → ∀ link ∈ w'.links,
    Network.isHostVeth link.name = true →
      ∃ id, Live w' id ∧ link.name = hostVeth id
  untaken : Untaken mount own w w'

/-- `gc` sweeps when it returns and takes nothing of `own` in either case. -/
private theorem wp_gc
    (own : String)
    (readable : ∀ {w op answer}, C w op answer → Readable w op answer)
    (mounted : w.mount = some mount) :
    Supervisor.gc.wp (.ofStep (step C self)) w
      (fun _ w' => Swept C mount own w w') fun _ w' => Untaken mount own w w' := by
  rw [Supervisor.gc, Fallible.wp_bind]
  refine wp_list readable
    (fun states w₁ (read : Quiet True mount own w w₁) listed => ?_)
    fun e w₁ (failed : Quiet True mount own w w₁) _ _ => failed.kept trivial
  have untaken : ∀ {w₂ : World}, Spared mount own w₁ states w₂ →
      Untaken mount own w w₂ := by
    intro w₂ spared elsewhere alive indexed
    refine (read.kept trivial indexed).trans
      (spared.kept ?_ alive (indexed.shrinks read.shrinks)) spared.shrinks
    intro st member
    exact elsewhere st.id st (listed.sound st member) st List.mem_cons_self
  refine (Fallible.wp_bind _ _ _ _).mpr (wp_gcStates states listed.distinct ?_
    (fun report live w₂ (collected : Collected mount own w₁ states live w₂) => ?_)
    fun e w₂ failed => untaken failed)
  · intro st member
    rw [read.state?]
    exact listed.sound st member
  have isLive : ∀ id, id ∈ live ↔ Live w₂ id := by
    intro id
    rw [collected.live id]
    refine ⟨And.right, fun alive => ⟨?_, alive⟩⟩
    by_contra absent
    have untouched : ∀ st ∈ states, st.id ≠ id :=
      fun st member same => absent ⟨st, member, same⟩
    obtain ⟨st, found, _⟩ := alive
    rw [collected.others id untouched, read.state?] at found
    exact untouched st (listed.complete id st found) (World.state?_id found)
  have mounted₂ : w₂.mount = some mount := by
    rw [collected.shrinks.mount, read.shrinks.mount, mounted]
  refine (Fallible.wp_bind _ _ _ _).mpr (wp_lift.mpr (wp_gcEmpty mounted₂
    fun n w₃ (cgroups : Quiet (own ∈ live) mount own w₂ w₃) gone => ?_))
  refine (Fallible.wp_bind _ _ _ _).mpr (wp_lift.mpr (wp_gcLeases
    fun leases w₄ (released : Quiet (own ∈ live) mount own w₃ w₄) noStale => ?_))
  refine (Fallible.wp_bind _ _ _ _).mpr (wp_lift.mpr (wp_gcVeths
    fun veths w₅ (deleted : Quiet (own ∈ live) mount own w₄ w₅) noOrphan => ?_))
  have keeps : ∀ {w₆ : World}, Quiet (own ∈ live) mount own w₂ w₆ →
      Untaken mount own w w₆ := by
    intro w₆ after elsewhere alive indexed
    have alive₂ : Live w₂ own := by simpa only [Live, after.state?] using alive
    exact (untaken collected.toSpared elsewhere alive₂ indexed).trans
      (after.kept ((isLive own).mpr alive₂) (indexed.shrinks
        (read.shrinks.trans collected.shrinks))) after.shrinks
  refine (Fallible.wp_bind _ _ _ _).mpr (wp_lift.mpr (wp_removing uses_gcShared_allowed
    (fun shared w₆ (last : Quiet (own ∈ live) mount own w₅ w₆) => ?_)
    fun e w₆ (last : Quiet (own ∈ live) mount own w₅ w₆) =>
      keeps (((cgroups.trans released).trans deleted).trans last)))
  have later : Quiet (own ∈ live) mount own w₃ w₆ :=
    (released.trans deleted).trans last
  have after : Quiet (own ∈ live) mount own w₂ w₆ := cgroups.trans later
  have stillLive : ∀ id, id ∈ live ↔ Live w₆ id := by
    intro id
    simp only [isLive id, Live, after.state?]
  have fewer : Shrinks w w₂ := read.shrinks.trans collected.shrinks
  refine
    { leases := ?_
      cgroups := ?_
      links := ?_
      untaken := ?_ }
  · intro full lease member
    have there := (deleted.trans last).shrinks.leases member
    exact (stillLive lease.id).mp (noStale full lease there)
  · intro id dead
    have notLive : id ∉ live := fun member => dead ((stillLive id).mp member)
    exact ((gone id notLive).later later.shrinks).earlier fewer
  · intro full named link member isVeth
    have namedThere : Named w₄ :=
      named.sublist ((fewer.trans (cgroups.trans released).shrinks).links.map _)
    have there := last.shrinks.links.subset member
    obtain ⟨id, isIn, same⟩ := noOrphan full namedThere link there isVeth
    exact ⟨id, (stillLive id).mp isIn, same⟩
  · exact keeps after

/-! ## What `gc` reclaims and what it leaves alone -/

/-- **Garbage collection is complete.**  Whatever earlier commands left behind,
killed or not: when `gc` has run on a host that cooperates, where the cgroup
hierarchy is mounted and no two interfaces have one name, every lease and every
host interface belongs to a container whose record is live, and every cgroup of
another container had a process in it when `gc` began. -/
theorem gc_reclaims
    {w' : World}
    {report : List String}
    (mounted : w.mount = some mount)
    (named : Named w)
    (ran : Exec (step Cooperates self) Supervisor.gc.run w (.ok report) w') :
    (∀ lease ∈ w'.leases.entries, Live w' lease.id) ∧
      (∀ link ∈ w'.links, Network.isHostVeth link.name = true →
        ∃ id, Live w' id ∧ link.name = hostVeth id) ∧
      ∀ id, cgroupPath mount id ∈ w'.dirs →
        Live w' id ∨ w.populated (cgroupPath mount id) = true := by
  have swept : Swept Cooperates mount "" w w' :=
    ran.of_wp (wp_gc "" Cooperates.readable mounted)
  refine ⟨swept.leases id, swept.links id named, ?_⟩
  intro own there
  by_cases live : Live w' own
  · exact .inl live
  · exact .inr (swept.cgroups own live id there)

/-! A host with one running container and the rest of another. -/

/-- A running container. -/
def runningWeb : ContainerState :=
  { ContainerState.new 1 { id := "web", command := ["sh"] } with
    status := .running
    initPid := 5
    initStartTime := 1 }

/-- It runs, and of a container without a record all is left. -/
def cluttered : World where
  states := [runningWeb]
  inits :=
    [{ pid := 5, container := "web", startTime := 1, alive := true,
       cgroup := some "/sys/fs/cgroup/myrun/web" }]
  mount := some "/sys/fs/cgroup"
  dirs :=
    ["/sys/fs/cgroup/myrun/web", "/sys/fs/cgroup/myrun/gone",
     "/sys/fs/cgroup/myrun"]
  leases :=
    { subnet := "10.77.0.0/24"
      entries := [⟨⟨10, 77, 0, 2⟩, "web"⟩, ⟨⟨10, 77, 0, 3⟩, "gone"⟩] }
  links :=
    [{ index := 1, name := "myrun0" },
     { index := 2, name := hostVeth "web", peerIn := some 5 },
     { index := 4, name := hostVeth "gone", peerIn := some 3 }]

/-- One run of `gc` on a host on which nothing fails. -/
def collect (w : World) : Option (Result (List String) × World) :=
  drive (fun w op => w.usual 7 8 op) (fun w op answer => w.answer 7 op answer)
    Supervisor.gc.run w

/-- The usual answers are those of a host that cooperates. -/
theorem cooperates_usual
    {w : World}
    {op : Op}
    {answer : Ans op}
    (given : w.usual 7 8 op = some answer) :
    Cooperates w op answer := by
  cases op with
  | host op =>
      cases op with
      | removeEmptyDir path =>
          obtain rfl := Option.some.inj given
          by_cases populated : w.populated path = true
          · simp [populated, Cooperates]
          · simp [populated, Cooperates]
      | readText path =>
          obtain rfl := Option.some.inj given
          exact fun _ _ _ => rfl
      | _ =>
          cases answer <;> first
            | trivial
            | cases given
  | readState id =>
      cases found : w.state? id with
      | none =>
          simp only [World.usual, found, Option.some.injEq] at given
          obtain rfl := given
          exact found
      | some st =>
          simp only [World.usual, found, Option.some.injEq] at given
          obtain rfl := given
          trivial
  | _ => trivial

/-- A run of `gc` on the usual host. -/
private theorem exec_of_collect
    {w : World}
    {test : Result (List String) × World → Bool}
    (found : (collect w).any test = true) :
    ∃ result w', Exec (step Cooperates 7) Supervisor.gc.run w result w' ∧
      test (result, w') = true :=
  Exec.of_drive_any
    (fun _ _ _ _ given answered =>
      ⟨_, .refl, cooperates_usual given, answered⟩) found

/-- A host with a dead container's lease, interfaces and cgroups, after `gc`. -/
theorem cluttered_reclaimed :
    ∃ report w',
      Exec (step Cooperates 7) Supervisor.gc.run cluttered (.ok report) w' ∧
      (∀ lease ∈ w'.leases.entries, Live w' lease.id) ∧
      (∀ link ∈ w'.links, Network.isHostVeth link.name = true →
        ∃ id, Live w' id ∧ link.name = hostVeth id) ∧
      ∀ id, cgroupPath "/sys/fs/cgroup" id ∈ w'.dirs →
        Live w' id ∨ cluttered.populated (cgroupPath "/sys/fs/cgroup" id) = true := by
  have found : (collect cluttered).any (fun ended => ended.1.toBool) = true := by
    decide +kernel
  obtain ⟨result, w', ran, isOk⟩ := exec_of_collect found
  cases result with
  | error e => cases isOk
  | ok report =>
      exact ⟨report, w', ran, gc_reclaims rfl (by unfold Named; decide +kernel) ran⟩

/-- **Garbage collection takes nothing from a live container**, whatever fails
on the way and however it ends: its lease, its cgroup and its interface are
still there. -/
theorem gc_spares
    {w' : World}
    {result : Result (List String)}
    (mounted : w.mount = some mount)
    (indexed : Indexed w)
    (apart : ∀ id st, w.state? id = some st → Elsewhere mount own [st])
    (ran : Exec (step Readable self) Supervisor.gc.run w result w')
    (live : Live w' own) :
    Kept mount own w w' := by
  have ends := ran.of_wp (wp_gc own (fun readable => readable) mounted)
  cases result with
  | ok report =>
      have swept : Swept Readable mount own w w' := ends
      exact swept.untaken apart live indexed
  | error e =>
      have untaken : Untaken mount own w w' := ends
      exact untaken apart live indexed

/-- The live container of that host keeps its resources. -/
theorem web_spared :
    ∃ result w',
      Exec (step Readable 7) Supervisor.gc.run cluttered result w' ∧
      Kept "/sys/fs/cgroup" "web" cluttered w' := by
  have found : (collect cluttered).any (fun ended =>
      (ended.2.state? "web").any (·.status.isLive)) = true := by
    decide +kernel
  obtain ⟨result, w', ran, isLive⟩ := exec_of_collect found
  have readable : Exec (step Readable 7) Supervisor.gc.run cluttered result w' :=
    ran.mono fun _ _ _ _ ⟨now, settles, cooperates, answered⟩ =>
      ⟨now, settles, cooperates.readable, answered⟩
  have live : Live w' "web" := by
    obtain ⟨st, found, live⟩ := (Option.any_eq_true _ _).mp isLive
    exact ⟨st, found, live⟩
  refine ⟨result, w', readable, gc_spares rfl (by unfold Indexed; decide) ?_ readable live⟩
  intro id st found st' member other
  obtain rfl := List.mem_singleton.mp member
  have member := List.mem_of_find?_eq_some found
  obtain rfl := List.mem_singleton.mp member
  exact absurd rfl other

end Gc

end Reclaim

end Myrun
