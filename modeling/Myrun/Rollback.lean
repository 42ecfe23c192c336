import Myrun.Reclaim
import Myrun.VethNames

namespace Myrun

/-!
# Rolling back a failed launch

Whichever step of a launch fails: once its undo actions have run, the host has
no cgroup, no process, no lease and no interface that it did not have before.
What carries this is that at every moment each resource that is new is covered
by an action on the rollback stack.
-/

namespace Rollback

open Prog Cleanup Reclaim

/-! ## What is new, and what covers it -/

/-- An interface of the host before the launch, or the bridge. -/
def OldLink (w : World) (bridge : String) (l : Link) : Prop :=
  l.name = bridge ∨ ∃ old ∈ w.links, old.index = l.index ∧ old.name = l.name

/-- The pair of interfaces that a launch created, and the index of its host
end. -/
structure VethPair where
  host : String
  peer : String
  index : UInt32

/-- Deleting the host end deletes all that is left of the pair. -/
structure Paired (w : World) (bridge : String) (pair : VethPair)
    (links : List Link) : Prop where
  different : pair.host ≠ pair.peer
  others : ∀ l ∈ links, OldLink w bridge l ∨ l.name = pair.host ∨ l.name = pair.peer
  host : ∀ l ∈ links, l.name = pair.host →
    l.index = pair.index ∧ (l.peer = none ∨ l.peer = some (pair.index + 1))
  peer : ∀ l ∈ links, l.name = pair.peer →
    l.index = pair.index + 1 ∧ l.peer = some pair.index ∧
      ∃ h ∈ links, h.name = pair.host

/-- Every new interface is one of a pair that is covered. -/
def LinksCovered (w : World) (bridge : String) (pair : Option VethPair)
    (undo : List Undo) (links : List Link) : Prop :=
  match pair with
  | none => ∀ l ∈ links, OldLink w bridge l
  | some pair => .veth pair.host ∈ undo ∧ Paired w bridge pair links

/-- A process of the host before the launch. -/
def OldInit (w : World) (p : InitProc) : Prop :=
  ∃ old ∈ w.inits, old.alive = true ∧ old.pid = p.pid ∧
    old.container = p.container ∧ old.cgroup = p.cgroup

/-- The parent of all container cgroups. -/
def IsBase (w : World) (path : String) : Prop :=
  ∃ mount, w.mount = some mount ∧ path = joinPath mount Cgroup.baseName

/-- Every resource that the host did not have before is covered by an undo
action. -/
structure Covered (w : World) (bridge : String) (pair : Option VethPair)
    (undo : List Undo) (now : World) : Prop where
  mount : now.mount = w.mount
  dirs : ∀ path ∈ now.dirs, path ∈ w.dirs ∨ IsBase w path ∨ .cgroup path ∈ undo
  -- the cgroup is what is removed last
  last : ∀ front path rest, undo = front ++ .cgroup path :: rest → rest = []
  leases : ∀ lease ∈ now.leases.entries,
    lease ∈ w.leases.entries ∨ .lease lease.id ∈ undo
  links : LinksCovered w bridge pair undo now.links
  inits : ∀ p ∈ now.inits, p.alive = true → OldInit w p ∨ .process p.pid ∈ undo
  pids : (now.inits.map InitProc.pid).Nodup

/-! ## Operations that only remove -/

/-- A pair stays a pair when an interface is deleted. -/
private theorem Paired.without
    {w now : World}
    {bridge : String}
    {pair : VethPair}
    (paired : Paired w bridge pair now.links)
    (index : UInt32) :
    Paired w bridge pair (now.withoutLink index).links where
  different := paired.different
  others := fun l member => paired.others l (List.mem_filter.mp member).1
  host := fun l member => paired.host l (List.mem_filter.mp member).1
  peer := by
    intro l member named
    obtain ⟨there, kept⟩ := List.mem_filter.mp member
    obtain ⟨isNext, isPeer, h, isLink, isHost⟩ := paired.peer l there named
    refine ⟨isNext, isPeer, h, ?_, isHost⟩
    obtain ⟨sameIndex, other⟩ := paired.host h isLink isHost
    refine List.mem_filter.mpr ⟨isLink, ?_⟩
    simp only [isNext, isPeer, ne_eq, Option.some.injEq, decide_eq_true_eq] at kept
    rcases other with none | other
    · simpa [sameIndex, none] using kept.2
    · simpa [sameIndex, other, and_comm] using kept

/-- What such operations do: they remove interfaces one by one. -/
structure Removes (w w' : World) : Prop where
  shrinks : Shrinks w w'
  links : w'.links = w.links ∨ ∃ index, w'.links = (w.withoutLink index).links

/-- The same resources are no new ones. -/
private theorem Removes.of_same
    {w w' : World}
    (same : Same w w') :
    Removes w w' where
  shrinks := same.shrinks
  links := .inl same.links

/-- A cleaning operation makes no resource. -/
private theorem Removes.of_answer
    {w w' : World}
    {self : Pid}
    {op : Op}
    {answer : Ans op}
    (cleaning : Cleaning op)
    (answered : w.answer self op answer = some w') :
    Removes w w' := by
  cases op with
  | host op =>
      refine ⟨.of_hostAnswer cleaning answered, ?_⟩
      by_cases plain : Ordinary op
      · exact .inl (same_of_hostAnswer plain answered).links
      cases op with
      | removeEmptyDir path =>
          cases answer with
          | removed =>
              simp only [World.answer, World.hostAnswer] at answered
              split at answered
              · cases answered
              · obtain rfl := Option.some.inj answered
                exact .inl rfl
          | busy =>
              obtain rfl := Option.some.inj answered
              exact .inl rfl
          | failed e =>
              obtain rfl := Option.some.inj answered
              exact .inl rfl
      | leaseRelease id =>
          cases answer with
          | error e =>
              obtain rfl := Option.some.inj answered
              exact .inl rfl
          | ok u =>
              obtain rfl := Option.some.inj answered
              exact .inl rfl
      | leaseGc liveIds =>
          cases answer with
          | error e =>
              obtain rfl := Option.some.inj answered
              exact .inl rfl
          | ok removed =>
              simp only [World.answer, World.hostAnswer] at answered
              split at answered
              · obtain rfl := Option.some.inj answered
                exact .inl rfl
              · cases answered
      | deleteLink index =>
          cases answer with
          | error e =>
              obtain rfl := Option.some.inj answered
              exact .inl rfl
          | ok u =>
              obtain rfl := Option.some.inj answered
              exact .inr ⟨index, rfl⟩
      | _ => exact absurd cleaning plain
  | _ =>
      refine .of_same (same_of_answer (fun _ never => ?_) cleaning answered)
      cases never

section Stable

variable {w : World} {bridge : String} {pair : Option VethPair}
  {undo : List Undo} {now now' : World}

/-- What is gone needs no cover. -/
theorem Covered.of_shrinks
    (covered : Covered w bridge pair undo now)
    (shrinks : Shrinks now now')
    (links : LinksCovered w bridge pair undo now'.links) :
    Covered w bridge pair undo now' where
  mount := shrinks.mount.trans covered.mount
  dirs := fun path member => covered.dirs path (shrinks.dirs member)
  last := covered.last
  leases := fun lease member => covered.leases lease (shrinks.leases member)
  links := links
  inits := fun p member alive => covered.inits p (shrinks.inits p member alive) alive
  pids := by
    rw [shrinks.pids]
    exact covered.pids

/-- What is gone needs no rollback step. -/
private theorem Covered.of_removes
    (covered : Covered w bridge pair undo now)
    (removes : Removes now now') :
    Covered w bridge pair undo now' := by
  refine covered.of_shrinks removes.shrinks ?_
  have links := covered.links
  rcases removes.links with same | ⟨index, same⟩
  · rw [same]
    exact links
  · rw [same]
    cases pair with
    | none => exact fun l member => links l (List.mem_filter.mp member).1
    | some pair => exact ⟨links.1, links.2.without index⟩

/-- What happens on its own needs no rollback step. -/
private theorem Covered.of_happen
    (covered : Covered w bridge pair undo now)
    {what : World.Happening}
    (happened : now.happen what = some now') :
    Covered w bridge pair undo now' := by
  have shrinks := Shrinks.of_happen happened
  refine covered.of_removes ⟨shrinks, ?_⟩
  cases what with
  | initDies pid =>
      obtain rfl := Option.some.inj happened
      exact .inl rfl
  | linkVanishes index =>
      simp only [World.happen] at happened
      split at happened
      · obtain rfl := Option.some.inj happened
        exact .inr ⟨index, rfl⟩
      · cases happened

/-- Nor does any number of such happenings. -/
private theorem Covered.of_settles
    (covered : Covered w bridge pair undo now)
    (settles : Settles now now') :
    Covered w bridge pair undo now' := by
  induction settles with
  | refl => exact covered
  | tail before happened inductionHypothesis =>
      obtain ⟨what, happened⟩ := happened
      exact inductionHypothesis.of_happen happened

/-- One more action on the stack; the first is that for the cgroup. -/
theorem Covered.push
    (covered : Covered w bridge pair undo now)
    (u : Undo)
    (later : (∃ path, u = .cgroup path) → undo = []) :
    Covered w bridge pair (u :: undo) now where
  mount := covered.mount
  dirs := fun path member =>
    (covered.dirs path member).imp_right (Or.imp_right (List.mem_cons_of_mem u))
  last := by
    rintro (_ | ⟨_, front⟩) path rest same
    · obtain ⟨rfl, rfl⟩ := List.cons.inj same
      exact later ⟨path, rfl⟩
    · obtain ⟨_, same⟩ := List.cons.inj same
      exact covered.last front path rest same
  leases := fun lease member =>
    (covered.leases lease member).imp_right (List.mem_cons_of_mem u)
  links := by
    have links := covered.links
    cases pair with
    | none => exact links
    | some pair => exact ⟨List.mem_cons_of_mem u links.1, links.2⟩
  inits := fun p member alive =>
    (covered.inits p member alive).imp_right (List.mem_cons_of_mem u)
  pids := covered.pids

variable {C : Restriction} {self : Pid} {α : Type}

/-- A cleaning step needs no rollback step. -/
private theorem Covered.of_step
    (covered : Covered w bridge pair undo now)
    {op : Op}
    {answer : Ans op}
    (cleaning : Cleaning op)
    (stepped : step C self now op answer now') :
    Covered w bridge pair undo now' := by
  obtain ⟨_, settles, _, answered⟩ := stepped
  exact (covered.of_settles settles).of_removes (.of_answer cleaning answered)

/-- A program of cleaning operations needs no rollback step. -/
private theorem wp_cleaning
    {p : Prog Op Ans α}
    (uses : OnlyUses Cleaning p)
    (covered : Covered w bridge pair undo now)
    {Q : α → World → Prop}
    (holds : ∀ value now', Covered w bridge pair undo now' → Q value now') :
    p.wp (.ofStep (step C self)) now Q := by
  induction uses generalizing now with
  | ret value => exact holds value now covered
  | call cleaning rest inductionHypothesis =>
      intro answer now' stepped
      exact inductionHypothesis answer (covered.of_step cleaning stepped)

/-- The same for a program that may fail. -/
private theorem wp_cleaningAct
    {p : Act α}
    (uses : OnlyUses Cleaning p.run)
    (covered : Covered w bridge pair undo now)
    {ok : α → World → Prop}
    {err : Error → World → Prop}
    (okHolds : ∀ value now', Covered w bridge pair undo now' → ok value now')
    (errHolds : ∀ e now', Covered w bridge pair undo now' → err e now') :
    p.wp (.ofStep (step C self)) now ok err := by
  refine wp_cleaning uses covered ?_
  intro result now' covered
  cases result with
  | ok value => exact okHolds value now' covered
  | error e => exact errHolds e now' covered

/-- The same for a program of the host. -/
private theorem wp_cleaningHost
    {p : HostAct α}
    (uses : OnlyUses Removing p.run)
    (covered : Covered w bridge pair undo now)
    {ok : α → World → Prop}
    {err : Error → World → Prop}
    (okHolds : ∀ value now', Covered w bridge pair undo now' → ok value now')
    (errHolds : ∀ e now', Covered w bridge pair undo now' → err e now') :
    p.wp (hostRules C self) now ok err :=
  wp_lift.mp (wp_cleaningAct
    (uses.embed (R := Cleaning) (fun _ removing => removing) _)
    covered okHolds errHolds)

end Stable

/-! ## Undoing -/

/-- What an undo action was registered for is gone. -/
def Undone (w : World) (pair : Option VethPair) (now : World) : Undo → Prop
  | .cgroup path => path ∈ now.dirs → path ∈ w.dirs
  | .process pid => ∀ p ∈ now.inits, p.pid = pid → p.alive = false
  | .lease id => ∀ lease ∈ now.leases.entries, lease.id ≠ id
  | .veth name => ∀ p ∈ pair, p.host = name → ∀ l ∈ now.links, l.name ≠ name
  | .rules _ => True
  | .network _ _ => True

/-- Every process is in a cgroup that exists. -/
def Housed (w : World) : Prop :=
  ∀ path, w.populated path = true → path ∈ w.dirs

section Undoing

variable {w : World} {bridge : String} {pair : Option VethPair}
  {u : Undo} {rest : List Undo} {now now' : World}

/-- A key finds the only entry that has it. -/
theorem find?_key
    {α β : Type}
    [DecidableEq β]
    {key : α → β}
    {entries : List α}
    (distinct : (entries.map key).Nodup)
    {entry : α}
    (member : entry ∈ entries) :
    entries.find? (fun other => key other = key entry) = some entry := by
  cases found : entries.find? (fun other => key other = key entry) with
  | none => simp at found; exact absurd rfl (found entry member)
  | some other =>
      have same : key other = key entry := by simpa using List.find?_some found
      rw [List.inj_on_of_nodup_map distinct (List.mem_of_find?_eq_some found) member same]

/-- What was undone needs its undo action no more. -/
theorem Covered.popped
    (covered : Covered w bridge pair (u :: rest) now)
    (undone : Undone w pair now u) :
    ∃ pair', (pair = none → pair' = none) ∧ Covered w bridge pair' rest now := by
  suffices links : ∃ pair', (pair = none → pair' = none) ∧
      LinksCovered w bridge pair' rest now.links by
    obtain ⟨pair', stays, links⟩ := links
    refine ⟨pair', stays, ?_⟩
    exact
      { mount := covered.mount
        dirs := by
          intro path member
          rcases covered.dirs path member with old | base | new
          · exact .inl old
          · exact .inr (.inl base)
          · rcases List.mem_cons.mp new with rfl | inRest
            · exact .inl (undone member)
            · exact .inr (.inr inRest)
        last := fun front path back same =>
          covered.last (u :: front) path back (by rw [same, List.cons_append])
        leases := by
          intro lease member
          rcases covered.leases lease member with old | new
          · exact .inl old
          · rcases List.mem_cons.mp new with rfl | inRest
            · exact absurd rfl (undone lease member)
            · exact .inr inRest
        links := links
        inits := by
          intro p member alive
          rcases covered.inits p member alive with old | new
          · exact .inl old
          · rcases List.mem_cons.mp new with rfl | inRest
            · exact absurd alive (by simp [undone p member rfl])
            · exact .inr inRest
        pids := covered.pids }
  have links := covered.links
  cases pair with
  | none => exact ⟨none, fun _ => rfl, links⟩
  | some pair =>
      obtain ⟨isThere, paired⟩ := links
      rcases List.mem_cons.mp isThere with rfl | inRest
      · refine ⟨none, fun _ => rfl, fun l member => ?_⟩
        rcases paired.others l member with old | isHost | isPeer
        · exact old
        · exact absurd isHost (undone pair rfl rfl l member)
        · obtain ⟨_, _, h, isLink, isHost⟩ := paired.peer l member isPeer
          exact absurd isHost (undone pair rfl rfl h isLink)
      · exact ⟨some pair, fun same => same, inRest, paired⟩

/-- A step that was undone is no longer needed on the stack. -/
private theorem Covered.pop
    (covered : Covered w bridge pair (u :: rest) now)
    (undone : Undone w pair now u) :
    ∃ pair', Covered w bridge pair' rest now := by
  obtain ⟨pair', _, popped⟩ := covered.popped undone
  exact ⟨pair', popped⟩

variable {C : Restriction} {self : Pid}

/-- An ordinary operation is one that removes at most. -/
private theorem removing_of_ordinary
    (op : HostOp)
    (plain : Ordinary op) :
    Removing op := by
  cases op <;> first | exact plain | exact plain.elim

/-- A process that is new is not in the cgroup that is removed last. -/
theorem old_of_populated
    (housed : Housed w)
    {path : String}
    (covered : Covered w bridge pair [.cgroup path] now)
    (populated : now.populated path = true) :
    path ∈ w.dirs := by
  refine housed path ?_
  obtain ⟨p, member, holds⟩ := List.any_eq_true.mp populated
  simp only [Bool.and_eq_true, decide_eq_true_eq] at holds
  rcases covered.inits p member holds.1 with ⟨q, there, alive, _, _, same⟩ | new
  · refine List.any_eq_true.mpr ⟨q, there, ?_⟩
    simp [alive, same, holds.2]
  · simp at new

/-- Undoing a cgroup removes it or leaves it to its processes. -/
private theorem wp_undoCgroup
    {path : String}
    (full : Full C)
    (housed : Housed w)
    (covered : Covered w bridge pair (.cgroup path :: rest) now) :
    (Undo.cgroup path).run.wp (.ofStep (step C self)) now
      (fun _ now' => ∃ pair', Covered w bridge pair' rest now')
      fun _ now' => ∃ pair', Covered w bridge pair' rest now' := by
  obtain rfl : rest = [] := covered.last [] path rest rfl
  have noPair : pair = none := by
    cases pair with
    | none => rfl
    | some pair =>
        have member := covered.links.1
        simp at member
  subst noPair
  have ends : ∀ now', Quiet False "" "" now now' → Gone C now path now' →
      ∃ pair', Covered w bridge pair' [] now' := by
    intro now' quiet gone
    refine Covered.pop (covered.of_shrinks quiet.shrinks ?_)
      fun there => old_of_populated housed covered (gone full there)
    exact fun l member => covered.links l (quiet.shrinks.links.subset member)
  rw [Undo.run, Fallible.wp_bind]
  have start : Quiet False "" "" now now := .refl
  refine wp_lift.mpr (wp_attach start (fun cg now₁ quiet same => ?_)
    fun e now₁ quiet missing => ?_)
  · subst same
    refine wp_lift.mpr (wp_remove (fun never => never.elim) quiet ends fun _ => ends)
  · exact ends now₁ quiet fun _ there => absurd there missing

/-- Undoing a process kills it and waits for its end. -/
private theorem wp_undoProcess
    {pid : Pid}
    (covered : Covered w bridge pair (.process pid :: rest) now) :
    (Undo.process pid).run.wp (.ofStep (step C self)) now
      (fun _ now' => ∃ pair', Covered w bridge pair' rest now')
      fun _ now' => ∃ pair', Covered w bridge pair' rest now' := by
  have kills : OnlyUses Removing (killPid pid sigkill).run := .perform trivial
  have waits : ∀ now₁, Covered w bridge pair (.process pid :: rest) now₁ →
      (do
        let _ ← (waitPid pid false).attempt
        return () : Act Unit).wp (.ofStep (step C self)) now₁
          (fun _ now' => ∃ pair', Covered w bridge pair' rest now')
          fun _ now' => ∃ pair', Covered w bridge pair' rest now' := by
    intro now₁ covered
    rw [Fallible.wp_bind, Fallible.wp_attempt]
    rintro answer now₂ stepped
    have after :=
      covered.of_step (show Cleaning (.waitPid pid false) from trivial) stepped
    obtain ⟨later, _, _, answered⟩ := stepped
    obtain ⟨waited, rfl⟩ := World.provided_eq_some.mp answered
    have dead : later.initAlive pid = false := by simpa using waited
    have undone : Undone w pair later (.process pid) := by
      rintro p member rfl
      have first : later.init? p.pid = some p := find?_key after.pids member
      simpa [World.initAlive, first] using dead
    cases answer with
    | ok status => exact after.pop undone
    | error e => exact after.pop undone
  rw [Undo.run, Fallible.wp_bind]
  exact wp_lift.mpr ((Fallible.wp_attempt _ _ _).mpr
    (wp_cleaningHost kills covered (fun _ => waits) fun _ => waits))

/-- Undoing a lease releases it. -/
private theorem wp_undoLease
    {id : String}
    (full : Full C)
    (covered : Covered w bridge pair (.lease id :: rest) now) :
    (Undo.lease id).run.wp (.ofStep (step C self)) now
      (fun _ now' => ∃ pair', Covered w bridge pair' rest now')
      fun _ now' => ∃ pair', Covered w bridge pair' rest now' := by
  refine wp_lift.mpr ?_
  rintro answer now₁ stepped
  have after :=
    covered.of_step (show Cleaning (.host (.leaseRelease id)) from trivial) stepped
  obtain ⟨later, _, permitted, answered⟩ := stepped
  cases answer with
  | error e => exact (full permitted).elim
  | ok u =>
      obtain rfl := Option.some.inj answered
      refine after.pop fun lease member => ?_
      simpa using (List.mem_filter.mp member).2

/-- Looking up an interface, whatever was covered. -/
theorem wp_findLink
    (name : String)
    {undo : List Undo}
    (covered : Covered w bridge pair undo now)
    {ok : Option UInt32 → World → Prop}
    {err : Error → World → Prop}
    (okHolds : ∀ now', Covered w bridge pair undo now' →
      ok ((now'.link? name).map Link.index) now')
    (errHolds : ∀ e now', Covered w bridge pair undo now' →
      C now' (.host (.linkIndex name)) (.error e) → err e now') :
    (Network.linkIndex name).wp (hostRules C self) now ok err := by
  rintro answer now₁ stepped
  have after :=
    covered.of_step (show Cleaning (.host (.linkIndex name)) from trivial) stepped
  obtain ⟨later, _, permitted, answered⟩ := stepped
  cases answer with
  | ok index =>
      obtain ⟨rfl, rfl⟩ := World.provided_eq_some.mp answered
      exact okHolds later after
  | error e =>
      obtain rfl := Option.some.inj answered
      exact errHolds e later after permitted

/-- Undoing an interface deletes the pair. -/
private theorem wp_undoVeth
    {name : String}
    (full : Full C)
    (covered : Covered w bridge pair (.veth name :: rest) now) :
    (Undo.veth name).run.wp (.ofStep (step C self)) now
      (fun _ now' => ∃ pair', Covered w bridge pair' rest now')
      fun _ now' => ∃ pair', Covered w bridge pair' rest now' := by
  refine wp_lift.mpr ?_
  rw [Network.deleteHostVeth, Fallible.wp_bind]
  rintro answer now₁ stepped
  have opened :=
    covered.of_step (show Cleaning (.host (.prepare .openNetlink)) from trivial) stepped
  obtain ⟨_, _, permitted, _⟩ := stepped
  cases answer with
  | error e => exact (full permitted).elim
  | ok u =>
      refine (Fallible.wp_bind _ _ _ _).mpr (wp_findLink name opened
        (fun now₂ covered => ?_) fun e now₂ _ refused => (full refused).elim)
      cases found : now₂.link? name with
      | none =>
          refine covered.pop fun p _ _ l member same => ?_
          exact List.find?_eq_none.mp found l member (decide_eq_true same)
      | some h =>
          rintro answer now₃ stepped
          have after := covered.of_step
            (show Cleaning (.host (.deleteLink h.index)) from trivial) stepped
          obtain ⟨later, settles, permitted, answered⟩ := stepped
          cases answer with
          | error e => exact (full permitted).elim
          | ok u =>
              obtain rfl := Option.some.inj answered
              refine after.pop ?_
              rintro p isPair rfl l member same
              obtain rfl : pair = some p := isPair
              have there : h ∈ now₂.links := List.mem_of_find?_eq_some found
              have named : h.name = p.host := by simpa using List.find?_some found
              have isIndex := (covered.links.2.host h there named).1
              have settled := covered.of_settles settles
              obtain ⟨isLink, kept⟩ := List.mem_filter.mp member
              have sameIndex := (settled.links.2.host l isLink same).1
              simp [isIndex, sameIndex] at kept

/-- An undo action undoes what it was registered for. -/
theorem wp_undo
    (full : Full C)
    (housed : Housed w)
    (covered : Covered w bridge pair (u :: rest) now) :
    u.run.wp (.ofStep (step C self)) now
      (fun _ now' => ∃ pair', Covered w bridge pair' rest now')
      fun _ now' => ∃ pair', Covered w bridge pair' rest now' := by
  cases u with
  | cgroup path => exact wp_undoCgroup full housed covered
  | process pid => exact wp_undoProcess covered
  | lease id => exact wp_undoLease full covered
  | veth name => exact wp_undoVeth full covered
  | rules id =>
      have uses : OnlyUses Removing (PacketFilter.cleanup id).run :=
        uses_cleanup removing_of_ordinary id
      rw [Undo.run, Fallible.wp_bind]
      exact wp_lift.mpr (wp_cleaningHost uses covered
        (fun _ _ covered => covered.pop trivial) fun _ _ covered => covered.pop trivial)
  | network id net =>
      have uses : OnlyUses Removing (Network.teardown id net).run :=
        uses_networkTeardown removing_of_ordinary trivial (fun _ => trivial) net
      exact wp_lift.mpr (wp_cleaningHost uses covered
        (fun _ _ covered => covered.pop trivial) fun _ _ covered => covered.pop trivial)

/-- Once the whole stack was unwound, nothing is new. -/
theorem wp_unwind
    (full : Full C)
    (housed : Housed w)
    {undo : List Undo}
    (covered : Covered w bridge pair undo now) :
    (Undo.unwind undo).wp (.ofStep (step C self)) now
      (fun _ now' => ∃ pair', Covered w bridge pair' [] now')
      fun _ now' => ∃ pair', Covered w bridge pair' [] now' := by
  induction undo generalizing pair now with
  | nil => exact ⟨pair, covered⟩
  | cons u rest inductionHypothesis =>
      rw [Undo.unwind, Fallible.wp_bind, Fallible.wp_attempt]
      have both : ∀ now', (∃ pair', Covered w bridge pair' rest now') →
          (Undo.unwind rest).wp (.ofStep (step C self)) now'
            (fun _ now' => ∃ pair', Covered w bridge pair' [] now')
            fun _ now' => ∃ pair', Covered w bridge pair' [] now' := by
        rintro now' ⟨pair', covered⟩
        exact inductionHypothesis covered
      refine wp_mono (fun result now' undone => ?_) (wp_undo full housed covered)
      cases result with
      | ok _ => exact both now' undone
      | error _ => exact both now' undone

end Undoing

/-! ## Operations that add something -/

section Adding

variable {w : World} {bridge : String} {pair : Option VethPair}
  {undo : List Undo} {now now' : World}

/-- A new directory is the base or has its rollback step. -/
private theorem Covered.of_makeDir
    (covered : Covered w bridge pair undo now)
    {path : String}
    (cover : IsBase w path ∨ .cgroup path ∈ undo)
    {self : Pid}
    {answer : Result Unit}
    (answered : now.answer self (.host (.makeDir path)) answer = some now') :
    Covered w bridge pair undo now' := by
  cases answer with
  | error e =>
      obtain rfl := Option.some.inj answered
      exact covered
  | ok u =>
      simp only [World.answer, World.hostAnswer] at answered
      split at answered
      · cases answered
      · obtain rfl := Option.some.inj answered
        refine { covered with dirs := ?_ }
        rintro other (_ | ⟨_, old⟩)
        · exact .inr cover
        · exact covered.dirs other old

/-- A new process has its rollback step. -/
private theorem Covered.of_cloneInit
    (covered : Covered w bridge pair undo now)
    {id : String}
    {cgroup : Option String}
    {pid : Pid}
    (cover : .process pid ∈ undo)
    {self : Pid}
    (answered : now.answer self (.cloneInit id cgroup) (.ok pid) = some now') :
    Covered w bridge pair undo now' := by
  simp only [World.answer] at answered
  split at answered
  · rename_i fresh
    obtain rfl := Option.some.inj answered
    refine { covered with inits := ?_, pids := ?_ }
    · rintro p (_ | ⟨_, old⟩) alive
      · exact .inr cover
      · exact covered.inits p old alive
    · refine List.nodup_cons.mpr ⟨?_, covered.pids⟩
      intro taken
      obtain ⟨p, member, same⟩ := List.mem_map.mp taken
      simp only [World.freshPid, Bool.and_eq_true, Option.isNone_iff_eq_none] at fresh
      exact List.find?_eq_none.mp fresh.2 p member (decide_eq_true same)
  · cases answered

/-- A process that moves is one with a rollback step. -/
private theorem Covered.of_addPid
    (covered : Covered w bridge pair undo now)
    {path : String}
    {pid : Pid}
    (cover : .process pid ∈ undo)
    {self : Pid}
    {answer : Result Unit}
    (answered : now.answer self (.host (.addPid path pid)) answer = some now') :
    Covered w bridge pair undo now' := by
  cases answer with
  | error e =>
      obtain rfl := Option.some.inj answered
      exact covered
  | ok u =>
      obtain rfl := Option.some.inj answered
      refine { covered with inits := ?_, pids := ?_ }
      · intro p member alive
        obtain ⟨q, old, rfl⟩ := List.mem_map.mp member
        by_cases moved : q.pid = pid
        · simp only [moved, if_true]
          exact .inr cover
        · simp only [moved, if_false] at alive ⊢
          exact covered.inits q old alive
      · rw [List.map_map]
        have same : (InitProc.pid ∘ fun q : InitProc =>
            if q.pid = pid then { q with cgroup := some path } else q) =
              InitProc.pid := by
          funext q
          by_cases moved : q.pid = pid <;> simp [moved]
        rw [same]
        exact covered.pids

/-- A new lease has its rollback step. -/
private theorem Covered.of_leaseAllocate
    (covered : Covered w bridge pair undo now)
    {subnet id : String}
    {requested : Option Ipv4}
    {gateway : Ipv4}
    (cover : .lease id ∈ undo)
    {self : Pid}
    {granted : Ipv4 × UInt8}
    (answered : now.answer self
      (.host (.leaseAllocate subnet id requested gateway)) (.ok granted) =
        some now') :
    Covered w bridge pair undo now' := by
  simp only [World.answer, World.hostAnswer] at answered
  split at answered
  · rename_i ip change _ assigned
    split at answered
    · obtain rfl := Option.some.inj answered
      refine { covered with leases := ?_ }
      have old : ∀ lease ∈ (now.leases.forSubnet subnet).entries,
          lease ∈ now.leases.entries := by
        intro lease member
        unfold Leases.forSubnet at member
        split at member
        · cases member
        · exact member
      cases Leases.assign_ok assigned with
      | reused held => exact covered.leases
      | fresh free =>
          intro lease member
          rcases List.mem_append.mp member with kept | new
          · exact covered.leases lease (old lease (List.mem_filter.mp kept).1)
          · obtain rfl := List.mem_singleton.mp new
            exact .inr cover
    · cases answered
  · cases answered

/-- The bridge needs no rollback step. -/
private theorem Covered.of_createBridge
    (covered : Covered w bridge none undo now)
    {self : Pid}
    {answer : Result Unit}
    (answered : now.answer self (.host (.createBridge bridge)) answer = some now') :
    Covered w bridge none undo now' := by
  cases answer with
  | error e =>
      obtain rfl := Option.some.inj answered
      exact covered
  | ok u =>
      simp only [World.answer, World.hostAnswer] at answered
      split at answered
      · cases answered
      · obtain rfl := Option.some.inj answered
        refine { covered with links := ?_ }
        intro l member
        rcases List.mem_append.mp member with old | new
        · exact covered.links l old
        · obtain rfl := List.mem_singleton.mp new
          exact .inl rfl

/-- A new pair has the rollback step of its host end. -/
private theorem Covered.of_createVeth
    (covered : Covered w bridge none undo now)
    {host peer : String}
    (different : host ≠ peer)
    (cover : .veth host ∈ undo)
    {self : Pid}
    (answered : now.answer self (.host (.createVeth host peer)) (.ok ()) =
      some now') :
    Covered w bridge (some { host, peer, index := now.nextIndex }) undo now' := by
  simp only [World.answer, World.hostAnswer] at answered
  split at answered
  · cases answered
  · rename_i absent
    obtain rfl := Option.some.inj answered
    simp only [Bool.or_eq_true, not_or, Option.not_isSome_iff_eq_none] at absent
    have newHost : ∀ l ∈ now.links, l.name ≠ host := fun l member same =>
      List.find?_eq_none.mp absent.1 l member (decide_eq_true same)
    have newPeer : ∀ l ∈ now.links, l.name ≠ peer := fun l member same =>
      List.find?_eq_none.mp absent.2 l member (decide_eq_true same)
    refine { covered with links := ⟨cover, ?_⟩ }
    refine { different := different, others := ?_, host := ?_, peer := ?_ }
    · intro l member
      rcases List.mem_append.mp member with old | new
      · exact .inl (covered.links l old)
      · simp only [List.mem_cons, List.not_mem_nil, or_false] at new
        rcases new with rfl | rfl
        · exact .inr (.inl rfl)
        · exact .inr (.inr rfl)
    · intro l member same
      rcases List.mem_append.mp member with old | new
      · exact absurd same (newHost l old)
      · simp only [List.mem_cons, List.not_mem_nil, or_false] at new
        rcases new with rfl | rfl
        · exact ⟨rfl, .inr rfl⟩
        · exact absurd same.symm different
    · intro l member same
      rcases List.mem_append.mp member with old | new
      · exact absurd same (newPeer l old)
      · simp only [List.mem_cons, List.not_mem_nil, or_false] at new
        rcases new with rfl | rfl
        · exact absurd same different
        · exact ⟨rfl, rfl, _, List.mem_append_right _ List.mem_cons_self, rfl⟩

/-- Handing over the other end of the pair. -/
theorem Covered.of_moveToNetns
    {new : VethPair}
    (covered : Covered w bridge (some new) undo now)
    {index : UInt32}
    (isPeer : index = new.index + 1)
    {pid : Pid}
    {name : String}
    {self : Pid}
    {answer : Result Unit}
    (answered : now.answer self (.host (.moveToNetns index pid name)) answer =
      some now') :
    Covered w bridge (some new) undo now' := by
  cases answer with
  | error e =>
      obtain rfl := Option.some.inj answered
      exact covered
  | ok u =>
      obtain rfl := Option.some.inj answered
      obtain ⟨cover, paired⟩ := covered.links
      refine { covered with links := ⟨cover, ?_⟩ }
      have origin : ∀ l ∈ (now.links.filter (·.index ≠ index)).map (fun l =>
          if l.peer = some index then { l with peer := none, peerIn := some pid } else l),
          ∃ old ∈ now.links, old.index ≠ index ∧ old.index = l.index ∧
            old.name = l.name ∧ (l.peer = none ∨ l.peer = old.peer) := by
        intro l member
        obtain ⟨old, there, rfl⟩ := List.mem_map.mp member
        obtain ⟨isLink, kept⟩ := List.mem_filter.mp there
        refine ⟨old, isLink, of_decide_eq_true kept, ?_⟩
        by_cases other : old.peer = some index <;> simp [other]
      refine { different := paired.different, others := ?_, host := ?_, peer := ?_ }
      · intro l member
        obtain ⟨old, there, _, sameIndex, sameName, _⟩ := origin l member
        rcases paired.others old there with isOld | isNew
        · rcases isOld with isBridge | ⟨before, wasThere, index', name'⟩
          · exact .inl (.inl (sameName ▸ isBridge))
          · exact .inl (.inr ⟨before, wasThere, index'.trans sameIndex,
              name'.trans sameName⟩)
        · exact .inr (sameName ▸ isNew)
      · intro l member isHost
        obtain ⟨old, there, _, sameIndex, sameName, samePeer⟩ := origin l member
        obtain ⟨hostIndex, other⟩ := paired.host old there (sameName.trans isHost)
        refine ⟨sameIndex ▸ hostIndex, ?_⟩
        rcases samePeer with none | same
        · exact .inl none
        · rwa [same]
      · intro l member isThePeer
        obtain ⟨old, there, notMoved, _, sameName, _⟩ := origin l member
        obtain ⟨peerIndex, _⟩ := paired.peer old there (sameName.trans isThePeer)
        exact absurd (peerIndex.trans isPeer.symm) notMoved

end Adding

/-! ## Programs of the launch that create nothing -/

section Removing

open Fallible

/-- Enabling controllers makes no resource. -/
private theorem removing_enableEach
    (dir : String)
    (already controllers : List String) :
    OnlyUses Removing (Cgroup.enableEach dir already controllers).run := by
  induction controllers with
  | nil => exact .ret _
  | cons c rest inductionHypothesis =>
      rw [Cgroup.enableEach]
      split
      · exact uses_bind inductionHypothesis fun _ => .ret _
      · refine uses_bind (uses_attempt (.perform trivial)) fun outcome => ?_
        refine uses_bind inductionHypothesis fun others => ?_
        cases outcome <;> exact .ret _

private theorem removing_enableSubtree
    (dir : String)
    (controllers : List String) :
    OnlyUses Removing (Cgroup.enableSubtree dir controllers).run :=
  uses_bind (uses_readList removing_of_ordinary _) fun _ =>
    removing_enableEach dir _ controllers

private theorem removing_requireControllers
    (mount : String)
    (missing : List String) :
    OnlyUses Removing (Cgroup.requireControllers mount missing).run := by
  unfold Cgroup.requireControllers
  split
  · exact .ret _
  · refine uses_bind (uses_readList removing_of_ordinary _) fun available => ?_
    refine uses_bind ((OnlyUses.perform trivial).bind fun _ => .ret _) fun allowed => ?_
    cases allowed <;> exact .ret _

private theorem removing_removeLeftover (path : String) :
    OnlyUses Removing (Cgroup.removeLeftover path).run := by
  refine uses_bind ((OnlyUses.perform trivial).bind fun _ => .ret _) fun present => ?_
  cases present with
  | false => exact .ret _
  | true =>
      exact uses_bind ((OnlyUses.perform trivial).bind fun _ => .ret _) fun _ => .ret _

private theorem removing_writeIf
    (cg : Cgroup)
    (controller file value : String) :
    OnlyUses Removing (cg.writeIf controller file value).run := by
  unfold Cgroup.writeIf
  split
  · exact .ret _
  · exact uses_mapErr (.perform trivial)

private theorem removing_applyLimit
    (cg : Cgroup)
    (controller file : String)
    (value : Option String) :
    OnlyUses Removing (cg.applyLimit controller file value).run := by
  cases value with
  | none => exact .ret _
  | some value => exact removing_writeIf cg controller file value

private theorem removing_applySwap
    (cg : Cgroup)
    (res : Resources) :
    OnlyUses Removing (cg.applySwap res).run := by
  unfold Cgroup.applySwap
  split
  · exact removing_writeIf _ _ _ _
  · split
    · exact uses_bind (uses_attempt (removing_writeIf _ _ _ _)) fun _ => .ret _
    · exact .ret _

private theorem removing_finish [F64Ops]
    (cg : Cgroup)
    (res : Resources) :
    OnlyUses Removing (cg.finish res).run := by
  have applies : OnlyUses Removing (cg.apply res).run :=
    uses_bind (removing_applyLimit _ _ _ _) fun _ =>
      uses_bind (removing_applySwap _ _) fun _ =>
        uses_bind (removing_applyLimit _ _ _ _) fun _ =>
          uses_bind (removing_applyLimit _ _ _ _) fun _ =>
            removing_applyLimit _ _ _ _
  exact uses_bind (.perform trivial) fun _ =>
    uses_bind applies fun _ => .perform trivial

private theorem removing_appendUnique (rule : Rule) :
    OnlyUses Removing (PacketFilter.appendUnique rule).run := by
  refine uses_bind (uses_runOk removing_of_ordinary _) fun present => ?_
  cases present with
  | true => exact .ret _
  | false => exact .perform trivial

private theorem removing_insertUnique (rule : Rule) :
    OnlyUses Removing (PacketFilter.insertUnique rule).run := by
  refine uses_bind (uses_runOk removing_of_ordinary _) fun present => ?_
  cases present with
  | true => exact .ret _
  | false => exact .perform trivial

private theorem removing_appendEach (rules : List Rule) :
    OnlyUses Removing (PacketFilter.appendEach rules).run := by
  induction rules with
  | nil => exact .ret _
  | cons rule rest inductionHypothesis =>
      exact uses_bind (removing_appendUnique rule) fun _ => inductionHypothesis

private theorem removing_insertEach (rules : List Rule) :
    OnlyUses Removing (PacketFilter.insertEach rules).run := by
  induction rules with
  | nil => exact .ret _
  | cons rule rest inductionHypothesis =>
      exact uses_bind (removing_insertUnique rule) fun _ => inductionHypothesis

private theorem removing_createChains (chains : List (Table × String)) :
    OnlyUses Removing (PacketFilter.createChains chains).run := by
  induction chains with
  | nil => exact .ret _
  | cons chain rest inductionHypothesis =>
      refine uses_bind (uses_runOk removing_of_ordinary _) fun present => ?_
      cases present with
      | true => exact inductionHypothesis
      | false => exact uses_bind (.perform trivial) fun _ => inductionHypothesis

private theorem removing_ensureChains :
    OnlyUses Removing PacketFilter.ensureChains.run :=
  uses_bind (removing_createChains _) fun _ => removing_insertEach _

private theorem removing_enableSetting (path what : String) :
    OnlyUses Removing (PacketFilter.enableSetting path what).run := by
  refine uses_bind (uses_attempt (uses_readTrimmed removing_of_ordinary path)) fun text => ?_
  split
  · exact .ret _
  · exact uses_mapErr (.perform trivial)

private theorem removing_setupBridge
    (bridge subnet : String)
    (nat : Bool) :
    OnlyUses Removing (PacketFilter.setupBridge bridge subnet nat).run :=
  uses_bind (removing_enableSetting _ _) fun _ =>
    uses_bind (uses_attempt (removing_enableSetting _ _)) fun _ =>
      uses_bind removing_ensureChains fun _ =>
        uses_bind (removing_appendEach _) fun _ => .perform trivial

private theorem removing_publishEach
    (id bridge : String)
    (ip : Ipv4)
    (ports : List PortMapping) :
    OnlyUses Removing (PacketFilter.publishEach id bridge ip ports).run := by
  induction ports with
  | nil => exact .ret _
  | cons m rest inductionHypothesis =>
      refine uses_bind ?_ fun _ => inductionHypothesis
      exact uses_bind removing_ensureChains fun _ => removing_appendEach _

private theorem removing_linkIndexRequired (name : String) :
    OnlyUses Removing (Network.linkIndexRequired name).run := by
  refine uses_bind (.perform trivial) fun index => ?_
  cases index <;> exact .ret _

private theorem removing_addGateway
    (bridge : String)
    (index : UInt32)
    (gateway : Ipv4)
    (prefixLen : UInt8) :
    OnlyUses Removing (Network.addGateway bridge index gateway prefixLen).run := by
  refine uses_bind (uses_attempt (.perform trivial)) fun outcome => ?_
  cases outcome with
  | ok _ => exact .ret _
  | error e =>
      simp only [Fallible.run_ite]
      split <;> exact .ret _

private theorem removing_removeLeftoverVeth (host : String) :
    OnlyUses Removing (Network.removeLeftoverVeth host).run := by
  refine uses_bind (.perform trivial) fun found => ?_
  cases found with
  | none => exact .ret _
  | some _ =>
      refine uses_bind (.perform trivial) fun found => ?_
      cases found with
      | none => exact .ret _
      | some index => exact uses_bind (uses_attempt (.perform trivial)) fun _ => .ret _

end Removing

/-! ## The launch -/

/-- The cgroup of a failed creation can be removed, and the fault point between
the clone and its registration does not fire. -/
def Tidy : Restriction
  | w, .host (.removeEmptyDir path), .busy => w.populated path = true
  | w, .host (.removeEmptyDir path), .failed _ => path ∉ w.dirs
  | _, .host (.fault point), .error _ => point ≠ "after_clone"
  | _, _, _ => True

section Launch

variable {w : World} {bridge : String} {pair : Option VethPair}
  {undo : List Undo} {now now' : World} {self : Pid} {α : Type}

/-- The mount point is that of the host at first. -/
private theorem wp_mountPoint
    (covered : Covered w bridge pair undo now)
    {ok : String → World → Prop}
    {err : Error → World → Prop}
    (okHolds : ∀ mount now', Covered w bridge pair undo now' →
      w.mount = some mount → ok mount now')
    (errHolds : ∀ e now', Covered w bridge pair undo now' → err e now') :
    Cgroup.mountPoint.wp (hostRules Tidy self) now ok err := by
  rw [Cgroup.mountPoint, Fallible.wp_bind, Fallible.wp_lift]
  rintro answer now₁ stepped
  have after := covered.of_step (show Cleaning (.host .cgroupMount) from trivial) stepped
  obtain ⟨later, _, _, answered⟩ := stepped
  obtain ⟨rfl, rfl⟩ := World.provided_eq_some.mp answered
  cases mounted : later.mount with
  | none => exact errHolds _ later after
  | some mount => exact okHolds mount later after (after.mount.symm.trans mounted)

/-- A directory is made when it is covered. -/
private theorem wp_makeDir
    (covered : Covered w bridge pair undo now)
    {undo' : List Undo}
    (wider : ∀ now', Covered w bridge pair undo now' → Covered w bridge pair undo' now')
    {path : String}
    (cover : IsBase w path ∨ .cgroup path ∈ undo')
    {ok : Unit → World → Prop}
    {err : Error → World → Prop}
    (okHolds : ∀ now', Covered w bridge pair undo' now' → ok () now')
    (errHolds : ∀ e now', Covered w bridge pair undo now' → err e now') :
    (Cgroup.makeDir path).wp (hostRules Tidy self) now ok err := by
  rw [Cgroup.makeDir, Fallible.wp_mapErr]
  rintro answer now₁ ⟨later, settles, _, answered⟩
  have settled := covered.of_settles settles
  cases answer with
  | ok u => exact okHolds now₁ ((wider later settled).of_makeDir cover answered)
  | error e =>
      obtain rfl := Option.some.inj answered
      exact errHolds _ later settled

/-- A creation that fails removes what it made. -/
theorem wp_discard
    (housed : Housed w)
    {path : String}
    (covered : Covered w bridge none [.cgroup path] now)
    {e : Error}
    {ok : α → World → Prop}
    {err : Error → World → Prop}
    (errHolds : ∀ now', Covered w bridge none [] now' → err e now') :
    (do
      let _ ← Fallible.lift (askHost (.removeEmptyDir path))
      .ofExcept (.error e) : HostAct α).wp (hostRules Tidy self) now ok err := by
  rw [Fallible.wp_bind, Fallible.wp_lift]
  rintro outcome now₁ stepped
  have after := covered.of_step
    (show Cleaning (.host (.removeEmptyDir path)) from trivial) stepped
  obtain ⟨later, _, permitted, answered⟩ := stepped
  have undone : Undone w none now₁ (.cgroup path) := by
    intro there
    cases outcome with
    | removed =>
        simp only [World.answer, World.hostAnswer] at answered
        split at answered
        · cases answered
        · obtain rfl := Option.some.inj answered
          exact absurd (List.mem_filter.mp there).2 (by simp)
    | busy =>
        obtain rfl := Option.some.inj answered
        exact old_of_populated housed after permitted
    | failed e =>
        obtain rfl := Option.some.inj answered
        exact absurd there permitted
  obtain ⟨pair', none, popped⟩ := after.popped undone
  obtain rfl := none rfl
  exact errHolds now₁ popped

/-- The base directory needs no rollback step. -/
private theorem wp_ensureBase
    {base : String}
    (isBase : IsBase w base)
    (covered : Covered w bridge none [] now)
    {ok : Unit → World → Prop}
    {err : Error → World → Prop}
    (okHolds : ∀ now', Covered w bridge none [] now' → ok () now')
    (errHolds : ∀ e now', Covered w bridge none [] now' → err e now') :
    (Cgroup.ensureBase base).wp (hostRules Tidy self) now ok err := by
  rw [Cgroup.ensureBase, Fallible.wp_bind]
  refine wp_cleaningHost
    (uses_lift removing_of_ordinary (show Ordinary (.dirExists _) from trivial))
    covered (fun present now₁ covered => ?_) errHolds
  cases present with
  | true => exact okHolds now₁ covered
  | false =>
      exact wp_makeDir covered (fun _ covered => covered) (.inl isBase) okHolds
        errHolds

/-- `Cgroup::create` returns a cgroup that needs one step, or leaves none. -/
private theorem wp_create [F64Ops]
    (housed : Housed w)
    (covered : Covered w bridge none [] now)
    {id : String}
    {res : Resources}
    {ok : Cgroup → World → Prop}
    {err : Error → World → Prop}
    (okHolds : ∀ cg now', Covered w bridge none [.cgroup cg.path] now' → ok cg now')
    (errHolds : ∀ e now', Covered w bridge none [] now' → err e now') :
    (Cgroup.create id res).wp (hostRules Tidy self) now ok err := by
  rw [Cgroup.create, Fallible.wp_bind]
  refine wp_mountPoint covered (fun mount now₁ covered mounted => ?_) errHolds
  have isBase : IsBase w (joinPath mount Cgroup.baseName) := ⟨mount, mounted, rfl⟩
  refine (Fallible.wp_bind _ _ _ _).mpr (wp_cleaningHost
    (removing_enableSubtree _ _) covered (fun _ now₂ covered => ?_) errHolds)
  refine (Fallible.wp_bind _ _ _ _).mpr
    (wp_ensureBase isBase covered (fun now₃ covered => ?_) errHolds)
  refine (Fallible.wp_bind _ _ _ _).mpr (wp_cleaningHost
    (removing_enableSubtree _ _) covered (fun enabled now₄ covered => ?_) errHolds)
  refine (Fallible.wp_bind _ _ _ _).mpr (wp_cleaningHost
    (removing_requireControllers _ _) covered (fun _ now₅ covered => ?_) errHolds)
  refine (Fallible.wp_bind _ _ _ _).mpr (wp_cleaningHost
    (removing_removeLeftover _) covered (fun _ now₆ covered => ?_) errHolds)
  refine (Fallible.wp_bind _ _ _ _).mpr (wp_makeDir covered
    (fun _ covered => covered.push (.cgroup _) fun _ => rfl)
    (.inr List.mem_cons_self) (fun now₇ covered => ?_) errHolds)
  refine (Fallible.wp_bind _ _ _ _).mpr ((Fallible.wp_attempt _ _ _).mpr
    (wp_cleaningHost (removing_finish _ _) covered
      (fun _ now₈ covered => okHolds _ now₈ covered) fun e now₈ covered => ?_))
  exact wp_discard housed covered (errHolds e)

/-- Something covers what is new. -/
def Backed (w : World) (bridge : String) (undo : List Undo) (now : World) : Prop :=
  ∃ pair, Covered w bridge pair undo now

/-- One rollback step more does no harm. -/
private theorem Covered.cover
    (covered : Covered w bridge pair undo now)
    (u : Undo)
    (other : ∀ path, u ≠ .cgroup path) :
    Covered w bridge pair (u :: undo) now :=
  covered.push u fun ⟨path, same⟩ => absurd same (other path)

/-- A host step that makes no resource keeps the stack. -/
private theorem wp_hostTask
    {p : HostAct α}
    (uses : OnlyUses Removing p.run)
    (covered : Covered w bridge pair undo now)
    {ok : α → List Undo → World → Prop}
    (okHolds : ∀ value now', Covered w bridge pair undo now' → ok value undo now') :
    (liftM p : HostTask α).wp (hostRules Tidy self) undo now ok
      fun _ undo' now' => Backed w bridge undo' now' :=
  (Staged.wp_liftM p undo now).mpr
    (wp_cleaningHost uses covered okHolds fun _ _ covered => ⟨pair, covered⟩)

/-- Finding or making the bridge needs no rollback step. -/
private theorem wp_bridgeIndex
    (covered : Covered w bridge none undo now)
    {ok : UInt32 → World → Prop}
    {err : Error → World → Prop}
    (okHolds : ∀ index now', Covered w bridge none undo now' → ok index now')
    (errHolds : ∀ e now', Covered w bridge none undo now' → err e now') :
    (Network.bridgeIndex bridge).wp (hostRules Tidy self) now ok err := by
  rw [Network.bridgeIndex, Fallible.wp_bind]
  refine wp_findLink bridge covered (fun now₁ covered => ?_)
    fun e now₁ covered _ => errHolds e now₁ covered
  cases (now₁.link? bridge).map Link.index with
  | some index => exact okHolds index now₁ covered
  | none =>
      refine (Fallible.wp_bind _ _ _ _).mpr ?_
      rintro answer now₂ ⟨later, settles, _, answered⟩
      have after := (covered.of_settles settles).of_createBridge answered
      cases answer with
      | error e => exact errHolds e now₂ after
      | ok u =>
          exact (Fallible.wp_bind _ _ _ _).mpr (wp_cleaningHost (.perform trivial) after
            (fun _ now₃ covered => wp_cleaningHost (removing_linkIndexRequired bridge)
              covered okHolds errHolds) errHolds)

/-- Nor does giving it its address. -/
private theorem wp_ensureBridge
    (covered : Covered w bridge none undo now)
    {gateway : Ipv4}
    {prefixLen : UInt8}
    {ok : UInt32 → World → Prop}
    {err : Error → World → Prop}
    (okHolds : ∀ index now', Covered w bridge none undo now' → ok index now')
    (errHolds : ∀ e now', Covered w bridge none undo now' → err e now') :
    (Network.ensureBridge bridge gateway prefixLen).wp (hostRules Tidy self) now
      ok err := by
  rw [Network.ensureBridge, Fallible.wp_bind]
  refine wp_bridgeIndex covered (fun index now₁ covered => ?_) errHolds
  refine (Fallible.wp_bind _ _ _ _).mpr (wp_cleaningHost
    (removing_addGateway _ _ _ _) covered (fun _ now₂ covered => ?_) errHolds)
  exact (Fallible.wp_bind _ _ _ _).mpr (wp_cleaningHost (.perform trivial) covered
    (fun _ now₃ covered => okHolds index now₃ covered) errHolds)

/-- The index of the end that is handed over. -/
theorem wp_peerIndex
    {new : VethPair}
    (covered : Covered w bridge (some new) undo now)
    {ok : UInt32 → World → Prop}
    {err : Error → World → Prop}
    (okHolds : ∀ now', Covered w bridge (some new) undo now' →
      ok (new.index + 1) now')
    (errHolds : ∀ e now', Covered w bridge (some new) undo now' → err e now') :
    (Network.linkIndexRequired new.peer).wp (hostRules Tidy self) now ok err := by
  rw [Network.linkIndexRequired, Fallible.wp_bind]
  refine wp_findLink new.peer covered (fun now₁ covered => ?_)
    fun e now₁ covered _ => errHolds e now₁ covered
  cases found : now₁.link? new.peer with
  | none => exact errHolds _ now₁ covered
  | some l =>
      have isPeer : l.name = new.peer := by simpa using List.find?_some found
      have isNext :=
        (covered.links.2.peer l (List.mem_of_find?_eq_some found) isPeer).1
      rw [Option.map_some, isNext]
      exact okHolds now₁ covered

/-- Connecting a pair needs no rollback step but that of the pair. -/
private theorem wp_connectVeth
    {new : VethPair}
    (covered : Covered w bridge (some new) undo now)
    {n : NetworkConfig}
    {bridgeIdx : UInt32}
    {pid : Pid}
    {ok : Unit → World → Prop}
    {err : Error → World → Prop}
    (okHolds : ∀ now', Covered w bridge (some new) undo now' → ok () now')
    (errHolds : ∀ e now', Covered w bridge (some new) undo now' → err e now') :
    (Network.connectVeth n bridgeIdx new.host new.peer pid).wp
      (hostRules Tidy self) now ok err := by
  rw [Network.connectVeth, Fallible.wp_bind]
  refine wp_cleaningHost (removing_linkIndexRequired _) covered
    (fun hostIdx now₁ covered => ?_) errHolds
  refine (Fallible.wp_bind _ _ _ _).mpr (wp_peerIndex covered
    (fun now₂ covered => ?_) errHolds)
  have prepares : OnlyUses Removing
      (do
        Fallible.of (askHost (.setMtu hostIdx n.mtu))
        Fallible.of (askHost (.setMtu (new.index + 1) n.mtu))
        Fallible.of (askHost (.setMaster hostIdx bridgeIdx))
        Fallible.of (askHost (.setUp hostIdx))
        Fault.check "after_veth_master" : HostAct Unit).run :=
    Fallible.uses_bind (.perform trivial) fun _ =>
      Fallible.uses_bind (.perform trivial) fun _ =>
        Fallible.uses_bind (.perform trivial) fun _ =>
          Fallible.uses_bind (.perform trivial) fun _ => .perform trivial
  have moves : ∀ now₃, Covered w bridge (some new) undo now₃ →
      (do
        Fallible.of (askHost (.moveToNetns (new.index + 1) pid containerIfname))
        Fault.check "after_netns_move" : HostAct Unit).wp (hostRules Tidy self)
          now₃ ok err := by
    intro now₃ covered
    rw [Fallible.wp_bind]
    rintro answer now₄ ⟨later, settles, _, answered⟩
    have after := (covered.of_settles settles).of_moveToNetns rfl answered
    cases answer with
    | error e => exact errHolds e now₄ after
    | ok u =>
        have checked : (Fault.check "after_netns_move").wp (hostRules Tidy self)
            now₄ ok err :=
          wp_cleaningHost (.perform trivial) after (fun _ => okHolds) errHolds
        exact checked
  have both : Fallible.wp (hostRules Tidy self) _ now₂ ok err :=
    (Fallible.wp_bind _ _ _ _).mpr
      (wp_cleaningHost prepares covered (fun _ => moves) errHolds)
  simpa only [Fallible.wp_bind] using both

/-- What is left once the pair was created. -/
theorem wp_afterVeth
    {cfg : ContainerConfig}
    {n : UInt32}
    (covered : Covered w bridge
      (some { host := hostVeth cfg.id, peer := peerVeth cfg.id, index := n })
      undo now)
    {bridgeIdx : UInt32}
    {ip gateway : Ipv4}
    {prefixLen : UInt8}
    {pid : Pid}
    {ok : NetworkState → List Undo → World → Prop}
    (okHolds : ∀ net undo' now', Backed w bridge undo' now' → ok net undo' now') :
    (do
      Fault.check "after_veth_create"
      Network.connectVeth cfg.network bridgeIdx (hostVeth cfg.id)
        (peerVeth cfg.id) pid
      PacketFilter.setupBridge cfg.network.bridge cfg.network.subnet
        cfg.network.nat
      PacketFilter.publishEach cfg.id cfg.network.bridge ip cfg.network.publish
      Network.pushRulesUndo cfg
      return Network.bridgedState cfg ip gateway prefixLen :
        HostTask NetworkState).wp (hostRules Tidy self) undo now ok
      fun _ undo' now' => Backed w bridge undo' now' := by
  rw [Staged.wp_bind]
  refine wp_hostTask (.perform trivial) covered fun _ now₁ covered => ?_
  refine (Staged.wp_bind _ _ _ _ _).mpr ((Staged.wp_liftM _ _ _).mpr
    (wp_connectVeth covered (fun now₂ covered => ?_)
      fun _ now₂ covered => ⟨_, covered⟩))
  refine (Staged.wp_bind _ _ _ _ _).mpr (wp_hostTask
    (removing_setupBridge _ _ _) covered fun _ now₃ covered => ?_)
  refine (Staged.wp_bind _ _ _ _ _).mpr (wp_hostTask
    (removing_publishEach _ _ _ _) covered fun _ now₄ covered => ?_)
  rw [Staged.wp_bind, Network.pushRulesUndo]
  split
  · exact okHolds _ _ now₄ ⟨_, covered⟩
  · refine okHolds _ _ now₄ ⟨_, covered.cover (.rules cfg.id) fun path never => ?_⟩
    cases never

/-- What is left once the address was leased. -/
theorem wp_afterLease
    (cfg : ContainerConfig)
    (covered : Covered w bridge none undo now)
    (bridgeIdx : UInt32)
    (ip gateway : Ipv4)
    (prefixLen : UInt8)
    (pid : Pid)
    {ok : NetworkState → List Undo → World → Prop}
    (okHolds : ∀ net undo' now', Backed w bridge undo' now' → ok net undo' now') :
    (do
      Fault.check "after_ip_alloc"
      Network.removeLeftoverVeth (hostVeth cfg.id)
      Network.createVeth (hostVeth cfg.id) (peerVeth cfg.id)
      pushUndo (.veth (hostVeth cfg.id))
      Fault.check "after_veth_create"
      Network.connectVeth cfg.network bridgeIdx (hostVeth cfg.id)
        (peerVeth cfg.id) pid
      PacketFilter.setupBridge cfg.network.bridge cfg.network.subnet
        cfg.network.nat
      PacketFilter.publishEach cfg.id cfg.network.bridge ip cfg.network.publish
      Network.pushRulesUndo cfg
      return Network.bridgedState cfg ip gateway prefixLen :
        HostTask NetworkState).wp (hostRules Tidy self) undo now ok
      fun _ undo' now' => Backed w bridge undo' now' := by
  rw [Staged.wp_bind]
  refine wp_hostTask (.perform trivial) covered fun _ now₁ covered => ?_
  refine (Staged.wp_bind _ _ _ _ _).mpr (wp_hostTask
    (removing_removeLeftoverVeth _) covered fun _ now₂ covered => ?_)
  refine (Staged.wp_bind _ _ _ _ _).mpr ((Staged.wp_liftM _ _ _).mpr ?_)
  rintro answer now₃ ⟨later, settles, _, answered⟩
  have settled := covered.of_settles settles
  cases answer with
  | error e =>
      obtain rfl := Option.some.inj answered
      exact ⟨none, settled⟩
  | ok u =>
      have created :=
        (settled.cover (.veth (hostVeth cfg.id)) fun path never => by
          cases never).of_createVeth
            (hostVeth_ne_peerVeth cfg.id cfg.id) List.mem_cons_self answered
      exact wp_afterVeth created okHolds

/-- Whatever step of the network set-up fails, what it made is covered. -/
theorem wp_setupBridged
    {cfg : ContainerConfig}
    {pid : Pid}
    (covered : Covered w cfg.network.bridge none undo now)
    {ok : NetworkState → List Undo → World → Prop}
    (okHolds : ∀ net undo' now', Backed w cfg.network.bridge undo' now' →
      ok net undo' now') :
    (Network.setupBridged cfg pid).wp (hostRules Tidy self) undo now ok
      fun _ undo' now' => Backed w cfg.network.bridge undo' now' := by
  rw [Network.setupBridged, Staged.wp_bind]
  refine wp_hostTask (uses_runOk removing_of_ordinary _) covered
    fun usable now₁ covered => ?_
  cases usable with
  | false => exact ⟨none, covered⟩
  | true =>
      simp only [Bool.not_true, Bool.false_eq_true, if_false, Staged.wp_bind]
      refine wp_hostTask (.ret _) covered fun cidr now₂ covered => ?_
      refine wp_hostTask (.ret _) covered fun gateway now₃ covered => ?_
      refine wp_hostTask (.perform trivial) covered fun _ now₄ covered => ?_
      refine (Staged.wp_liftM _ _ _).mpr (wp_ensureBridge covered
        (fun bridgeIdx now₅ covered => ?_) fun _ now₅ covered => ⟨none, covered⟩)
      refine wp_hostTask (.ret _) covered fun requested now₆ covered => ?_
      rintro answer now₇ ⟨later, settles, _, answered⟩
      have settled := covered.of_settles settles
      cases answer with
      | error e =>
          obtain rfl := Option.some.inj answered
          exact ⟨none, settled⟩
      | ok granted =>
          have leased : Covered w cfg.network.bridge none (.lease cfg.id :: undo) now₇ :=
            (settled.cover (.lease cfg.id) fun path never => by cases never).of_leaseAllocate
              List.mem_cons_self answered
          have rest : Staged.wp (hostRules Tidy self) _ _ now₇ ok _ :=
            wp_afterLease cfg leased bridgeIdx granted.1 gateway granted.2 pid okHolds
          simp only [Staged.wp_bind] at rest
          exact rest

/-- A step of the launch that creates nothing. -/
theorem wp_task
    {p : Act α}
    (uses : OnlyUses Cleaning p.run)
    {s : Launching}
    (covered : Covered w bridge pair s.undo now)
    {ok : α → Launching → World → Prop}
    (okHolds : ∀ value now', Covered w bridge pair s.undo now' → ok value s now') :
    (liftM p : Task α).wp (.ofStep (step Tidy self)) s now ok
      fun _ s' now' => Backed w bridge s'.undo now' :=
  (Staged.wp_liftM p s now).mpr
    (wp_cleaningAct uses covered okHolds fun _ _ covered => ⟨pair, covered⟩)

/-- A host program of a launch that makes no resource. -/
private theorem wp_taskHost
    {p : HostAct α}
    (uses : OnlyUses Removing p.run)
    {s : Launching}
    (covered : Covered w bridge pair s.undo now)
    {ok : α → Launching → World → Prop}
    (okHolds : ∀ value now', Covered w bridge pair s.undo now' → ok value s now') :
    (liftM p : Task α).wp (.ofStep (step Tidy self)) s now ok
      fun _ s' now' => Backed w bridge s'.undo now' :=
  wp_task (uses.embed (R := Cleaning) (fun _ removing => removing) _) covered okHolds

/-- After the cgroup, the only action is the one for it. -/
theorem wp_createCgroup [F64Ops]
    (housed : Housed w)
    {s : Launching}
    (first : s.undo = [])
    (covered : Covered w bridge none [] now)
    {id : String}
    {res : Resources}
    {ok : Option Cgroup → Launching → World → Prop}
    (okHolds : ∀ cgroup s' now', s'.st.id = s.st.id → s'.st.config = s.st.config →
      Covered w bridge none s'.undo now' → ok cgroup s' now') :
    (Supervisor.createCgroup id res).wp (.ofStep (step Tidy self)) s now ok
      fun _ s' now' => Backed w bridge s'.undo now' := by
  rw [Supervisor.createCgroup, Staged.wp_bind]
  refine (Staged.wp_liftM (liftM (Cgroup.create id res).attempt : Act _) s now).mpr ?_
  refine wp_lift.mpr ((Fallible.wp_attempt _ _ _).mpr (wp_create housed covered
    (fun cg now₁ covered => ?_) fun e now₁ covered => ?_))
  · simp only [Staged.wp_bind, wp_pushUndo, wp_setState, Staged.wp_pure, first]
    exact okHolds _ _ _ rfl rfl covered
  · have same : Covered w bridge none s.undo now₁ := by rwa [first]
    by_cases survivable : (res.isEmpty && e.exitClass = .unsupported) = true
    · simp only [survivable, if_true]
      exact okHolds none s now₁ rfl rfl same
    · simp only [survivable]
      exact ⟨none, same⟩

/-- Waiting for a frame makes no resource. -/
private theorem cleaning_expectFrame
    (pid : Pid)
    (want : Frame) :
    OnlyUses Cleaning (Supervisor.expectFrame pid want).run := by
  refine Fallible.uses_bind (.perform trivial) fun received => ?_
  cases received with
  | none => exact .ret _
  | some frame =>
      simp only [Fallible.run_ite]
      split
      · exact .ret _
      · cases frame <;> exact .ret _

/-- A transition makes no resource. -/
private theorem removing_transitionNow
    (st : ContainerState)
    (next : Status) :
    OnlyUses Removing (transitionNow st next).run :=
  Fallible.uses_bind ((OnlyUses.perform trivial).bind fun _ => .ret _) fun _ => .ret _

/-- Reading a start time makes no resource. -/
private theorem cleaning_readStartTime (pid : Pid) :
    OnlyUses Cleaning (Supervisor.readStartTime pid).run :=
  uses_readStartTime (fun _ => trivial) pid

/-- Moving the child needs the action that kills it. -/
theorem wp_placeChild
    {cgroup : Option Cgroup}
    {placed : Option String}
    {pid : Pid}
    (covered : Covered w bridge pair undo now)
    (cover : .process pid ∈ undo)
    {ok : Unit → World → Prop}
    {err : Error → World → Prop}
    (okHolds : ∀ now', Covered w bridge pair undo now' → ok () now')
    (errHolds : ∀ e now', Covered w bridge pair undo now' → err e now') :
    (Supervisor.placeChild cgroup placed pid).wp (hostRules Tidy self) now ok err := by
  cases cgroup with
  | none => exact okHolds now covered
  | some cg =>
      rw [Supervisor.placeChild]
      split
      · exact okHolds now covered
      · rintro answer now₁ ⟨later, settles, _, answered⟩
        have after := (covered.of_settles settles).of_addPid cover answered
        cases answer with
        | ok u => exact okHolds now₁ after
        | error e => exact errHolds e now₁ after

/-- Finding the cgroup for `clone` makes no resource. -/
private theorem removing_cloneCgroup (cgroup : Option Cgroup) :
    OnlyUses Removing (Supervisor.cloneCgroup cgroup).run := by
  cases cgroup with
  | none => exact .ret _
  | some cg =>
      refine Fallible.uses_bind (Fallible.uses_attempt (.perform trivial)) fun outcome => ?_
      cases outcome <;> exact .ret _

/-- `setup_host` pushes a step for all that it makes. -/
private theorem wp_setupHost
    {cfg : ContainerConfig}
    (pid : Pid)
    (covered : Covered w cfg.network.bridge none undo now)
    {ok : NetworkState → List Undo → World → Prop}
    (okHolds : ∀ net undo' now', Backed w cfg.network.bridge undo' now' →
      ok net undo' now') :
    (Network.setupHost cfg pid).wp (hostRules Tidy self) undo now ok
      fun _ undo' now' => Backed w cfg.network.bridge undo' now' := by
  unfold Network.setupHost
  split
  · exact okHolds _ undo now ⟨none, covered⟩
  · exact okHolds _ undo now ⟨none, covered⟩
  · exact wp_setupBridged covered okHolds

/-- So it does inside a launch. -/
private theorem wp_setupHostTask
    {cfg : ContainerConfig}
    {pid : Pid}
    {s : Launching}
    (covered : Covered w cfg.network.bridge none s.undo now)
    {ok : NetworkState → Launching → World → Prop}
    (okHolds : ∀ net s' now', Backed w cfg.network.bridge s'.undo now' →
      ok net s' now') :
    (liftM (Network.setupHost cfg pid) : Task NetworkState).wp
      (.ofStep (step Tidy self)) s now ok
      fun _ s' now' => Backed w cfg.network.bridge s'.undo now' := by
  rw [Staged.wp, run_liftM_hostTask, Prog.wp_bind]
  refine (Prog.wp_map _ _ _ _ _).mpr (Prog.wp_mono ?_
    (wp_setupHost pid covered fun _ _ _ backed => backed))
  rintro ⟨result, undo'⟩ now' backed
  cases result with
  | ok net => exact okHolds net _ now' backed
  | error e => exact backed

/-- What is left once the child was cloned. -/
theorem wp_afterClone
    (cfg : ContainerConfig)
    (id : String)
    (cgroup : Option Cgroup)
    (placed : Option String)
    (pid : Pid)
    {s : Launching}
    (covered : Covered w cfg.network.bridge none (.process pid :: s.undo) now) :
    (do
      pushUndo (.process pid)
      Supervisor.placeChild cgroup placed pid
      Supervisor.setState fun st => { st with initPid := pid }
      let startTime ← Supervisor.readStartTime pid
      Supervisor.setState fun st => { st with initStartTime := startTime }
      Supervisor.expectFrame pid .ready
      let net ← Network.setupHost cfg pid
      Supervisor.setState fun st => { st with network := net }
      pushUndo (.network id net)
      Supervisor.writeNetstate id net
      Supervisor.sendGo pid
      Supervisor.expectFrame pid .started
      let s ← Staged.get
      let st ← transitionNow s.st .running
      Supervisor.setState fun _ => { st with error := none }
      Store.save .launch { st with error := none }
      Fault.check "after_start"
      return { pid, cgroup } : Task Running).wp (.ofStep (step Tidy self)) s now
        (fun _ _ _ => True)
        fun _ s' now' => Backed w cfg.network.bridge s'.undo now' := by
  simp only [Staged.wp_bind, wp_pushUndo, wp_setState, Staged.wp_get]
  refine (Staged.wp_liftM (liftM (Supervisor.placeChild cgroup placed pid) : Act Unit)
    _ _).mpr (wp_lift.mpr (wp_placeChild covered List.mem_cons_self
      (fun now₁ covered => ?_) fun _ _ covered => ⟨none, covered⟩))
  refine wp_task (cleaning_readStartTime pid) covered fun startTime now₂ covered => ?_
  refine wp_task (cleaning_expectFrame pid .ready) (by exact covered)
    fun _ now₃ covered => ?_
  refine wp_setupHostTask (by exact covered) fun net s₁ now₄ backed => ?_
  obtain ⟨pair, covered⟩ := backed
  have recorded : Covered w cfg.network.bridge pair (.network id net :: s₁.undo) now₄ :=
    covered.cover (.network id net) fun path never => by cases never
  refine wp_task (.perform trivial) (by exact recorded) fun _ now₅ covered => ?_
  refine wp_task (.perform trivial) (by exact covered) fun _ now₆ covered => ?_
  refine wp_task (cleaning_expectFrame pid .started) (by exact covered)
    fun _ now₇ covered => ?_
  refine wp_taskHost (removing_transitionNow _ _) (by exact covered) fun st now₈ covered => ?_
  refine wp_task (.perform trivial) (by exact covered) fun _ now₉ covered => ?_
  refine wp_taskHost (.perform trivial) (by exact covered) fun _ now₁₀ covered => ?_
  trivial

/-- A launch that fails has a step for all that it made. -/
private theorem wp_launchBody [F64Ops]
    (housed : Housed w)
    {s : Launching}
    (first : s.undo = [])
    (covered : Covered w s.st.config.network.bridge none [] now) :
    Supervisor.launchBody.wp (.ofStep (step Tidy self)) s now (fun _ _ _ => True)
      fun _ s' now' => Backed w s.st.config.network.bridge s'.undo now' := by
  simp only [Supervisor.launchBody, Staged.wp_bind, Staged.wp_get]
  refine wp_createCgroup housed first covered fun cgroup s₁ now₁ _ _ covered => ?_
  refine wp_taskHost (.perform trivial) covered fun _ now₂ covered => ?_
  refine wp_taskHost (.perform trivial) covered fun _ now₃ covered => ?_
  refine wp_taskHost (.perform trivial) covered fun _ now₄ covered => ?_
  refine wp_taskHost (removing_cloneCgroup cgroup) covered fun placed now₅ covered => ?_
  refine wp_taskHost (.perform trivial) covered fun _ now₆ covered => ?_
  -- the clone, and the fault point before its action is registered
  rintro answer now₇ ⟨later, settles, _, answered⟩
  have settled := covered.of_settles settles
  cases answer with
  | error e =>
      obtain rfl := Option.some.inj answered
      exact ⟨none, settled⟩
  | ok pid =>
      have cloned : Covered w _ none (.process pid :: s₁.undo) now₇ :=
        (settled.cover (.process pid) fun path never => by cases never).of_cloneInit
          List.mem_cons_self answered
      rintro answer now₈ stepped
      have after := cloned.of_step
        (show Cleaning (.host (.fault "after_clone")) from trivial) stepped
      obtain ⟨_, _, permitted, _⟩ := stepped
      cases answer with
      | error e => exact absurd rfl permitted
      | ok u =>
          have rest : Staged.wp (.ofStep (step Tidy self)) _ s₁ now₈ _ _ :=
            wp_afterClone s.st.config s.st.id cgroup placed pid after
          simp only [Staged.wp_bind, Staged.wp_get] at rest
          exact rest

/-! ## The result -/

/-- The host has nothing of the launch. -/
structure Restored (w : World) (bridge : String) (now : World) : Prop where
  dirs : ∀ path ∈ now.dirs, path ∈ w.dirs ∨ IsBase w path
  leases : ∀ lease ∈ now.leases.entries, lease ∈ w.leases.entries
  links : ∀ l ∈ now.links, OldLink w bridge l
  inits : ∀ p ∈ now.inits, p.alive = true → OldInit w p

/-- With an empty stack nothing is left to undo. -/
private theorem Backed.restored
    (backed : Backed w bridge [] now) :
    Restored w bridge now := by
  obtain ⟨pair, covered⟩ := backed
  refine
    { dirs := ?_
      leases := ?_
      links := ?_
      inits := ?_ }
  · intro path member
    simpa using covered.dirs path member
  · intro lease member
    simpa using covered.leases lease member
  · have links := covered.links
    cases pair with
    | none => exact links
    | some pair =>
        have never := links.1
        simp at never
  · intro p member alive
    simpa using covered.inits p member alive

/-- **A failed launch leaves nothing behind.**  The host had every process in a
cgroup that exists, and no two processes with one number.  Whichever step fails
and whatever the host does meanwhile: when the rollback stack has been unwound on
a host that cooperates, every cgroup, lease, interface and living process is one
that was there before, but for the bridge and the parent cgroup, which all
containers share. -/
theorem launch_rolls_back [F64Ops]
    (housed : Housed w)
    (distinct : (w.inits.map InitProc.pid).Nodup)
    {st : ContainerState}
    {e : Error}
    {s : Launching}
    (failed : Exec (step Tidy self) (Supervisor.launchBody.run { st, undo := [] }) w
      (.error e, s) now)
    {outcome : Result Running × ContainerState}
    (settled : Exec (step Cooperates self) (Supervisor.settle (.error e) s) now
      outcome now') :
    Restored w st.config.network.bridge now' := by
  have start : Covered w st.config.network.bridge none [] w :=
    { mount := rfl
      dirs := fun _ member => .inl member
      last := fun front path rest never => by simp at never
      leases := fun _ member => .inl member
      links := fun l member => .inr ⟨l, member, rfl, rfl⟩
      inits := fun p member alive => .inl ⟨p, member, alive, rfl, rfl, rfl⟩
      pids := distinct }
  have broken : Backed w st.config.network.bridge s.undo now :=
    failed.of_wp (wp_launchBody housed rfl start)
  obtain ⟨pair, covered⟩ := broken
  have unwound : (Supervisor.settle (.error e) s).wp (.ofStep (step Cooperates self)) now
      fun _ now' => Backed w st.config.network.bridge [] now' := by
    rw [Supervisor.settle, Prog.wp_bind]
    refine Prog.wp_mono ?_
      (wp_unwind (fun permitted => permitted) housed covered)
    intro result now' backed
    cases result with
    | ok _ => exact backed
    | error _ => exact backed
  exact (settled.of_wp unwound).restored

end Launch

/-! A launch that fails when its interfaces are connected. -/

/-- A container in bridge mode that was created. -/
def bridgedWeb : ContainerState :=
  { ContainerState.new 1 { id := "web", command := ["sh"] } with
    status := .created
    config := { id := "web", command := ["sh"], network := { mode := .bridge } } }

/-- A host with a cgroup hierarchy and nothing else. -/
def emptyHost : World where
  mount := some "/sys/fs/cgroup"

/-- Init is ready, and one fault point fires. -/
def brokenHost (w : World) : (op : Op) → Option (Ans op)
  | .host (.fault point) =>
      some (if point = "after_veth_master" then .error (.fault point) else .ok ())
  | .channel (.recv _) => some (.ok (some .ready))
  | .waitPid pid nohang => (w.initDies pid).usual 7 8 (.waitPid pid nohang)
  | op => w.usual 7 8 op

/-- A killed process ends before the wait for it returns. -/
def brokenMove (w : World) : (op : Op) → Ans op → Option World
  | .waitPid pid nohang, answer =>
      (w.initDies pid).answer 7 (.waitPid pid nohang) answer
  | op, answer => w.answer 7 op answer

/-- The broken host does only what a tidy, cooperating host may do. -/
private theorem step_broken
    (w : World)
    (op : Op)
    (answer : Ans op)
    (w' : World)
    (given : brokenHost w op = some answer)
    (moved : brokenMove w op answer = some w') :
    step (fun w op answer => Tidy w op answer ∧ Cooperates w op answer) 7 w op
      answer w' := by
  cases op with
  | waitPid pid nohang =>
      exact ⟨w.initDies pid, .single ⟨.initDies pid, rfl⟩, ⟨trivial, trivial⟩, moved⟩
  | host op =>
      cases op with
      | fault point =>
          obtain rfl := Option.some.inj given
          refine ⟨w, .refl, ⟨?_, trivial⟩, moved⟩
          by_cases fires : point = "after_veth_master"
          · simp [fires, Tidy]
          · simp [fires, Tidy]
      | removeEmptyDir path =>
          have cooperates : Cooperates w (.host (.removeEmptyDir path)) answer :=
            cooperates_usual given
          refine ⟨w, .refl, ⟨?_, cooperates⟩, moved⟩
          cases answer <;> exact cooperates
      | _ => exact ⟨w, .refl, ⟨trivial, cooperates_usual given⟩, moved⟩
  | channel op =>
      cases op with
      | recv pid => exact ⟨w, .refl, ⟨trivial, trivial⟩, moved⟩
      | _ => exact ⟨w, .refl, ⟨trivial, trivial⟩, moved⟩
  | _ => exact ⟨w, .refl, ⟨trivial, cooperates_usual given⟩, moved⟩

/-- A launch that fails after its interfaces were made is undone. -/
theorem launch_rolled_back :
    ∃ e s now outcome now',
      Exec (step Tidy 7)
        ((@Supervisor.launchBody unitOps).run { st := bridgedWeb, undo := [] })
        emptyHost (.error e, s) now ∧
      Exec (step Cooperates 7) (Supervisor.settle (.error e) s) now outcome now' ∧
      Restored emptyHost "myrun0" now' := by
  let _ := unitOps
  have launched : (drive brokenHost brokenMove
      (Supervisor.launchBody.run { st := bridgedWeb, undo := [] }) emptyHost).any
        (fun ended => !ended.1.1.toBool &&
          (drive brokenHost brokenMove (Supervisor.settle ended.1.1 ended.1.2)
            ended.2).isSome) = true := by
    decide +kernel
  obtain ⟨⟨result, s⟩, now, failed, goesOn⟩ := Exec.of_drive_any step_broken launched
  cases result with
  | ok running => cases goesOn
  | error e =>
      obtain ⟨⟨outcome, now'⟩, unwound⟩ := Option.isSome_iff_exists.mp goesOn
      have settled := Exec.of_drive step_broken unwound
      have tidy : Exec (step Tidy 7) _ _ _ _ :=
        failed.mono fun _ _ _ _ ⟨later, settles, both, answered⟩ =>
          ⟨later, settles, both.1, answered⟩
      have cooperates : Exec (step Cooperates 7) _ _ _ _ :=
        settled.mono fun _ _ _ _ ⟨later, settles, both, answered⟩ =>
          ⟨later, settles, both.2, answered⟩
      refine ⟨e, s, now, outcome, now', tidy, cooperates, ?_⟩
      have housed : Housed emptyHost := fun path never => by cases never
      have distinct : (emptyHost.inits.map InitProc.pid).Nodup := List.nodup_nil
      exact launch_rolls_back housed distinct tidy cooperates

end Rollback

end Myrun
