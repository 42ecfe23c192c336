import Myrun.Runtime

namespace Myrun

/-!
# What cleaning up does to the host

Removing a cgroup, tearing down a network and collecting garbage create
nothing: after each of their operations, and after anything the host does by
itself, there are no more cgroups, leases and interfaces than before, and no
cgroup that was empty is populated.
-/

namespace Cleanup

open Prog

/-- An operation that creates no cgroup, lease or interface and moves no process
into a cgroup. -/
def Removing : HostOp → Prop
  | .makeDir _ => False
  | .addPid _ _ => False
  | .leaseAllocate _ _ _ _ => False
  | .createBridge _ => False
  | .createVeth _ _ => False
  | .moveToNetns _ _ _ => False
  | _ => True

/-- An operation that removes nothing of these either. -/
def Ordinary : HostOp → Prop
  | .removeEmptyDir _ => False
  | .leaseRelease _ => False
  | .leaseGc _ => False
  | .deleteLink _ => False
  | op => Removing op

/-- The same for all operations; it also starts no process. -/
def Cleaning : Op → Prop
  | .host op => Removing op
  | .cloneInit _ _ => False
  | _ => True

/-- Resources may be gone, but none is new. -/
structure Shrinks (w w' : World) : Prop where
  mount : w'.mount = w.mount
  dirs : w'.dirs ⊆ w.dirs
  pids : w'.inits.map InitProc.pid = w.inits.map InitProc.pid
  inits : ∀ p ∈ w'.inits, p.alive = true → p ∈ w.inits
  alive : ∀ pid, w'.initAlive pid = true → w.initAlive pid = true
  leases : w'.leases.entries ⊆ w.leases.entries
  links : w'.links.Sublist w.links

/-- A process that dies stays in the table. -/
private theorem init?_initDies
    (w : World)
    (pid other : Pid) :
    (w.initDies pid).init? other = (w.init? other).map fun p =>
      if p.pid = pid then { p with alive := false } else p := by
  rw [World.init?, World.initDies, List.find?_map, World.init?]
  congr 2
  funext p
  by_cases dies : p.pid = pid <;> simp [dies]

namespace Shrinks

/-- Nothing is gone at first. -/
theorem refl (w : World) : Shrinks w w where
  mount := rfl
  dirs := fun _ member => member
  pids := rfl
  inits := fun _ member _ => member
  alive := fun _ holds => holds
  leases := fun _ member => member
  links := .refl _

/-- What is gone stays gone. -/
theorem trans
    {w w' w'' : World}
    (first : Shrinks w w')
    (second : Shrinks w' w'') :
    Shrinks w w'' where
  mount := second.mount.trans first.mount
  dirs := fun _ member => first.dirs (second.dirs member)
  pids := second.pids.trans first.pids
  inits := fun p member alive => first.inits p (second.inits p member alive) alive
  alive := fun pid holds => first.alive pid (second.alive pid holds)
  leases := fun _ member => first.leases (second.leases member)
  links := second.links.trans first.links

/-- No cgroup becomes populated. -/
theorem populated
    {w w' : World}
    (shrinks : Shrinks w w')
    (path : String)
    (holds : w'.populated path = true) :
    w.populated path = true := by
  obtain ⟨p, member, holds⟩ := List.any_eq_true.mp holds
  have alive : p.alive = true := by
    simp only [Bool.and_eq_true] at holds
    exact holds.1
  exact List.any_eq_true.mpr ⟨p, shrinks.inits p member alive, holds⟩

end Shrinks

/-- The same resources and processes. -/
structure Same (w w' : World) : Prop where
  mount : w'.mount = w.mount
  dirs : w'.dirs = w.dirs
  inits : w'.inits = w.inits
  leases : w'.leases = w.leases
  links : w'.links = w.links

/-- The same resources are no new ones. -/
theorem Same.shrinks
    {w w' : World}
    (same : Same w w') :
    Shrinks w w' where
  mount := same.mount
  dirs := by simp [same.dirs]
  pids := by rw [same.inits]
  inits := fun p member _ => by rwa [same.inits] at member
  alive := by simp [World.initAlive, World.init?, same.inits]
  leases := by simp [same.leases]
  links := by simp [same.links]

/-- `iptables` touches no other resource. -/
private theorem same_of_runIptables
    {w w' : World}
    {command : Iptables}
    (ran : w.runIptables command = some w') :
    Same w w' := by
  refine ⟨?_, ?_, ?_, ?_, ?_⟩ <;>
    cases command <;>
    simp [World.runIptables, World.provided_eq_some] at ran <;>
    grind

/-- An ordinary operation touches no resource. -/
theorem same_of_hostAnswer
    {w w' : World}
    {op : HostOp}
    {answer : HostAns op}
    (plain : Ordinary op)
    (answered : w.hostAnswer op answer = some w') :
    Same w w' := by
  cases op with
  | iptables command =>
      cases answer with
      | error e =>
          obtain rfl := Option.some.inj answered
          exact ⟨rfl, rfl, rfl, rfl, rfl⟩
      | ok u => exact same_of_runIptables answered
  | removeEmptyDir path => exact plain.elim
  | leaseRelease id => exact plain.elim
  | leaseGc liveIds => exact plain.elim
  | deleteLink index => exact plain.elim
  | makeDir path => exact plain.elim
  | addPid path pid => exact plain.elim
  | leaseAllocate subnet id requested gateway => exact plain.elim
  | createBridge name => exact plain.elim
  | createVeth host peer => exact plain.elim
  | moveToNetns index pid name => exact plain.elim
  | _ =>
      refine ⟨?_, ?_, ?_, ?_, ?_⟩
      all_goals
        (try cases answer) <;>
        simp [World.hostAnswer, World.provided_eq_some] at answered <;>
        grind

/-- Operations on the state store and the processes touch no resource. -/
theorem same_of_answer
    {w w' : World}
    {self : Pid}
    {op : Op}
    {answer : Ans op}
    (store : ∀ op', op ≠ .host op')
    (cleaning : Cleaning op)
    (answered : w.answer self op answer = some w') :
    Same w w' := by
  cases op with
  | host op => exact absurd rfl (store op)
  | cloneInit id cgroup => exact cleaning.elim
  | spin => exact answer.elim
  | _ =>
      refine ⟨?_, ?_, ?_, ?_, ?_⟩
      all_goals
        (try cases answer) <;>
        simp [World.answer, World.provided_eq_some] at answered <;>
        grind [World.putState, World.dropState]

namespace Shrinks

/-- An operation that removes, or an ordinary one, makes no resource. -/
theorem of_hostAnswer
    {w w' : World}
    {op : HostOp}
    {answer : HostAns op}
    (removing : Removing op)
    (answered : w.hostAnswer op answer = some w') :
    Shrinks w w' := by
  by_cases plain : Ordinary op
  · exact (same_of_hostAnswer plain answered).shrinks
  cases op with
  | removeEmptyDir path =>
      cases answer with
      | removed =>
          simp only [World.hostAnswer] at answered
          split at answered
          · cases answered
          · obtain rfl := Option.some.inj answered
            exact { refl w with dirs := List.filter_subset_self w.dirs }
      | busy =>
          obtain rfl := Option.some.inj answered
          exact refl w
      | failed e =>
          obtain rfl := Option.some.inj answered
          exact refl w
  | leaseRelease id =>
      cases answer with
      | error e =>
          obtain rfl := Option.some.inj answered
          exact refl w
      | ok u =>
          obtain rfl := Option.some.inj answered
          exact { refl w with
            leases := List.filter_subset_self w.leases.entries }
  | leaseGc liveIds =>
      cases answer with
      | error e =>
          obtain rfl := Option.some.inj answered
          exact refl w
      | ok removed =>
          simp only [World.hostAnswer] at answered
          split at answered
          · obtain rfl := Option.some.inj answered
            exact { refl w with
              leases := List.filter_subset_self w.leases.entries }
          · cases answered
  | deleteLink index =>
      cases answer with
      | error e =>
          obtain rfl := Option.some.inj answered
          exact refl w
      | ok u =>
          obtain rfl := Option.some.inj answered
          exact { refl w with links := List.filter_sublist }
  | _ => exact absurd removing plain

/-- An init process that ends populates no cgroup. -/
theorem of_initDies
    (w : World)
    (pid : Pid) :
    Shrinks w (w.initDies pid) := by
  refine { refl w with pids := ?_, inits := ?_, alive := ?_ }
  · simp only [World.initDies, List.map_map]
    refine List.map_congr_left fun q _ => ?_
    by_cases dies : q.pid = pid <;> simp [dies]
  · intro p member alive
    obtain ⟨q, there, rfl⟩ := List.mem_map.mp member
    by_cases dies : q.pid = pid
    · simp [dies] at alive
    · simpa [dies] using there
  · intro other alive
    rw [World.initAlive, init?_initDies, Option.any_map] at alive
    obtain ⟨p, found, holds⟩ := (Option.any_eq_true _ _).mp alive
    refine (Option.any_eq_true _ _).mpr ⟨p, found, ?_⟩
    by_cases dies : p.pid = pid
    · simp [dies] at holds
    · simpa [dies] using holds

/-- What happens on its own makes no resource. -/
theorem of_happen
    {w w' : World}
    {what : World.Happening}
    (happened : w.happen what = some w') :
    Shrinks w w' := by
  cases what with
  | initDies pid =>
      obtain rfl := Option.some.inj happened
      exact of_initDies w pid
  | linkVanishes index =>
      simp only [World.happen] at happened
      split at happened
      · obtain rfl := Option.some.inj happened
        exact { refl w with links := List.filter_sublist }
      · cases happened

/-- A cleaning operation makes no resource. -/
private theorem of_answer
    {w w' : World}
    {self : Pid}
    {op : Op}
    {answer : Ans op}
    (cleaning : Cleaning op)
    (answered : w.answer self op answer = some w') :
    Shrinks w w' := by
  cases op with
  | host op => exact of_hostAnswer cleaning answered
  | _ =>
      refine (same_of_answer (fun _ never => ?_) cleaning answered).shrinks
      cases never

end Shrinks

/-! ## Which operations the cleaning programs use -/

/-- The cgroup that `attach` returns has the path it was given. -/
theorem attach_yields (path : String) :
    (Cgroup.attach path).run.Yields fun result =>
      ∀ cg, result = .ok cg → cg.path = path := by
  have anything : ∀ {α : Type} (p : Prog HostOp HostAns α),
      p.Yields fun _ => True :=
    fun p => yields_of_forall (fun _ => trivial) p
  refine (anything _).bind ?_
  intro outcome _
  cases outcome with
  | error e =>
      intro cg never
      cases never
  | ok present =>
      cases present with
      | false =>
          intro cg never
          cases never
      | true =>
          refine (anything _).bind ?_
          intro listed _
          cases listed with
          | error e =>
              intro cg never
              cases never
          | ok enabled =>
              intro cg same
              cases same
              rfl

section Uses

variable {P : HostOp → Prop} (allows : ∀ op, Ordinary op → P op)

include allows

/-- One ordinary operation. -/
private theorem uses_ask
    {op : HostOp}
    (plain : Ordinary op) :
    OnlyUses P (askHost op) :=
  .perform (allows op plain)

/-- Reading a control file. -/
theorem uses_readTrimmed (path : String) :
    OnlyUses P (readTrimmed path).run :=
  Fallible.uses_bind (uses_ask allows trivial) fun _ => .ret _

/-- Reading a list in a control file. -/
theorem uses_readList (path : String) :
    OnlyUses P (Cgroup.readList path).run := by
  refine Fallible.uses_bind (Fallible.uses_attempt (uses_readTrimmed allows path)) ?_
  intro outcome
  cases outcome <;> exact .ret _

/-- One ordinary operation, as an action that cannot fail. -/
theorem uses_lift
    {op : HostOp}
    (plain : Ordinary op) :
    OnlyUses P (Fallible.lift (askHost op) : HostAct (HostAns op)).run :=
  (uses_ask allows plain).bind fun _ => .ret _

/-- `Cgroup::attach` reads. -/
private theorem uses_attach (path : String) :
    OnlyUses P (Cgroup.attach path).run := by
  refine Fallible.uses_bind (uses_lift allows trivial) ?_
  intro present
  cases present with
  | false => exact .ret _
  | true => exact Fallible.uses_bind (uses_readList allows _) fun _ => .ret _

/-- `Cgroup::pids` reads. -/
private theorem uses_pids (cg : Cgroup) :
    OnlyUses P cg.pids.run := by
  refine Fallible.uses_bind (Fallible.uses_attempt (uses_readTrimmed allows _)) ?_
  intro outcome
  cases outcome <;> exact .ret _

/-- Killing one process after another. -/
private theorem uses_killEach (pids : List Pid) :
    OnlyUses P (Cgroup.killEach pids).run := by
  induction pids with
  | nil => exact .ret _
  | cons pid rest inductionHypothesis =>
      exact Fallible.uses_bind (Fallible.uses_attempt (uses_ask allows trivial))
        fun _ => inductionHypothesis

/-- `Cgroup::kill_all` reads, writes and kills. -/
theorem uses_killAll (cg : Cgroup) :
    OnlyUses P cg.killAll.run := by
  refine Fallible.uses_bind (uses_lift allows trivial) ?_
  intro present
  cases present with
  | true => exact Fallible.uses_mapErr (uses_ask allows trivial)
  | false => exact Fallible.uses_bind (uses_pids allows cg) fun _ => uses_killEach allows _

/-- `Cgroup::was_oom_killed` reads. -/
private theorem uses_wasOomKilled (cg : Cgroup) :
    OnlyUses P cg.wasOomKilled.run := by
  refine Fallible.uses_bind (Fallible.uses_attempt (uses_readTrimmed allows _)) ?_
  intro outcome
  cases outcome <;> exact .ret _

/-- The removal loop removes one directory besides. -/
private theorem uses_removeLoop
    {cg : Cgroup}
    (removes : P (.removeEmptyDir cg.path))
    (attempt left : Nat) :
    OnlyUses P (cg.removeLoop attempt left).run := by
  induction left generalizing attempt with
  | zero => exact .ret _
  | succ left inductionHypothesis =>
      refine Fallible.uses_bind
        ((OnlyUses.perform removes).bind fun _ => .ret _) ?_
      intro outcome
      cases outcome with
      | removed => exact .ret _
      | busy =>
          by_cases first : attempt = 0
          · simp only [first, if_true]
            refine Fallible.uses_bind
              (Fallible.uses_attempt (uses_killAll allows cg)) fun _ => ?_
            exact Fallible.uses_bind (uses_lift allows trivial)
              fun _ => inductionHypothesis _
          · simp only [first, if_false]
            exact Fallible.uses_bind (uses_lift allows trivial)
              fun _ => inductionHypothesis _
      | failed e =>
          refine Fallible.uses_bind (uses_lift allows trivial) ?_
          intro present
          cases present with
          | true =>
              exact Fallible.uses_bind (uses_lift allows trivial)
                fun _ => inductionHypothesis _
          | false => exact .ret _

/-- `Cgroup::remove` removes one directory besides. -/
private theorem uses_remove
    {cg : Cgroup}
    (removes : P (.removeEmptyDir cg.path)) :
    OnlyUses P cg.remove.run := by
  refine Fallible.uses_bind (uses_lift allows trivial) ?_
  intro present
  cases present with
  | true => exact uses_removeLoop allows removes 0 50
  | false => exact .ret _

/-- The cgroup that is removed is the one that was recorded. -/
theorem uses_removeCgroup
    {path : Option String}
    (removes : ∀ cgroup, path = some cgroup → P (.removeEmptyDir cgroup)) :
    OnlyUses P (Supervisor.removeCgroup path).run := by
  cases path with
  | none => exact .ret _
  | some path =>
      have attached : (Cgroup.attach path).attempt.run.Yields fun result =>
          ∀ cg, result = .ok (.ok cg) → cg.path = path := by
        refine (attach_yields path).bind ?_
        intro result known cg same
        cases same
        exact known cg rfl
      refine attached.uses_bind
        (Fallible.uses_attempt (uses_attach allows path)) ?_
      intro outcome known
      cases outcome with
      | error e => exact .ret _
      | ok outcome =>
          cases outcome with
          | error e => exact .ret _
          | ok cg =>
              have removesIt : P (.removeEmptyDir cg.path) := by
                rw [known cg rfl]
                exact removes path rfl
              refine Fallible.uses_bind (uses_wasOomKilled allows cg) fun _ => ?_
              refine Fallible.uses_bind
                (Fallible.uses_attempt (uses_killAll allows cg)) fun _ => ?_
              exact Fallible.uses_bind
                (Fallible.uses_attempt (uses_remove allows removesIt))
                fun _ => .ret _

/-- One `iptables` command. -/
theorem uses_runOk (command : Iptables) :
    OnlyUses P (PacketFilter.runOk command).run :=
  Fallible.uses_bind (Fallible.uses_attempt (uses_ask allows trivial)) fun _ => .ret _

/-- Listing the tagged rules of a table. -/
private theorem uses_taggedIn
    (id : String)
    (table : Table) :
    OnlyUses P (PacketFilter.taggedIn id table).run := by
  refine Fallible.uses_bind (Fallible.uses_attempt (uses_ask allows trivial)) ?_
  intro outcome
  cases outcome <;> exact .ret _

/-- Listing the tagged rules of both tables. -/
private theorem uses_taggedRules (id : String) :
    OnlyUses P (PacketFilter.taggedRules id).run :=
  Fallible.uses_bind (uses_taggedIn allows id .nat) fun _ =>
    Fallible.uses_bind (uses_taggedIn allows id .filter) fun _ => .ret _

/-- Deleting one rule after another. -/
private theorem uses_deleteEach (rules : List Rule) :
    OnlyUses P (PacketFilter.deleteEach rules).run := by
  induction rules with
  | nil => exact .ret _
  | cons rule rest inductionHypothesis =>
      exact Fallible.uses_bind (uses_runOk allows _) fun _ =>
        Fallible.uses_bind inductionHypothesis fun _ => .ret _

/-- Deleting the rules of a container. -/
theorem uses_cleanup (id : String) :
    OnlyUses P (PacketFilter.cleanup id).run :=
  Fallible.uses_bind (uses_taggedRules allows id) fun _ => uses_deleteEach allows _

/-- Flushing and deleting the chains. -/
private theorem uses_dropChains (chains : List (Table × String)) :
    OnlyUses P (PacketFilter.dropChains chains).run := by
  induction chains with
  | nil => exact .ret _
  | cons chain rest inductionHypothesis =>
      exact Fallible.uses_bind (uses_runOk allows _) fun _ =>
        Fallible.uses_bind (uses_runOk allows _) fun _ => inductionHypothesis

/-- `teardown_base` runs `iptables` only. -/
private theorem uses_teardownBase :
    OnlyUses P PacketFilter.teardownBase.run :=
  Fallible.uses_bind (uses_cleanup allows "base") fun _ =>
    Fallible.uses_bind (uses_deleteEach allows _) fun _ => uses_dropChains allows _

/-- `delete_host_veth` deletes an interface besides. -/
private theorem uses_deleteHostVeth
    (deletes : ∀ index, P (.deleteLink index))
    (name : String) :
    OnlyUses P (Network.deleteHostVeth name).run := by
  refine Fallible.uses_bind (uses_ask allows trivial) fun _ => ?_
  refine Fallible.uses_bind (uses_ask allows trivial) ?_
  intro found
  cases found with
  | none => exact .ret _
  | some index => exact .perform (deletes index)

/-- `teardown` releases the lease and deletes an interface besides. -/
theorem uses_networkTeardown
    {id : String}
    (releases : P (.leaseRelease id))
    (deletes : ∀ index, P (.deleteLink index))
    (net : NetworkState) :
    OnlyUses P (Network.teardown id net).run := by
  have release : OnlyUses P (Network.releaseLease id).run :=
    .perform releases
  unfold Network.teardown
  split
  · exact Fallible.uses_bind (Fallible.uses_attempt release) fun _ => .ret _
  · refine Fallible.uses_bind (uses_cleanup allows id) fun _ => ?_
    refine Fallible.uses_bind ?_ fun _ =>
      Fallible.uses_bind (Fallible.uses_attempt release) fun _ => .ret _
    cases net.hostVeth with
    | none => exact .ret _
    | some name =>
        exact Fallible.uses_bind
          (Fallible.uses_attempt (uses_deleteHostVeth allows deletes name)) fun _ => .ret _

/-- The shared clean-up deletes an interface besides. -/
theorem uses_gcShared
    (deletes : ∀ index, P (.deleteLink index))
    (live : List String) :
    OnlyUses P (Supervisor.gcShared live).run := by
  unfold Supervisor.gcShared
  split
  · exact .ret _
  · refine Fallible.uses_bind (Fallible.uses_attempt ?_) fun _ => ?_
    · refine Fallible.uses_bind (uses_ask allows trivial) fun _ => ?_
      refine Fallible.uses_bind (uses_ask allows trivial) ?_
      intro found
      cases found with
      | none => exact .ret _
      | some index =>
          refine Fallible.uses_bind (uses_ask allows trivial) ?_
          intro links
          cases links.any Network.isHostVeth with
          | true => exact .ret _
          | false =>
              exact Fallible.uses_bind (.perform (deletes index)) fun _ => .ret _
    · refine Fallible.uses_bind
        (Fallible.uses_bind (uses_taggedRules allows "base") fun _ => .ret _) ?_
      intro count
      by_cases some : 0 < count
      · simp only [some, if_true]
        exact Fallible.uses_bind (uses_teardownBase allows) fun _ => .ret _
      · simp only [some, if_false]
        exact .ret _

end Uses

end Cleanup

end Myrun
