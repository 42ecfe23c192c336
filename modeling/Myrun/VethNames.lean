import Myrun.IpamUsable
import Myrun.Runtime

namespace Myrun

/-!
# Interface names

The host end of a container's veth pair is named after 32 bits of a hash of the
container's identifier.  `setup_host` takes an interface with that name for a
leftover of the same container and deletes it, and `orphaned_veths` takes one
with the name of a live container for its own.  Both are right as long as no two
of the containers involved share the 32 bits.
-/

/-! ## Names -/

/-- The part of the hash that names the interfaces. -/
def vethHash (id : String) : UInt32 :=
  (fnv1a (id.toList.flatMap String.utf8EncodeChar)).toUInt32

/-- The value of hexadecimal digits. -/
def hexValue (cs : List Char) : Nat :=
  cs.foldl (fun n c => 16 * n + (JsonParser.hexDigit c).getD 0) 0

private theorem hexDigit_digitChar
    {d : Nat}
    (digit : d < 16) :
    JsonParser.hexDigit d.digitChar = some d := by
  interval_cases d <;> decide

private theorem hexValue_append (cs : List Char) (c : Char) :
    hexValue (cs ++ [c]) =
      16 * hexValue cs + (JsonParser.hexDigit c).getD 0 := by
  simp [hexValue]

private theorem hexValue_toDigits (n : Nat) :
    hexValue (Nat.toDigits 16 n) = n := by
  induction n using Nat.strongRecOn with
  | _ n inductionHypothesis =>
      by_cases small : n < 16
      · rw [Nat.toDigits_of_lt_base small]
        simp [hexValue, hexDigit_digitChar small]
      · have smaller : n / 16 < n := by
          omega
        have digit : n % 16 < 16 := by
          omega
        rw [Nat.toDigits_of_base_le (by decide) (by omega), hexValue_append,
          inductionHypothesis _ smaller, hexDigit_digitChar digit]
        simp only [Option.getD_some]
        omega

private theorem hexValue_padded (count : Nat) (cs : List Char) :
    hexValue (List.replicate count '0' ++ cs) = hexValue cs := by
  induction count with
  | zero =>
      rfl
  | succ count inductionHypothesis =>
      rw [List.replicate_succ, List.cons_append, ← inductionHypothesis]
      rfl

private theorem hex8_injective
    {m n : UInt32}
    (same : hex8 m = hex8 n) :
    m = n := by
  have digits := congrArg (fun s => hexValue s.toList) same
  simp only [hex8, String.toList_ofList, hexValue_padded,
    hexValue_toDigits] at digits
  exact UInt32.toNat_inj.mp digits

/-- Two containers share an interface name exactly when they share the hash. -/
theorem hostVeth_eq_iff {first second : String} :
    hostVeth first = hostVeth second ↔ vethHash first = vethHash second := by
  constructor
  · intro same
    have characters := congrArg String.toList same
    simp only [hostVeth, String.toList_append, List.append_cancel_left_eq,
      String.toList_inj] at characters
    exact hex8_injective characters
  · intro same
    rw [hostVeth, hostVeth, vethSuffix, vethSuffix]
    exact congrArg (fun hash => "mrv" ++ hex8 hash) same

theorem hostVeth_ne_peerVeth (first second : String) :
    hostVeth first ≠ peerVeth second := by
  intro same
  have characters := congrArg String.toList same
  simp [hostVeth, peerVeth] at characters

private theorem isHostVeth_hostVeth (id : String) :
    Network.isHostVeth (hostVeth id) = true := by
  simp [Network.isHostVeth, startsWith, hostVeth]

/-! ## The interfaces of the host -/

/-- The interfaces of the host, and the names of those that were deleted or
created since the start. -/
structure Interfaces where
  links : List Link
  nextIndex : UInt32
  touched : List String := []

namespace Interfaces

/-- The interface with a given name. -/
def link? (n : Interfaces) (name : String) : Option Link :=
  n.links.find? (·.name = name)

/-- Add new interfaces. -/
def add (n : Interfaces) (links : List Link) (count : UInt32) : Interfaces where
  links := n.links ++ links
  nextIndex := n.nextIndex + count
  touched := links.map Link.name ++ n.touched

/-- What goes away with an interface. -/
def goes (index : UInt32) (l : Link) : Bool :=
  decide (l.index = index) || decide (l.peer = some index)

/-- Delete an interface, and the other end of its pair. -/
def without (n : Interfaces) (index : UInt32) : Interfaces where
  links := n.links.filter fun l => !goes index l
  nextIndex := n.nextIndex
  touched := (n.links.filter (goes index)).map Link.name ++ n.touched

/-- Move an interface to the namespace of a process. -/
def handOver (n : Interfaces) (index : UInt32) (pid : Pid) : Interfaces :=
  { n with links := (n.links.filter (·.index ≠ index)).map fun l =>
    if l.peer = some index then { l with peer := none, peerIn := some pid }
    else l }

/-- What an operation answers about the interfaces and does to them.  Answers
about anything else are open. -/
def Step (n : Interfaces) : (op : HostOp) → HostAns op → Interfaces → Prop
  | .linkIndex name, .ok index, n' =>
      index = (n.link? name).map Link.index ∧ n' = n
  | .listLinks, .ok names, n' => names = n.links.map Link.name ∧ n' = n
  | .createBridge name, .ok _, n' =>
      n.link? name = none ∧ n' = n.add [{ index := n.nextIndex, name }] 1
  | .createVeth host peer, .ok _, n' =>
      (n.link? host = none ∧ n.link? peer = none) ∧
        n' = n.add
          [{ index := n.nextIndex, name := host,
             peer := some (n.nextIndex + 1) },
           { index := n.nextIndex + 1, name := peer,
             peer := some n.nextIndex }] 2
  | .deleteLink index, .ok _, n' => n' = n.without index
  | .moveToNetns index pid _, .ok _, n' => n' = n.handOver index pid
  | _, _, n' => n' = n

/-! ## One interface is left alone -/

/-- The operations that leave the interfaces as they are. -/
def Still : HostOp → Prop
  | .createBridge _ => False
  | .createVeth _ _ => False
  | .deleteLink _ => False
  | .moveToNetns _ _ _ => False
  | _ => True

/-- The operations that neither create nor delete an interface. -/
def Harmless : HostOp → Prop
  | .createBridge _ => False
  | .createVeth _ _ => False
  | .deleteLink _ => False
  | _ => True

private theorem harmless_of_still
    (op : HostOp)
    (still : Still op) :
    Harmless op := by
  cases op <;> first | exact still | trivial

section Uses

open Prog Fallible

private theorem still_runOk
    {command : Iptables} :
    (PacketFilter.runOk command).run.OnlyUses Still :=
  uses_bind (uses_attempt (.perform trivial)) fun _ => .ret _

private theorem still_appendUnique (rule : Rule) :
    (PacketFilter.appendUnique rule).run.OnlyUses Still := by
  refine uses_bind still_runOk ?_
  intro present
  cases present with
  | true => exact .ret _
  | false => exact .perform trivial

private theorem still_insertUnique (rule : Rule) :
    (PacketFilter.insertUnique rule).run.OnlyUses Still := by
  refine uses_bind still_runOk ?_
  intro present
  cases present with
  | true => exact .ret _
  | false => exact .perform trivial

private theorem still_appendEach (rules : List Rule) :
    (PacketFilter.appendEach rules).run.OnlyUses Still := by
  induction rules with
  | nil =>
      exact .ret _
  | cons rule rest inductionHypothesis =>
      exact uses_bind (still_appendUnique rule)
        fun _ => inductionHypothesis

private theorem still_insertEach (rules : List Rule) :
    (PacketFilter.insertEach rules).run.OnlyUses Still := by
  induction rules with
  | nil =>
      exact .ret _
  | cons rule rest inductionHypothesis =>
      exact uses_bind (still_insertUnique rule)
        fun _ => inductionHypothesis

private theorem still_createChains (chains : List (Table × String)) :
    (PacketFilter.createChains chains).run.OnlyUses Still := by
  induction chains with
  | nil =>
      exact .ret _
  | cons chain rest inductionHypothesis =>
      refine uses_bind still_runOk ?_
      intro present
      cases present with
      | true => exact inductionHypothesis
      | false =>
          exact uses_bind (.perform trivial) fun _ => inductionHypothesis

private theorem still_ensureChains :
    PacketFilter.ensureChains.run.OnlyUses Still :=
  uses_bind (still_createChains _) fun _ => still_insertEach _

private theorem still_enableSetting (path what : String) :
    (PacketFilter.enableSetting path what).run.OnlyUses Still := by
  have read : (readTrimmed path).attempt.run.OnlyUses Still :=
    uses_attempt (uses_bind (.perform trivial) fun _ => .ret _)
  refine uses_bind read ?_
  intro text
  split
  · exact .ret _
  · exact uses_mapErr (.perform trivial)

private theorem still_setupBridge
    (bridge subnet : String)
    (nat : Bool) :
    (PacketFilter.setupBridge bridge subnet nat).run.OnlyUses Still := by
  refine uses_bind (still_enableSetting _ _) fun _ => ?_
  refine uses_bind (uses_attempt (still_enableSetting _ _)) fun _ => ?_
  refine uses_bind still_ensureChains fun _ => ?_
  exact uses_bind (still_appendEach _) fun _ => .perform trivial

private theorem still_publishEach
    (id bridge : String)
    (ip : Ipv4)
    (ports : List PortMapping) :
    (PacketFilter.publishEach id bridge ip ports).run.OnlyUses Still := by
  induction ports with
  | nil =>
      exact .ret _
  | cons m rest inductionHypothesis =>
      refine uses_bind ?_ fun _ => inductionHypothesis
      exact uses_bind still_ensureChains fun _ => still_appendEach _

private theorem still_linkIndexRequired (name : String) :
    (Network.linkIndexRequired name).run.OnlyUses Still := by
  refine uses_bind (.perform trivial) ?_
  intro index
  cases index with
  | none => exact .ret _
  | some index => exact .ret _

private theorem still_addGateway
    (bridge : String)
    (index : UInt32)
    (gateway : Ipv4)
    (prefixLen : UInt8) :
    (Network.addGateway bridge index gateway prefixLen).run.OnlyUses
      Still := by
  refine uses_bind (uses_attempt (.perform trivial)) ?_
  intro outcome
  cases outcome with
  | ok _ => exact .ret _
  | error e =>
      simp only [Fallible.run_ite]
      split
      · exact .ret _
      · exact .ret _

private theorem harmless_connectVeth
    (n : NetworkConfig)
    (bridgeIdx : UInt32)
    (host peer : String)
    (pid : Pid) :
    (Network.connectVeth n bridgeIdx host peer pid).run.OnlyUses Harmless := by
  refine uses_bind ((still_linkIndexRequired host).mono harmless_of_still)
    fun _ => ?_
  refine uses_bind ((still_linkIndexRequired peer).mono harmless_of_still)
    fun _ => ?_
  refine uses_bind (.perform trivial) fun _ => ?_
  refine uses_bind (.perform trivial) fun _ => ?_
  refine uses_bind (.perform trivial) fun _ => ?_
  refine uses_bind (.perform trivial) fun _ => ?_
  refine uses_bind (.perform trivial) fun _ => ?_
  exact uses_bind (.perform trivial) fun _ => .perform trivial

end Uses

private theorem step_still
    {n n' : Interfaces}
    {op : HostOp}
    {answer : HostAns op}
    (still : Still op)
    (stepped : Step n op answer n') :
    n' = n := by
  cases op with
  | linkIndex name =>
      cases answer with
      | ok index => exact stepped.2
      | error e => exact stepped
  | listLinks =>
      cases answer with
      | ok names => exact stepped.2
      | error e => exact stepped
  | createBridge name => exact still.elim
  | createVeth host peer => exact still.elim
  | deleteLink index => exact still.elim
  | moveToNetns index pid name => exact still.elim
  | _ => exact stepped

private theorem step_harmless
    {n n' : Interfaces}
    {op : HostOp}
    {answer : HostAns op}
    (harmless : Harmless op)
    (stepped : Step n op answer n') :
    n'.touched = n.touched := by
  cases op with
  | createBridge name => exact harmless.elim
  | createVeth host peer => exact harmless.elim
  | deleteLink index => exact harmless.elim
  | moveToNetns index pid name =>
      cases answer with
      | ok done => rw [show n' = n.handOver index pid from stepped]; rfl
      | error e => rw [show n' = n from stepped]
  | _ => rw [step_still (by trivial) stepped]

/-- An interface that is there, has its name and index for itself, and was
neither deleted nor created. -/
structure Keeps (kept : Link) (n : Interfaces) : Prop where
  here : kept ∈ n.links
  alone : ∀ l ∈ n.links, l.name = kept.name ∨ l.index = kept.index → l = kept
  untouched : kept.name ∉ n.touched

private theorem link?_eq_none
    {n : Interfaces}
    {name : String} :
    n.link? name = none ↔ ∀ l ∈ n.links, l.name ≠ name := by
  simp [link?]

section Keeps

variable {kept : Link} {n : Interfaces}

private theorem Keeps.addBridge
    (keeps : Keeps kept n)
    (fresh : kept.index ≠ n.nextIndex)
    {name : String}
    (absent : n.link? name = none) :
    Keeps kept (n.add [{ index := n.nextIndex, name }] 1) := by
  have different : kept.name ≠ name :=
    link?_eq_none.mp absent kept keeps.here
  refine ⟨List.mem_append_left _ keeps.here, ?_, ?_⟩
  · intro l member same
    rcases List.mem_append.mp member with old | new
    · exact keeps.alone l old same
    · obtain rfl := List.mem_singleton.mp new
      rcases same with sameName | sameIndex
      · exact absurd sameName.symm different
      · exact absurd sameIndex.symm fresh
  · simpa [add, different] using keeps.untouched

private theorem Keeps.without
    (keeps : Keeps kept n)
    (single : kept.peer = none)
    {index : UInt32}
    (different : kept.index ≠ index) :
    Keeps kept (n.without index) := by
  have stays : goes index kept = false := by
    simp [goes, different, single]
  refine ⟨?_, ?_, ?_⟩
  · exact List.mem_filter.mpr ⟨keeps.here, by simp [stays]⟩
  · intro l member same
    exact keeps.alone l (List.mem_of_mem_filter member) same
  · intro member
    rcases List.mem_append.mp member with now | before
    · obtain ⟨l, gone, same⟩ := List.mem_map.mp now
      obtain ⟨there, leaves⟩ := List.mem_filter.mp gone
      obtain rfl := keeps.alone l there (.inl same)
      rw [stays] at leaves
      cases leaves
    · exact keeps.untouched before

/-- A program that leaves the interfaces as they are. -/
theorem wp_still
    {α : Type}
    {p : HostAct α}
    (still : p.run.OnlyUses Still)
    {ok : α → Interfaces → Prop}
    {err : Error → Interfaces → Prop}
    (okHolds : ∀ value, ok value n)
    (errHolds : ∀ e, err e n) :
    p.wp (.ofStep Step) n ok err := by
  have neutral : p.run.OnlyUses
      (Prog.Contract.ofStep Step : Prog.Contract HostOp HostAns _).Neutral := by
    refine still.mono ?_
    intro op still g Q holds answer g' stepped
    rw [step_still still stepped]
    exact holds answer
  refine neutral.wp ?_
  intro result
  cases result with
  | ok value => exact okHolds value
  | error e => exact errHolds e

/-- A program that neither creates nor deletes an interface. -/
theorem wp_harmless
    {α : Type}
    {p : HostAct α}
    (harmless : p.run.OnlyUses Harmless)
    {name : String}
    (untouched : name ∉ n.touched)
    {ok : α → Interfaces → Prop}
    (okHolds : ∀ value n', name ∉ n'.touched → ok value n') :
    p.wp (.ofStep Step) n ok fun _ n' => name ∉ n'.touched := by
  have ends : p.run.wp (.ofStep Step) n fun _ n' => name ∉ n'.touched := by
    refine Prog.OnlyUses.wp_invariant (harmless.mono ?_) untouched
    intro op harmless g answer g' untouched stepped
    rw [step_harmless harmless stepped]
    exact untouched
  refine Prog.wp_mono ?_ ends
  intro result n' untouched
  cases result with
  | ok value => exact okHolds value n' untouched
  | error e => exact untouched

private theorem wp_stillTask
    {α : Type}
    {p : HostAct α}
    (still : p.run.OnlyUses Still)
    (keeps : Keeps kept n)
    {undo : List Undo}
    {ok : α → List Undo → Interfaces → Prop}
    (okHolds : ∀ value, ok value undo n) :
    (liftM p : HostTask α).wp (.ofStep Step) undo n ok
      fun _ _ n' => kept.name ∉ n'.touched :=
  (Staged.wp_liftM p undo n).mpr
    (wp_still still okHolds fun _ => keeps.untouched)

private theorem wp_harmlessTask
    {α : Type}
    {p : HostAct α}
    (harmless : p.run.OnlyUses Harmless)
    (untouched : kept.name ∉ n.touched)
    {undo : List Undo}
    {ok : α → List Undo → Interfaces → Prop}
    (okHolds : ∀ value n', kept.name ∉ n'.touched → ok value undo n') :
    (liftM p : HostTask α).wp (.ofStep Step) undo n ok
      fun _ _ n' => kept.name ∉ n'.touched :=
  (Staged.wp_liftM p undo n).mpr (wp_harmless harmless untouched okHolds)

/-- Looking up the index of a name. -/
theorem wp_linkIndex
    {name : String}
    {ok : Option UInt32 → Interfaces → Prop}
    {err : Error → Interfaces → Prop}
    (okHolds : ok ((n.link? name).map Link.index) n)
    (errHolds : ∀ e, err e n) :
    (Network.linkIndex name).wp (.ofStep Step) n ok err := by
  intro answer n' stepped
  cases answer with
  | ok index =>
      obtain ⟨rfl, rfl⟩ := stepped
      exact okHolds
  | error e =>
      obtain rfl := stepped
      exact errHolds e

private theorem wp_bridgeIndex
    (keeps : Keeps kept n)
    (fresh : kept.index ≠ n.nextIndex)
    {bridge : String}
    {ok : UInt32 → Interfaces → Prop}
    (okHolds : ∀ index n', Keeps kept n' → ok index n') :
    (Network.bridgeIndex bridge).wp (.ofStep Step) n ok
      fun _ n' => kept.name ∉ n'.touched := by
  rw [Network.bridgeIndex, Fallible.wp_bind]
  refine wp_linkIndex ?_ fun _ => keeps.untouched
  cases n.link? bridge with
  | some l =>
      exact okHolds _ n keeps
  | none =>
      rw [Option.map_none, Fallible.wp_bind]
      intro answer n' stepped
      cases answer with
      | error e =>
          obtain rfl := stepped
          exact keeps.untouched
      | ok done =>
          obtain ⟨absent, rfl⟩ := stepped
          have after := keeps.addBridge fresh absent
          rw [Prog.wp_ret, Fallible.onResult_ok, Fallible.wp_bind]
          refine wp_still (.perform trivial) ?_ fun _ => after.untouched
          intro _
          exact wp_still (still_linkIndexRequired bridge)
            (fun index => okHolds index _ after) fun _ => after.untouched

private theorem wp_removeLeftoverVeth
    (keeps : Keeps kept n)
    (single : kept.peer = none)
    {host : String}
    (different : kept.name ≠ host)
    {ok : Unit → Interfaces → Prop}
    (okHolds : ∀ done n', Keeps kept n' → ok done n') :
    (Network.removeLeftoverVeth host).wp (.ofStep Step) n ok
      fun _ n' => kept.name ∉ n'.touched := by
  rw [Network.removeLeftoverVeth, Fallible.wp_bind]
  refine wp_linkIndex ?_ fun _ => keeps.untouched
  cases found : n.link? host with
  | none =>
      exact okHolds () n keeps
  | some l =>
      rw [Option.map_some, Fallible.wp_bind]
      refine wp_linkIndex ?_ fun _ => keeps.untouched
      have there : l ∈ n.links := List.mem_of_find?_eq_some found
      have named : l.name = host := by
        simpa using List.find?_some found
      have other : kept.index ≠ l.index := by
        intro same
        have isKept : l = kept := keeps.alone l there (.inr same.symm)
        exact different (isKept ▸ named)
      rw [found, Option.map_some, Fallible.wp_bind, Fallible.wp_attempt]
      intro answer n' stepped
      cases answer with
      | ok done =>
          rw [show n' = n.without l.index from stepped]
          exact okHolds () _ (keeps.without single other)
      | error e =>
          rw [show n' = n from stepped]
          exact okHolds () n keeps

private theorem wp_createVeth
    (keeps : Keeps kept n)
    {host peer : String}
    (notHost : kept.name ≠ host)
    (notPeer : kept.name ≠ peer)
    {ok : Unit → Interfaces → Prop}
    (okHolds : ∀ done n', kept.name ∉ n'.touched → ok done n') :
    (Network.createVeth host peer).wp (.ofStep Step) n ok
      fun _ n' => kept.name ∉ n'.touched := by
  intro answer n' stepped
  cases answer with
  | ok done =>
      obtain ⟨_, rfl⟩ := stepped
      refine okHolds () _ ?_
      simpa [add, notHost, notPeer] using keeps.untouched
  | error e =>
      obtain rfl := stepped
      exact keeps.untouched

private theorem wp_ensureBridge
    (keeps : Keeps kept n)
    (fresh : kept.index ≠ n.nextIndex)
    {bridge : String}
    {gateway : Ipv4}
    {prefixLen : UInt8}
    {ok : UInt32 → Interfaces → Prop}
    (okHolds : ∀ index n', Keeps kept n' → ok index n') :
    (Network.ensureBridge bridge gateway prefixLen).wp (.ofStep Step) n ok
      fun _ n' => kept.name ∉ n'.touched := by
  rw [Network.ensureBridge, Fallible.wp_bind]
  refine wp_bridgeIndex keeps fresh ?_
  intro index n' keeps'
  rw [Fallible.wp_bind]
  refine wp_still (still_addGateway _ _ _ _) ?_ fun _ => keeps'.untouched
  intro _
  rw [Fallible.wp_bind]
  refine wp_still (.perform trivial) ?_ fun _ => keeps'.untouched
  intro _
  exact okHolds index n' keeps'

/-- After the veth pair was created, nothing is created or deleted. -/
theorem wp_afterVeth
    {cfg : ContainerConfig}
    {bridgeIdx : UInt32}
    {ip gateway : Ipv4}
    {prefixLen : UInt8}
    {pid : Pid}
    {undo : List Undo}
    (untouched : kept.name ∉ n.touched) :
    (do
      pushUndo (.veth (hostVeth cfg.id))
      Fault.check "after_veth_create"
      Network.connectVeth cfg.network bridgeIdx (hostVeth cfg.id)
        (peerVeth cfg.id) pid
      PacketFilter.setupBridge cfg.network.bridge cfg.network.subnet
        cfg.network.nat
      PacketFilter.publishEach cfg.id cfg.network.bridge ip cfg.network.publish
      Network.pushRulesUndo cfg
      return Network.bridgedState cfg ip gateway prefixLen :
        HostTask NetworkState).wp (.ofStep Step) undo n
      (fun _ _ n' => kept.name ∉ n'.touched)
      fun _ _ n' => kept.name ∉ n'.touched := by
  rw [Staged.wp_bind, pushUndo, Staged.wp_modify, Staged.wp_bind]
  refine wp_harmlessTask (.perform trivial) untouched ?_
  intro _ n1 untouched1
  rw [Staged.wp_bind]
  refine wp_harmlessTask (harmless_connectVeth _ _ _ _ _) untouched1 ?_
  intro _ n2 untouched2
  rw [Staged.wp_bind]
  refine wp_harmlessTask ((still_setupBridge _ _ _).mono harmless_of_still)
    untouched2 ?_
  intro _ n3 untouched3
  rw [Staged.wp_bind]
  refine wp_harmlessTask ((still_publishEach _ _ _ _).mono harmless_of_still)
    untouched3 ?_
  intro _ n4 untouched4
  rw [Staged.wp_bind, Network.pushRulesUndo]
  split
  · exact untouched4
  · exact untouched4

/-- `setup_host` leaves an interface alone that has neither of its two names. -/
theorem wp_setupBridged
    (keeps : Keeps kept n)
    (fresh : kept.index ≠ n.nextIndex)
    (single : kept.peer = none)
    {cfg : ContainerConfig}
    (notHost : kept.name ≠ hostVeth cfg.id)
    (notPeer : kept.name ≠ peerVeth cfg.id)
    (pid : Pid) :
    (Network.setupBridged cfg pid).wp (.ofStep Step) [] n
      (fun _ _ n' => kept.name ∉ n'.touched)
      fun _ _ n' => kept.name ∉ n'.touched := by
  rw [Network.setupBridged, Staged.wp_bind]
  refine wp_stillTask still_runOk keeps ?_
  intro usable
  cases usable with
  | false => exact keeps.untouched
  | true =>
      simp only [Bool.not_true, Bool.false_eq_true, if_false, Staged.wp_bind]
      refine wp_stillTask (.ret _) keeps ?_
      rintro ⟨_, subnetLen⟩
      refine wp_stillTask (.ret _) keeps ?_
      intro gateway
      refine wp_stillTask (.perform trivial) keeps ?_
      intro _
      refine (Staged.wp_liftM _ _ _).mpr (wp_ensureBridge keeps fresh ?_)
      intro bridgeIdx n1 keeps1
      refine wp_stillTask (.ret _) keeps1 ?_
      intro requested
      refine wp_stillTask (.perform trivial) keeps1 ?_
      rintro ⟨ip, prefixLen⟩
      rw [pushUndo, Staged.wp_modify]
      refine wp_stillTask (.perform trivial) keeps1 ?_
      intro _
      refine (Staged.wp_liftM _ _ _).mpr
        (wp_removeLeftoverVeth keeps1 single notHost ?_)
      intro _ n2 keeps2
      refine (Staged.wp_liftM _ _ _).mpr
        (wp_createVeth keeps2 notHost notPeer ?_)
      intro _ n3 untouched
      simpa only [Staged.wp_bind] using wp_afterVeth untouched

end Keeps

/-! ## An interface with the new name is deleted -/

section Collision

open Network

variable {n : Interfaces}

/-- The bridge may be found or created; other interfaces are still there. -/
theorem may_bridgeIndex
    {bridge : String}
    {ok : UInt32 → Interfaces → Prop}
    {err : Error → Interfaces → Prop}
    (holds : (bridgeIndex bridge).wp (.ofStep Step) n ok err) :
    ∃ index n', ok index n' ∧
      ∀ name l, n.link? name = some l → n'.link? name = some l := by
  rw [bridgeIndex, Fallible.wp_bind] at holds
  have looked := holds (.ok ((n.link? bridge).map Link.index)) n ⟨rfl, rfl⟩
  cases found : n.link? bridge with
  | some l =>
      rw [found] at looked
      exact ⟨l.index, n, looked, fun _ _ same => same⟩
  | none =>
      rw [found] at looked
      let n' := n.add [{ index := n.nextIndex, name := bridge }] 1
      have created : n'.link? bridge = some ⟨n.nextIndex, bridge, none, none⟩ := by
        simp only [link?] at found
        simp [n', link?, add, List.find?_append, found]
      rw [Option.map_none, Prog.wp_ret, Fallible.onResult_ok,
        Fallible.wp_bind] at looked
      have made := looked (.ok ()) n' ⟨found, rfl⟩
      simp only [Prog.wp_ret, Fallible.onResult_ok, Fallible.wp_bind] at made
      have checked := made (.ok ()) n' rfl
      simp only [Prog.wp_ret, Fallible.onResult_ok, linkIndexRequired,
        Fallible.wp_bind] at checked
      have again := checked (.ok ((n'.link? bridge).map Link.index)) n'
        ⟨rfl, rfl⟩
      rw [created] at again
      refine ⟨n.nextIndex, n', again, ?_⟩
      intro name l same
      simp only [link?] at same
      simp [n', link?, add, List.find?_append, same]

private theorem may_ensureBridge
    {bridge : String}
    {gateway : Ipv4}
    {prefixLen : UInt8}
    {ok : UInt32 → Interfaces → Prop}
    {err : Error → Interfaces → Prop}
    (holds : (ensureBridge bridge gateway prefixLen).wp (.ofStep Step) n ok
      err) :
    ∃ index n', ok index n' ∧
      ∀ name l, n.link? name = some l → n'.link? name = some l := by
  rw [ensureBridge, Fallible.wp_bind] at holds
  obtain ⟨index, n', found, still⟩ := may_bridgeIndex holds
  rw [Fallible.wp_bind, addGateway, Fallible.wp_bind, Fallible.wp_attempt]
    at found
  have addressed := found (.ok ()) n' rfl
  exact ⟨index, n', addressed (.ok ()) n' rfl, still⟩

/-- An interface with the host name is deleted. -/
theorem may_removeLeftoverVeth
    {host : String}
    {l : Link}
    (there : n.link? host = some l)
    {ok : Unit → Interfaces → Prop}
    {err : Error → Interfaces → Prop}
    (holds : (removeLeftoverVeth host).wp (.ofStep Step) n ok err) :
    ok () (n.without l.index) := by
  rw [removeLeftoverVeth, Fallible.wp_bind] at holds
  have looked := holds (.ok ((n.link? host).map Link.index)) n ⟨rfl, rfl⟩
  rw [there, Option.map_some, Prog.wp_ret, Fallible.onResult_ok,
    Fallible.wp_bind] at looked
  have again := looked (.ok ((n.link? host).map Link.index)) n ⟨rfl, rfl⟩
  rw [there, Option.map_some, Prog.wp_ret, Fallible.onResult_ok,
    Fallible.wp_bind, Fallible.wp_attempt] at again
  exact again (.ok ()) _ rfl

private theorem may_available
    {ok : Bool → Interfaces → Prop}
    {err : Error → Interfaces → Prop}
    (holds : PacketFilter.available.wp (.ofStep Step) n ok err) :
    ok true n := by
  rw [PacketFilter.available, PacketFilter.runOk, Fallible.wp_bind,
    Fallible.wp_attempt] at holds
  exact holds (.ok ()) n rfl

private theorem may_setupBridged
    {cfg : ContainerConfig}
    {net gateway : Ipv4}
    {length : UInt8}
    {requested : Option Ipv4}
    (facts : BridgeFacts cfg.network net length gateway requested)
    {l : Link}
    (there : n.link? (hostVeth cfg.id) = some l)
    {pid : Pid}
    {Q : Interfaces → Prop}
    (holds : (setupBridged cfg pid).wp (.ofStep Step) [] n (fun _ _ => Q)
      fun _ _ => Q) :
    ∃ n' : Interfaces, n'.link? (hostVeth cfg.id) = some l ∧
      Q (n'.without l.index) := by
  rw [setupBridged, Staged.wp_bind] at holds
  have usable := may_available ((Staged.wp_liftM _ _ _).mp holds)
  simp only [Bool.not_true, Bool.false_eq_true, if_false, Staged.wp_bind]
    at usable
  have parsed := (Staged.wp_lift _ _ _).mp usable
  rw [Fallible.wp_ofExcept, facts.cidr, Fallible.onResult_ok] at parsed
  have gated := (Staged.wp_lift _ _ _).mp parsed
  rw [Fallible.wp_ofExcept, facts.gatewayAddr, Fallible.onResult_ok] at gated
  have opened := (Staged.wp_liftM _ _ _).mp gated (.ok ()) n rfl
  obtain ⟨bridgeIdx, n', bridged, still⟩ :=
    may_ensureBridge ((Staged.wp_liftM _ _ _).mp opened)
  have asked := (Staged.wp_lift _ _ _).mp bridged
  rw [Fallible.wp_ofExcept, facts.request, Fallible.onResult_ok] at asked
  have leased := (Staged.wp_liftM _ _ _).mp asked (.ok (gateway, length)) n' rfl
  have checked := (Staged.wp_liftM _ _ _).mp leased (.ok ()) n' rfl
  have removed := may_removeLeftoverVeth (still _ l there)
    ((Staged.wp_liftM _ _ _).mp checked)
  exact ⟨n', still _ l there,
    (Staged.wp_liftM _ _ _).mp removed (.error (.io "")) _ rfl⟩

private theorem may_orphanedVeths
    {liveIds : List String}
    {ok : List String → Interfaces → Prop}
    {err : Error → Interfaces → Prop}
    (holds : (orphanedVeths liveIds).wp (.ofStep Step) n ok err) :
    ok ((n.links.map Link.name).filter fun l =>
      isHostVeth l && !(liveIds.map hostVeth).contains l) n := by
  rw [orphanedVeths, Fallible.wp_bind] at holds
  have opened := holds (.ok ()) n rfl
  simp only [Prog.wp_ret, Fallible.onResult_ok, Fallible.wp_bind] at opened
  exact opened (.ok (n.links.map Link.name)) n ⟨rfl, rfl⟩

end Collision

/-- The names `orphaned_veths` returns. -/
theorem wp_orphanedVeths
    {n : Interfaces}
    {liveIds : List String} :
    (Network.orphanedVeths liveIds).wp (.ofStep Step) n
      (fun names _ => names = (n.links.map Link.name).filter fun l =>
        Network.isHostVeth l && !(liveIds.map hostVeth).contains l)
      fun _ _ => True := by
  rw [Network.orphanedVeths, Fallible.wp_bind]
  refine wp_still (.perform trivial) ?_ fun _ => trivial
  intro _
  rw [Fallible.wp_bind]
  intro answer n' stepped
  cases answer with
  | ok names =>
      obtain ⟨rfl, rfl⟩ := stepped
      rfl
  | error e =>
      trivial

/-! ## Setting up a container among live ones -/

/-- The interfaces before a container is set up: `owner` is the container that
an interface was created for, if it was created for one.  The peer of a live
container's interface is in the container's namespace. -/
structure Accounted (live : List String) (owner : String → Option String)
    (n : Interfaces) : Prop where
  named : ∀ name id, owner name = some id → name = hostVeth id
  distinct : ∀ l ∈ n.links, ∀ m ∈ n.links,
    l.name = m.name ∨ l.index = m.index → l = m
  fresh : ∀ l ∈ n.links, l.index ≠ n.nextIndex
  handedOver : ∀ l ∈ n.links, ∀ id ∈ live, owner l.name = some id →
    l.peer = none
  untouched : n.touched = []

/-- However `setup_host` goes, no interface of a live container is deleted or
created again. -/
def Spares (live : List String) (owner : String → Option String)
    (n : Interfaces) (cfg : ContainerConfig) : Prop :=
  ∀ pid result n',
    ((Network.setupHost cfg pid).run []).Exec Step n result n' →
    ∀ l ∈ n.links, ∀ id ∈ live, owner l.name = some id → l.name ∉ n'.touched

/-- Whenever `orphaned_veths` succeeds, it lists every `mrv*` interface that no
live container owns. -/
def ListsOrphans (live : List String) (owner : String → Option String)
    (n : Interfaces) : Prop :=
  ∀ names n',
    (Network.orphanedVeths live).run.Exec Step n (.ok names) n' →
    ∀ l ∈ n.links, Network.isHostVeth l.name = true →
      (∀ id ∈ live, owner l.name ≠ some id) → l.name ∈ names

/-- The 32 bits of the hash tell the containers apart: the new one from the
live ones, and what is left of dead ones from the live ones. -/
structure Distinguished (live : List String) (owner : String → Option String)
    (n : Interfaces) (id : String) : Prop where
  fromNew : ∀ l ∈ n.links, ∀ other ∈ live, owner l.name = some other →
    vethHash other ≠ vethHash id
  fromDead : ∀ l ∈ n.links, ∀ dead, owner l.name = some dead → dead ∉ live →
    ∀ other ∈ live, vethHash other ≠ vethHash dead
  fromStrangers : ∀ l ∈ n.links, owner l.name = none →
    ∀ other ∈ live, l.name ≠ hostVeth other

section Accounted

variable {live : List String} {owner : String → Option String}
  {n : Interfaces} {cfg : ContainerConfig}

private theorem spares_of_distinguished
    (accounted : n.Accounted live owner)
    (different : ∀ l ∈ n.links, ∀ other ∈ live, owner l.name = some other →
      vethHash other ≠ vethHash cfg.id) :
    n.Spares live owner cfg := by
  intro pid result n' exec l there id isLive owned
  have named : l.name = hostVeth id := accounted.named l.name id owned
  have notHost : l.name ≠ hostVeth cfg.id := by
    rw [named, ne_eq, hostVeth_eq_iff]
    exact different l there id isLive owned
  have notPeer : l.name ≠ peerVeth cfg.id := by
    rw [named]
    exact hostVeth_ne_peerVeth id cfg.id
  have keeps : Keeps l n := by
    refine ⟨there, ?_, by simp [accounted.untouched]⟩
    intro m member same
    exact accounted.distinct m member l there same
  have meets : (Network.setupHost cfg pid).wp (.ofStep Step) [] n
      (fun _ _ n' => l.name ∉ n'.touched)
      fun _ _ n' => l.name ∉ n'.touched := by
    unfold Network.setupHost
    cases cfg.network.mode with
    | none => exact keeps.untouched
    | host => exact keeps.untouched
    | bridge =>
        exact wp_setupBridged keeps (accounted.fresh l there)
          (accounted.handedOver l there id isLive owned) notHost notPeer pid
  have ends := exec.of_wp meets
  obtain ⟨result, undo⟩ := result
  cases result with
  | ok st => exact ends
  | error e => exact ends

private theorem different_of_spares
    (accounted : n.Accounted live owner)
    (accepted : AcceptedBridge cfg)
    (spares : n.Spares live owner cfg) :
    ∀ l ∈ n.links, ∀ other ∈ live, owner l.name = some other →
      vethHash other ≠ vethHash cfg.id := by
  intro l there other isLive owned same
  have named : l.name = hostVeth cfg.id := by
    rw [accounted.named l.name other owned, hostVeth_eq_iff]
    exact same
  have found : n.link? (hostVeth cfg.id) = some l := by
    obtain ⟨m, found⟩ := Option.isSome_iff_exists.mp
      (List.find?_isSome (p := fun m => decide (m.name = hostVeth cfg.id)).mpr
        ⟨l, there, by simpa using named⟩)
    have member := List.mem_of_find?_eq_some found
    have sameName : m.name = hostVeth cfg.id := by
      simpa using List.find?_some found
    obtain rfl := accounted.distinct m member l there
      (.inl (sameName.trans named.symm))
    exact found
  have meets : ((Network.setupBridged cfg 1).run []).wp (.ofStep Step) n
      fun _ n' => l.name ∉ n'.touched := by
    refine Prog.wp_of_exec ?_
    intro result n' exec
    have bridged : Network.setupHost cfg 1 = Network.setupBridged cfg 1 := by
      rw [Network.setupHost, accepted.bridged]
    exact spares 1 result n' (by rwa [bridged]) l there other isLive owned
  have deletes : (Network.setupBridged cfg 1).wp (.ofStep Step) [] n
      (fun _ _ n' => l.name ∉ n'.touched)
      fun _ _ n' => l.name ∉ n'.touched := by
    refine Prog.wp_mono ?_ meets
    rintro ⟨result, undo⟩ n' untouched
    cases result with
    | ok st => exact untouched
    | error e => exact untouched
  obtain ⟨net, length, gateway, requested, facts⟩ := accepted.facts
  obtain ⟨n', still, untouched⟩ := may_setupBridged facts found deletes
  have gone : l ∈ n'.links.filter (goes l.index) :=
    List.mem_filter.mpr ⟨List.mem_of_find?_eq_some still, by simp [goes]⟩
  exact untouched
    (List.mem_append_left _ (List.mem_map.mpr ⟨l, gone, rfl⟩))

/-- An interface that no live container owns has the name of none of them. -/
theorem listsOrphans_iff :
    n.ListsOrphans live owner ↔
      ∀ l ∈ n.links, (∀ id ∈ live, owner l.name ≠ some id) →
        ∀ other ∈ live, l.name ≠ hostVeth other := by
  constructor
  · intro lists l there unowned other isLive same
    have meets : (Network.orphanedVeths live).wp (.ofStep Step) n
        (fun names _ => l.name ∈ names) fun _ _ => True := by
      refine Prog.wp_of_exec ?_
      intro result n' exec
      cases result with
      | ok names =>
          have host : Network.isHostVeth l.name = true := by
            rw [same]
            exact isHostVeth_hostVeth other
          exact lists names n' exec l there host unowned
      | error e =>
          trivial
    have listed := (List.mem_filter.mp (may_orphanedVeths meets)).2
    have expected : l.name ∈ live.map hostVeth :=
      List.mem_map.mpr ⟨other, isLive, same.symm⟩
    simp [expected] at listed
  · intro unshared names n' exec l there host unowned
    have same := exec.of_wp wp_orphanedVeths
    simp only [Fallible.onResult_ok] at same
    rw [same, List.mem_filter]
    refine ⟨List.mem_map.mpr ⟨l, there, rfl⟩, ?_⟩
    have fresh : l.name ∉ live.map hostVeth := by
      intro member
      obtain ⟨other, isLive, named⟩ := List.mem_map.mp member
      exact unshared l there unowned other isLive named.symm
    simp [host, fresh]

private theorem unshared_iff
    (accounted : n.Accounted live owner)
    (id : String) :
    n.Distinguished live owner id ↔
      (∀ l ∈ n.links, ∀ other ∈ live, owner l.name = some other →
        vethHash other ≠ vethHash id) ∧
      ∀ l ∈ n.links, (∀ id ∈ live, owner l.name ≠ some id) →
        ∀ other ∈ live, l.name ≠ hostVeth other := by
  constructor
  · intro distinguished
    refine ⟨distinguished.fromNew, ?_⟩
    intro l there unowned other isLive same
    cases owned : owner l.name with
    | none =>
        exact distinguished.fromStrangers l there owned other isLive same
    | some dead =>
        have notLive : dead ∉ live := fun isLive => unowned dead isLive owned
        refine distinguished.fromDead l there dead owned notLive other isLive ?_
        rw [← hostVeth_eq_iff, ← same]
        exact accounted.named l.name dead owned
  · rintro ⟨fromNew, unshared⟩
    refine ⟨fromNew, ?_, ?_⟩
    · intro l there dead owned notLive other isLive same
      refine unshared l there ?_ other isLive ?_
      · rintro id isLive' owned'
        obtain rfl : dead = id := Option.some.inj (owned.symm.trans owned')
        exact notLive isLive'
      · rw [accounted.named l.name dead owned, hostVeth_eq_iff]
        exact same.symm
    · intro l there unowned other isLive
      exact unshared l there (by simp [unowned]) other isLive

/--
Setting up a container spares the live ones, and every interface left over is
listed, exactly when the 32 bits of the hash tell the containers apart.
-/
theorem setup_spares_iff
    (accounted : n.Accounted live owner)
    (accepted : AcceptedBridge cfg) :
    n.Spares live owner cfg ∧ n.ListsOrphans live owner ↔
      n.Distinguished live owner cfg.id := by
  rw [unshared_iff accounted, listsOrphans_iff]
  refine and_congr_left fun _ => ?_
  constructor
  · exact different_of_spares accounted accepted
  · exact spares_of_distinguished accounted

end Accounted

/-- A host with the interface of one container. -/
def single (id : String) : Interfaces where
  links := [{ index := 2, name := hostVeth id, peerIn := some 7 }]
  nextIndex := 3

/-- The container that the interface of `single` was created for. -/
def singleOwner (id name : String) : Option String :=
  if name = hostVeth id then some id else none

private theorem accounted_single (id : String) :
    (single id).Accounted [id] (singleOwner id) := by
  refine ⟨?_, ?_, ?_, ?_, rfl⟩
  · intro name other owned
    simp only [singleOwner, Option.ite_none_right_eq_some] at owned
    obtain ⟨named, same⟩ := owned
    rw [named, Option.some.inj same]
  · intro l there m member _
    rw [List.mem_singleton.mp there, List.mem_singleton.mp member]
  · intro l there
    rw [List.mem_singleton.mp there]
    exact (by decide : (2 : UInt32) ≠ 3)
  · intro l there _ _ _
    rw [List.mem_singleton.mp there]

theorem single_db_spared :
    (single "db").Accounted ["db"] (singleOwner "db") ∧
      AcceptedBridge (bridgeConfig "web" none) ∧
      (Spares ["db"] (singleOwner "db") (single "db")
            (bridgeConfig "web" none) ∧
          ListsOrphans ["db"] (singleOwner "db") (single "db") ↔
        Distinguished ["db"] (singleOwner "db") (single "db") "web") :=
  ⟨accounted_single "db", acceptedBridge_web,
    setup_spares_iff (accounted_single "db") acceptedBridge_web⟩

/-- Two names with the same 32 bits. -/
theorem vethHash_collision :
    vethHash "db-gb39iq" = vethHash "web" := by
  decide +kernel

/-- The configuration of the container with the other name. -/
def otherConfig : ContainerConfig :=
  { bridgeConfig "web" none with id := "db-gb39iq" }

private theorem acceptedBridge_otherConfig : AcceptedBridge otherConfig :=
  ⟨⟨plainHost, false, otherConfig, by decide +kernel⟩, rfl⟩

/-- Setting up `web` deletes the interface of the live `db-gb39iq`. -/
theorem live_interface_deleted :
    ¬ ∀ live owner n cfg, Accounted live owner n →
      (∀ id ∈ live, ∃ other, AcceptedBridge other ∧ other.id = id) →
      AcceptedBridge cfg → cfg.id ∉ live →
      n.Spares live owner cfg ∧ n.ListsOrphans live owner := by
  intro always
  have valid : ∀ id ∈ ["db-gb39iq"],
      ∃ other, AcceptedBridge other ∧ other.id = id := by
    intro id member
    exact ⟨otherConfig, acceptedBridge_otherConfig,
      (List.mem_singleton.mp member).symm⟩
  have spares := (always ["db-gb39iq"] (singleOwner "db-gb39iq")
    (single "db-gb39iq") (bridgeConfig "web" none) (accounted_single _) valid
    acceptedBridge_web (by decide)).1
  refine different_of_spares (accounted_single _)
    acceptedBridge_web spares _ (List.mem_singleton.mpr rfl)
    "db-gb39iq" (List.mem_singleton.mpr rfl) ?_ vethHash_collision
  simp [singleOwner]

end Interfaces

end Myrun
