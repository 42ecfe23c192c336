import Myrun.Ipam

namespace Myrun

/-!
# What one allocation does to the lease file

The calls of the address manager over the disk they work on.  `store` goes
through `write_atomic` of `src/util/mod.rs`, which fills a temporary file and
renames it, so the disk is the lease file and what may be left of the temporary
one; the host decides how far such a write gets.
-/

/-- The lease file, and the temporary file of `write_atomic`. -/
structure LeaseDisk where
  file : LeaseFile
  temp : Option String := none

/-- How far `store` gets. -/
inductive AtomicWrite where
  | completed
  | directoryFailed (e : Error)
  | tempFailed (e : Error) (left : Option String)
  | renameFailed (e : Error) (tempRemoved : Bool)

namespace AtomicWrite

/-- `mkdir_p` of the runtime root, then `write_atomic`. -/
def run (disk : LeaseDisk) (data : String) :
    AtomicWrite → Result Unit × LeaseDisk
  | completed => (.ok (), { file := some data })
  | directoryFailed e => (.error e, disk)
  | tempFailed e left => (.error e, { disk with temp := left })
  | renameFailed e tempRemoved =>
      (.error e, { disk with temp := if tempRemoved then none else some data })

/-- What the caller of `store` sees. -/
def result : AtomicWrite → Result Unit
  | completed => .ok ()
  | directoryFailed e => .error e
  | tempFailed e _ => .error e
  | renameFailed e _ => .error e

end AtomicWrite

/-- What the host does to the file operations of one call. -/
structure DiskHost where
  guard : Result Unit := .ok ()
  read : Result Unit := .ok ()
  write : AtomicWrite := .completed

namespace DiskHost

/-- The host as a call on the file alone sees it. -/
def toIpamHost (host : DiskHost) : IpamHost where
  guard := host.guard
  read := host.read
  write := host.write.result

end DiskHost

namespace LeaseDisk

variable [F64Ops]

/-- `store`, when there is a table to store. -/
def storeChange (host : DiskHost) (disk : LeaseDisk) :
    Option Leases → Result Unit × LeaseDisk
  | none => (.ok (), disk)
  | some l => host.write.run disk l.toJson.toStringPretty

/-- The part of `allocate` that only reads. -/
def decision (host : DiskHost) (disk : LeaseDisk) (subnet id : String)
    (requested : Option Ipv4) (gateway : Ipv4) :
    Result ((Ipv4 × UInt8) × Option Leases) := do
  host.guard
  let (_, prefixLen) ← parseCidr subnet
  let loaded ← Leases.load host.toIpamHost disk.file
  let (ip, change) ← loaded.assign subnet id requested gateway
  return ((ip, prefixLen), change)

/-- `allocate`, with the disk afterwards. -/
def allocate (host : DiskHost) (disk : LeaseDisk) (subnet id : String)
    (requested : Option Ipv4) (gateway : Ipv4) :
    Result (Ipv4 × UInt8) × LeaseDisk :=
  match disk.decision host subnet id requested gateway with
  | .error e => (.error e, disk)
  | .ok (lease, change) =>
      let (stored, after) := disk.storeChange host change
      (stored.map fun _ => lease, after)

/-- `release`, with the disk afterwards. -/
def release (host : DiskHost) (disk : LeaseDisk) (id : String) :
    Result Unit × LeaseDisk :=
  let loaded := do
    host.guard
    Leases.load host.toIpamHost disk.file
  match loaded with
  | .error e => (.error e, disk)
  | .ok leases =>
      if (leases.without id).entries.length ≠ leases.entries.length then
        disk.storeChange host (some (leases.without id))
      else (.ok (), disk)

end LeaseDisk

/-! ## The calls on the file alone -/

/-- A write that fails leaves the lease file. -/
theorem AtomicWrite.run_file
    (disk : LeaseDisk)
    (data : String)
    (write : AtomicWrite) :
    (write.run disk data).1 = .ok () ∨
      (write.run disk data).2.file = disk.file := by
  cases write with
  | completed => exact .inl rfl
  | directoryFailed e => exact .inr rfl
  | tempFailed e left => exact .inr rfl
  | renameFailed e tempRemoved => exact .inr rfl

section Calls

variable [F64Ops]

private theorem Leases.storeChange_eq
    (host : DiskHost)
    (disk : LeaseDisk)
    (change : Option Leases) :
    Leases.storeChange host.toIpamHost disk.file change =
      (disk.storeChange host change).1.map fun _ =>
        (disk.storeChange host change).2.file := by
  cases change with
  | none => rfl
  | some l =>
      simp only [Leases.storeChange, Leases.store, LeaseDisk.storeChange,
        DiskHost.toIpamHost]
      cases host.write with
      | completed => rfl
      | directoryFailed e => rfl
      | tempFailed e left => rfl
      | renameFailed e tempRemoved => rfl

/-- On the disk, `allocate` does what it does on the file alone. -/
theorem Ipam.allocate_eq
    (host : DiskHost)
    (disk : LeaseDisk)
    (subnet id : String)
    (requested : Option Ipv4)
    (gateway : Ipv4) :
    Ipam.allocate host.toIpamHost disk.file subnet id requested gateway =
      (disk.allocate host subnet id requested gateway).1.map fun lease =>
        (lease, (disk.allocate host subnet id requested gateway).2.file) := by
  have inOrder :
      Ipam.allocate host.toIpamHost disk.file subnet id requested gateway =
        (disk.decision host subnet id requested gateway >>= fun decided =>
          Leases.storeChange host.toIpamHost disk.file decided.2 >>=
            fun file => .ok (decided.1, file)) := by
    simp only [Ipam.allocate, LeaseDisk.decision, bind_assoc,
      Result.pure_eq_ok, Result.ok_bind]
    rfl
  rw [inOrder, LeaseDisk.allocate]
  cases disk.decision host subnet id requested gateway with
  | error e => rfl
  | ok answer =>
      obtain ⟨lease, change⟩ := answer
      simp only [Result.ok_bind, Leases.storeChange_eq]
      cases (disk.storeChange host change).1 with
      | error e => rfl
      | ok _ => rfl

private theorem Ipam.release_eq
    (host : DiskHost)
    (disk : LeaseDisk)
    (id : String) :
    Ipam.release host.toIpamHost disk.file id =
      (disk.release host id).1.map fun _ => (disk.release host id).2.file := by
  have inOrder :
      Ipam.release host.toIpamHost disk.file id =
        ((host.guard >>= fun _ =>
            Leases.load host.toIpamHost disk.file) >>= fun leases =>
          if (leases.without id).entries.length ≠ leases.entries.length then
            Leases.storeChange host.toIpamHost disk.file
              (some (leases.without id))
          else .ok disk.file) := by
    simp only [Ipam.release, bind_assoc]
    rfl
  rw [inOrder, LeaseDisk.release]
  cases host.guard >>= fun _ => Leases.load host.toIpamHost disk.file with
  | error e => rfl
  | ok leases =>
      rw [Result.ok_bind]
      by_cases changed :
          (leases.without id).entries.length ≠ leases.entries.length
      · simp only [changed, ↓reduceIte, Leases.storeChange_eq, ne_eq,
          not_false_eq_true]
      · simp only [changed, ↓reduceIte]
        rfl

end Calls

/-! ## The search for a free address -/

section Search

variable {gateway : UInt32} {taken : List Ipv4} {ip : Ipv4} {count : Nat}

/-- The step of the search does not wrap around inside the range. -/
theorem toNat_succ_candidate
    {candidate : UInt32}
    (fits : candidate.toNat + (count + 1) ≤ 2 ^ 32)
    (more : 0 < count) :
    (candidate + 1).toNat = candidate.toNat + 1 := by
  have small : candidate.toNat + 1 < 2 ^ 32 := by
    omega
  rw [UInt32.toNat_add]
  exact Nat.mod_eq_of_lt small

/-- Every candidate before the one that is found was skipped. -/
theorem firstFree_some :
    ∀ {candidate : UInt32}, candidate.toNat + count ≤ 2 ^ 32 →
      firstFree gateway taken candidate count = some ip →
      candidate.toNat ≤ ip.toU32.toNat ∧
        ip.toU32.toNat < candidate.toNat + count ∧
        ip.toU32 ≠ gateway ∧ ip ∉ taken ∧
        ∀ word : UInt32, candidate.toNat ≤ word.toNat →
          word.toNat < ip.toU32.toNat →
          word = gateway ∨ Ipv4.ofU32 word ∈ taken := by
  induction count with
  | zero =>
      intro candidate fits found
      simp [firstFree] at found
  | succ count inductionHypothesis =>
      intro candidate fits found
      rw [firstFree] at found
      split at found
      · rename_i skipped
        have more : 0 < count := by
          cases count with
          | zero => simp [firstFree] at found
          | succ rest => exact Nat.succ_pos rest
        have next := toNat_succ_candidate fits more
        obtain ⟨lower, upper, notGateway, notTaken, before⟩ :=
          inductionHypothesis (by omega) found
        refine ⟨by omega, by omega, notGateway, notTaken, ?_⟩
        intro word atLeast below
        by_cases first : word = candidate
        · exact first ▸ skipped
        · have distinct : word.toNat ≠ candidate.toNat :=
            fun same => first (UInt32.toNat_inj.1 same)
          exact before word (by omega) below
      · rename_i free
        obtain rfl : Ipv4.ofU32 candidate = ip := by
          simpa using found
        rw [not_or] at free
        simp only [Ipv4.toU32_ofU32]
        exact ⟨Nat.le_refl _, by omega, free.1, free.2,
          fun word atLeast below => absurd below (Nat.not_lt.mpr atLeast)⟩

/-- A search that finds nothing skipped every candidate. -/
theorem firstFree_none :
    ∀ {candidate : UInt32}, candidate.toNat + count ≤ 2 ^ 32 →
      firstFree gateway taken candidate count = none →
      ∀ word : UInt32, candidate.toNat ≤ word.toNat →
        word.toNat < candidate.toNat + count →
        word = gateway ∨ Ipv4.ofU32 word ∈ taken := by
  induction count with
  | zero =>
      intro candidate fits nothing word atLeast below
      omega
  | succ count inductionHypothesis =>
      intro candidate fits nothing word atLeast below
      rw [firstFree] at nothing
      split at nothing
      · rename_i skipped
        by_cases first : word = candidate
        · exact first ▸ skipped
        · have distinct : word.toNat ≠ candidate.toNat :=
            fun same => first (UInt32.toNat_inj.1 same)
          have next := toNat_succ_candidate fits (by omega)
          exact inductionHypothesis (by omega) nothing word (by omega)
            (by omega)
      · simp at nothing

end Search

namespace Leases

/-- An address that may be chosen when none is asked for. -/
structure Free (l : Leases) (gateway : Ipv4) (range : UInt32 × UInt32)
    (ip : Ipv4) : Prop where
  lower : range.1 ≤ ip.toU32
  upper : ip.toU32 ≤ range.2
  notGateway : ip ≠ gateway
  notLeased : ip ∉ l.taken

/-- The numerically least such address. -/
structure LeastFree (l : Leases) (gateway : Ipv4) (range : UInt32 × UInt32)
    (ip : Ipv4) : Prop where
  free : l.Free gateway range ip
  least : ∀ other, l.Free gateway range other → ip.toU32 ≤ other.toU32

private theorem LeastFree.unique
    {l : Leases}
    {gateway first second : Ipv4}
    {range : UInt32 × UInt32}
    (one : l.LeastFree gateway range first)
    (other : l.LeastFree gateway range second) :
    first = second :=
  Ipv4.toU32_injective
    (UInt32.le_antisymm (one.least second other.free)
      (other.least first one.free))

/-- The search does not skip a free address. -/
theorem Free.not_skipped
    {l : Leases}
    {gateway ip : Ipv4}
    {range : UInt32 × UInt32}
    (free : l.Free gateway range ip) :
    ¬ (ip.toU32 = gateway.toU32 ∨ Ipv4.ofU32 ip.toU32 ∈ l.taken) := by
  rw [not_or, Ipv4.ofU32_toU32]
  exact ⟨fun same => free.notGateway (Ipv4.toU32_injective same),
    free.notLeased⟩

/-- Without a request, the least free address is chosen if there is one. -/
theorem choose_none_spec
    (l : Leases)
    {subnet : String}
    (gateway : Ipv4)
    {range : UInt32 × UInt32}
    (usable : usableRange subnet = .ok range) :
    (∃ ip, l.choose subnet none gateway = .ok ip ∧
        l.LeastFree gateway range ip) ∨
      (∃ e, l.choose subnet none gateway = .error e) ∧
        ∀ ip, ¬ l.Free gateway range ip := by
  obtain ⟨lo, hi⟩ := range
  have hiBound : hi.toNat < 2 ^ 32 := hi.toNat_lt
  have loBound : lo.toNat < 2 ^ 32 := lo.toNat_lt
  have fits : lo.toNat + (hi.toNat + 1 - lo.toNat) ≤ 2 ^ 32 := by
    omega
  simp only [choose, usable, Result.ok_bind]
  cases found :
      firstFree gateway.toU32 l.taken lo (hi.toNat + 1 - lo.toNat) with
  | some ip =>
      obtain ⟨lower, upper, notGateway, notTaken, before⟩ :=
        firstFree_some fits found
      have inside : ip.toU32.toNat ≤ hi.toNat := by
        omega
      refine .inl ⟨ip, rfl, ?_, ?_⟩
      · refine ⟨UInt32.le_iff_toNat_le.mpr lower,
          UInt32.le_iff_toNat_le.mpr inside, ?_, notTaken⟩
        rintro rfl
        exact notGateway rfl
      · intro other free
        by_contra earlier
        have below : other.toU32.toNat < ip.toU32.toNat := by
          simpa [UInt32.le_iff_toNat_le] using earlier
        exact free.not_skipped
          (before other.toU32 (UInt32.le_iff_toNat_le.mp free.lower) below)
  | none =>
      refine .inr ⟨⟨_, rfl⟩, ?_⟩
      intro ip free
      have lower := UInt32.le_iff_toNat_le.mp free.lower
      have upper := UInt32.le_iff_toNat_le.mp free.upper
      simp only at lower upper
      exact free.not_skipped
        (firstFree_none fits found ip.toU32 lower (by omega))

/-- A request is granted when the address is neither leased nor the gateway. -/
theorem choose_some_spec
    (l : Leases)
    (subnet : String)
    (gateway wanted : Ipv4) :
    l.choose subnet (some wanted) gateway = .ok wanted ∧
        wanted ∉ l.taken ∧ wanted ≠ gateway ∨
      (∃ e, l.choose subnet (some wanted) gateway = .error e) ∧
        (wanted ∈ l.taken ∨ wanted = gateway) := by
  simp only [choose]
  by_cases leased : wanted ∈ l.taken
  · refine .inr ⟨?_, .inl leased⟩
    simp [leased]
  · by_cases reserved : wanted.toU32 = gateway.toU32
    · refine .inr ⟨?_, .inr (Ipv4.toU32_injective reserved)⟩
      simp [leased, reserved]
    · refine .inl ⟨?_, leased, ?_⟩
      · rw [if_neg leased, if_neg reserved]
      · rintro rfl
        exact reserved rfl

/-! ## Assigning an address on a table -/

/-- At most one lease for each container and for each address. -/
structure Unique (l : Leases) : Prop where
  ids : (l.entries.map Lease.id).Nodup
  addresses : l.taken.Nodup

private theorem Unique.same_address
    {l : Leases}
    (unique : l.Unique)
    {id : String}
    {first second : Ipv4}
    (firstHeld : { ip := first, id } ∈ l.entries)
    (secondHeld : { ip := second, id } ∈ l.entries) :
    first = second := by
  have same : ({ ip := first, id } : Lease) = { ip := second, id } :=
    List.inj_on_of_nodup_map unique.ids firstHeld secondHeld rfl
  exact congrArg Lease.ip same

private theorem find?_of_held
    {l : Leases}
    (unique : l.Unique)
    {id : String}
    {ip : Ipv4}
    (held : { ip, id } ∈ l.entries) :
    l.entries.find? (·.id = id) = some { ip, id } := by
  cases found : l.entries.find? (·.id = id) with
  | none =>
      have absent := List.find?_eq_none.mp found { ip, id } held
      simp at absent
  | some lease =>
      obtain ⟨address, owner⟩ := lease
      obtain rfl : owner = id := by
        simpa using List.find?_some found
      have same := unique.same_address (List.mem_of_find?_eq_some found) held
      rw [same]

private theorem find?_of_not_held
    {l : Leases}
    {id : String}
    (absent : ∀ ip, { ip, id } ∉ l.entries) :
    l.entries.find? (·.id = id) = none := by
  apply List.find?_eq_none.mpr
  intro lease member
  obtain ⟨address, owner⟩ := lease
  simp only [decide_eq_true_eq]
  rintro rfl
  exact absent address member

@[simp] theorem forSubnet_self (l : Leases) :
    l.forSubnet l.subnet = l := by
  simp [forSubnet]

private theorem mem_taken_without
    {l : Leases}
    {id : String}
    {ip : Ipv4} :
    ip ∈ (l.without id).taken ↔
      ∃ other, other ≠ id ∧ { ip, id := other } ∈ l.entries := by
  simp only [taken, without, List.mem_map, List.mem_filter, decide_eq_true_eq]
  constructor
  · rintro ⟨⟨address, owner⟩, ⟨member, different⟩, rfl⟩
    exact ⟨owner, different, member⟩
  · rintro ⟨other, different, member⟩
    exact ⟨{ ip, id := other }, ⟨member, different⟩, rfl⟩

/-- A lease that is held answers a call without a request, or for it. -/
theorem assign_held
    {l : Leases}
    (unique : l.Unique)
    {id : String}
    {ip gateway : Ipv4}
    (held : { ip, id } ∈ l.entries)
    {requested : Option Ipv4}
    (same : requested.all (· = ip) = true) :
    l.assign l.subnet id requested gateway = .ok (ip, none) := by
  simp only [assign, forSubnet_self, find?_of_held unique held, same,
    ↓reduceIte]

/-- Otherwise the address is chosen among those of the other containers. -/
theorem assign_new
    {l : Leases}
    (unique : l.Unique)
    {id : String}
    {requested : Option Ipv4}
    (moves : ∀ ip, { ip, id } ∈ l.entries →
      requested.all (· = ip) = false)
    (gateway : Ipv4) :
    l.assign l.subnet id requested gateway =
      (l.without id).grant l.subnet id requested gateway := by
  simp only [assign, forSubnet_self]
  by_cases holds : ∃ ip, { ip, id } ∈ l.entries
  · obtain ⟨ip, held⟩ := holds
    simp only [find?_of_held unique held, moves ip held, Bool.false_eq_true,
      ↓reduceIte]
  · have absent : l.entries.find? (·.id = id) = none :=
      find?_of_not_held fun ip held => holds ⟨ip, held⟩
    simp only [absent, without_of_find?_eq_none absent]

/-- The lease of a container is the only entry under its id. -/
theorem filter_of_held
    {l : Leases}
    (unique : l.Unique)
    {id : String}
    {ip : Ipv4}
    (held : { ip, id } ∈ l.entries) :
    l.entries.filter (·.id = id) = [{ ip, id }] := by
  have ids : (l.entries.map Lease.id).Nodup := unique.ids
  clear unique
  generalize l.entries = entries at held ids ⊢
  induction entries with
  | nil =>
      simp at held
  | cons first rest inductionHypothesis =>
      obtain ⟨fresh, restIds⟩ := List.nodup_cons.mp ids
      by_cases owner : first.id = id
      · have others : rest.filter (·.id = id) = [] := by
          apply List.filter_eq_nil_iff.mpr
          intro lease member
          simp only [decide_eq_true_eq]
          intro same
          exact fresh (List.mem_map.mpr ⟨lease, member, same.trans owner.symm⟩)
        have isFirst : first = { ip, id } := by
          rcases List.mem_cons.mp held with same | inRest
          · exact same.symm
          · have listed : first.id ∈ rest.map Lease.id :=
              List.mem_map.mpr ⟨_, inRest, owner.symm⟩
            exact (fresh listed).elim
        rw [List.filter_cons_of_pos (by simpa using owner), others, isFirst]
      · have inRest : { ip, id } ∈ rest := by
          rcases List.mem_cons.mp held with same | inRest
          · exact (owner (congrArg Lease.id same.symm)).elim
          · exact inRest
        rw [List.filter_cons_of_neg (by simpa using owner)]
        exact inductionHypothesis inRest restIds

private theorem filter_push_without
    (l : Leases)
    (id : String)
    (ip : Ipv4) :
    (((l.without id).push { ip, id }).entries.filter (·.id = id)) =
      [{ ip, id }] := by
  simp [push, without, List.filter_append, List.filter_filter]

private theorem filter_others_push
    (l : Leases)
    (id : String)
    (ip : Ipv4) :
    (((l.without id).push { ip, id }).entries.filter (·.id ≠ id)) =
      l.entries.filter (·.id ≠ id) := by
  simp [push, without, List.filter_append, List.filter_filter]

end Leases

/-! ## One call on the disk -/

namespace LeaseDisk

variable [F64Ops]

/-- The table that is read from the disk. -/
def Holds (disk : LeaseDisk) (table : Leases) : Prop :=
  Leases.load {} disk.file = .ok table

private theorem Holds.of_stored
    {disk : LeaseDisk}
    {table : Leases}
    (stored : disk.file = some table.toJson.toStringPretty) :
    disk.Holds table := by
  rw [Holds, stored, Leases.load_toStringPretty]
  rfl

/-- Without host errors `allocate` answers what the table decides. -/
theorem allocate_answer
    {disk : LeaseDisk}
    {table : Leases}
    (holds : disk.Holds table)
    {net : Ipv4}
    {length : UInt8}
    (cidr : parseCidr table.subnet = .ok (net, length))
    (id : String)
    (requested : Option Ipv4)
    (gateway : Ipv4) :
    (disk.allocate {} table.subnet id requested gateway).1 =
      (table.assign table.subnet id requested gateway).map fun answer =>
        (answer.1, length) := by
  have read :
      Leases.load (DiskHost.toIpamHost {}) disk.file = .ok table :=
    holds
  simp only [allocate, decision, cidr, read, Result.ok_bind]
  cases table.assign table.subnet id requested gateway with
  | error e => rfl
  | ok answer =>
      obtain ⟨ip, change⟩ := answer
      cases change with
      | none => rfl
      | some l => rfl

/-- A refused call leaves the lease file. -/
theorem allocate_refused
    {host : DiskHost}
    {disk after : LeaseDisk}
    {subnet id : String}
    {requested : Option Ipv4}
    {gateway : Ipv4}
    {e : Error}
    (refused :
      disk.allocate host subnet id requested gateway = (.error e, after)) :
    after.file = disk.file := by
  simp only [allocate] at refused
  cases decided : disk.decision host subnet id requested gateway with
  | error early =>
      simp only [decided, Prod.mk.injEq] at refused
      rw [← refused.2]
  | ok answer =>
      obtain ⟨lease, change⟩ := answer
      simp only [decided, Prod.mk.injEq] at refused
      obtain ⟨failed, rfl⟩ := refused
      cases change with
      | none =>
          simp [storeChange, Except.map] at failed
      | some l =>
          rcases host.write.run_file disk l.toJson.toStringPretty with
            done | kept
          · simp [storeChange, done, Except.map] at failed
          · exact kept

/-- A granted call stores the lease beside those of the others. -/
theorem allocate_granted
    {host : DiskHost}
    {disk after : LeaseDisk}
    {table : Leases}
    (holds : disk.Holds table)
    (unique : table.Unique)
    {id : String}
    {requested : Option Ipv4}
    {gateway ip : Ipv4}
    {length : UInt8}
    (granted :
      disk.allocate host table.subnet id requested gateway =
        (.ok (ip, length), after)) :
    ∃ entries, after.Holds { table with entries } ∧
      entries.filter (·.id ≠ id) = table.entries.filter (·.id ≠ id) ∧
      entries.filter (·.id = id) = [{ ip, id }] := by
  have onFile :
      Ipam.allocate host.toIpamHost disk.file table.subnet id requested
          gateway =
        .ok ((ip, length), after.file) := by
    rw [Ipam.allocate_eq, granted]
    rfl
  obtain ⟨loaded, change, read, outcome, afterFile⟩ := Ipam.allocate_ok onFile
  obtain rfl : table = loaded := Leases.load_unique holds read
  rw [Leases.forSubnet_self] at outcome
  cases outcome with
  | reused held =>
      refine ⟨table.entries, ?_, rfl, Leases.filter_of_held unique held⟩
      have sameFile : after.file = disk.file := by
        simpa using afterFile
      rw [Holds, sameFile]
      exact holds
  | fresh free =>
      have stored : after.Holds ((table.without id).push { ip, id }) :=
        Holds.of_stored (by simpa using afterFile)
      exact ⟨((table.without id).push { ip, id }).entries, stored,
        table.filter_others_push id ip, table.filter_push_without id ip⟩

private theorem release_succeeds
    {disk : LeaseDisk}
    {table : Leases}
    (holds : disk.Holds table)
    (id : String) :
    (disk.release {} id).1 = .ok () := by
  have read :
      Leases.load (DiskHost.toIpamHost {}) disk.file = .ok table :=
    holds
  simp only [release, read, Result.ok_bind]
  split <;> rfl

/-- `release` removes the entries of the container and nothing else. -/
theorem release_removes
    {disk : LeaseDisk}
    {table : Leases}
    (holds : disk.Holds table)
    (id : String) :
    (disk.release {} id).1 = .ok () ∧
      (disk.release {} id).2.Holds (table.without id) := by
  have released := release_succeeds holds id
  have onFile :
      Ipam.release (DiskHost.toIpamHost {}) disk.file id =
        .ok (disk.release {} id).2.file := by
    rw [Ipam.release_eq, released]
    rfl
  obtain ⟨loaded, read, outcome⟩ := Ipam.release_ok onFile
  obtain rfl : table = loaded := Leases.load_unique holds read
  refine ⟨released, ?_⟩
  rcases outcome with stored | ⟨kept, nothing⟩
  · exact Holds.of_stored stored
  · rw [nothing, Holds, kept]
    exact holds

/-- What `allocate` answers without a request. -/
structure AnswersLeast (disk : LeaseDisk) (table : Leases) (length : UInt8)
    (id : String) (gateway : Ipv4) (range : UInt32 × UInt32) : Prop where
  held : ∀ ip, { ip, id } ∈ table.entries →
    (disk.allocate {} table.subnet id none gateway).1 = .ok (ip, length)
  new : (∀ ip, { ip, id } ∉ table.entries) → ∀ lease,
    (disk.allocate {} table.subnet id none gateway).1 = .ok lease ↔
      lease.2 = length ∧ table.LeastFree gateway range lease.1
  exhausted : (∀ ip, { ip, id } ∉ table.entries) →
    ((∃ e, (disk.allocate {} table.subnet id none gateway).1 = .error e) ↔
      ∀ ip, ¬ table.Free gateway range ip)

/-- What `allocate` answers for a requested address. -/
structure AnswersRequest (disk : LeaseDisk) (table : Leases) (length : UInt8)
    (id : String) (gateway wanted : Ipv4) : Prop where
  answer : ∀ lease,
    (disk.allocate {} table.subnet id (some wanted) gateway).1 = .ok lease →
      lease = (wanted, length)
  granted :
    (∃ lease,
      (disk.allocate {} table.subnet id (some wanted) gateway).1 =
        .ok lease) ↔
      ((∀ other, other ≠ id → { ip := wanted, id := other } ∉ table.entries) ∧
          wanted ≠ gateway) ∨
        { ip := wanted, id } ∈ table.entries

/-- What a call, and a release after it, do to the leases on the disk. -/
structure Framed (disk : LeaseDisk) (table : Leases) (id : String)
    (gateway : Ipv4) (host : DiskHost) (requested : Option Ipv4) : Prop where
  success : ∀ lease after,
    disk.allocate host table.subnet id requested gateway =
        (.ok lease, after) →
      ∃ entries, after.Holds { table with entries } ∧
        entries.filter (·.id ≠ id) = table.entries.filter (·.id ≠ id) ∧
        entries.filter (·.id = id) = [{ ip := lease.1, id }] ∧
        (after.release {} id).1 = .ok () ∧
        (after.release {} id).2.Holds
          { table with entries := entries.filter (·.id ≠ id) }
  failure : ∀ e after,
    disk.allocate host table.subnet id requested gateway =
        (.error e, after) →
      after.file = disk.file

/-- A container without a fitting lease gets the address that is chosen. -/
theorem allocate_chosen
    {disk : LeaseDisk}
    {table : Leases}
    (holds : disk.Holds table)
    (unique : table.Unique)
    {net : Ipv4}
    {length : UInt8}
    (cidr : parseCidr table.subnet = .ok (net, length))
    {id : String}
    {requested : Option Ipv4}
    (moves : ∀ ip, { ip, id } ∈ table.entries →
      requested.all (· = ip) = false)
    (gateway : Ipv4) :
    (disk.allocate {} table.subnet id requested gateway).1 =
      ((table.without id).choose table.subnet requested gateway).map
        fun ip => (ip, length) := by
  rw [allocate_answer holds cidr, Leases.assign_new unique moves,
    Leases.grant]
  cases (table.without id).choose table.subnet requested gateway with
  | error e => rfl
  | ok ip => rfl

private theorem answersLeast
    {disk : LeaseDisk}
    {table : Leases}
    (holds : disk.Holds table)
    (unique : table.Unique)
    {net : Ipv4}
    {length : UInt8}
    (cidr : parseCidr table.subnet = .ok (net, length))
    (id : String)
    (gateway : Ipv4)
    {range : UInt32 × UInt32}
    (usable : usableRange table.subnet = .ok range) :
    disk.AnswersLeast table length id gateway range := by
  have chosen :
      (∀ ip, { ip, id } ∉ table.entries) →
        (disk.allocate {} table.subnet id none gateway).1 =
          (table.choose table.subnet none gateway).map
            fun ip => (ip, length) := by
    intro absent
    rw [allocate_chosen holds unique cidr
        (fun ip held => (absent ip held).elim),
      Leases.without_of_find?_eq_none (Leases.find?_of_not_held absent)]
  refine ⟨?_, ?_, ?_⟩
  · intro ip held
    rw [allocate_answer holds cidr, Leases.assign_held unique held rfl]
    rfl
  · intro absent lease
    rw [chosen absent]
    rcases table.choose_none_spec gateway usable with
      ⟨ip, choice, least⟩ | ⟨⟨e, choice⟩, nothing⟩
    · rw [choice]
      constructor
      · intro same
        obtain rfl : (ip, length) = lease := by
          simpa [Except.map] using same
        exact ⟨rfl, least⟩
      · rintro ⟨rfl, otherLeast⟩
        rw [least.unique otherLeast]
        rfl
    · rw [choice]
      constructor
      · intro same
        simp [Except.map] at same
      · rintro ⟨rfl, otherLeast⟩
        exact (nothing lease.1 otherLeast.free).elim
  · intro absent
    rw [chosen absent]
    rcases table.choose_none_spec gateway usable with
      ⟨ip, choice, least⟩ | ⟨⟨e, choice⟩, nothing⟩
    · rw [choice]
      constructor
      · rintro ⟨e, failed⟩
        simp [Except.map] at failed
      · intro nothing
        exact (nothing ip least.free).elim
    · rw [choice]
      exact ⟨fun _ => nothing, fun _ => ⟨e, rfl⟩⟩

private theorem answersRequest
    {disk : LeaseDisk}
    {table : Leases}
    (holds : disk.Holds table)
    (unique : table.Unique)
    {net : Ipv4}
    {length : UInt8}
    (cidr : parseCidr table.subnet = .ok (net, length))
    (id : String)
    (gateway wanted : Ipv4) :
    disk.AnswersRequest table length id gateway wanted := by
  by_cases held : { ip := wanted, id } ∈ table.entries
  · have answer :
        (disk.allocate {} table.subnet id (some wanted) gateway).1 =
          .ok (wanted, length) := by
      rw [allocate_answer holds cidr,
        Leases.assign_held unique held (by simp)]
      rfl
    refine ⟨?_, fun _ => .inr held, fun _ => ⟨_, answer⟩⟩
    intro lease same
    rw [answer] at same
    simpa using same.symm
  · have moves : ∀ ip, { ip, id } ∈ table.entries →
        (some wanted).all (· = ip) = false := by
      intro ip other
      have different : wanted ≠ ip := by
        rintro rfl
        exact held other
      simpa using different
    have answer := allocate_chosen holds unique cidr moves gateway
    have free :
        wanted ∉ (table.without id).taken ↔
          ∀ other, other ≠ id →
            { ip := wanted, id := other } ∉ table.entries := by
      rw [Leases.mem_taken_without]
      push Not
      rfl
    rcases (table.without id).choose_some_spec table.subnet gateway wanted with
      ⟨choice, notTaken, notGateway⟩ | ⟨⟨e, choice⟩, occupied⟩
    · rw [choice] at answer
      refine ⟨?_, ?_⟩
      · intro lease same
        rw [answer] at same
        simpa [Except.map] using same.symm
      · exact ⟨fun _ => .inl ⟨free.mp notTaken, notGateway⟩,
          fun _ => ⟨_, answer⟩⟩
    · rw [choice] at answer
      refine ⟨?_, ?_⟩
      · intro lease same
        simp [answer, Except.map] at same
      · constructor
        · rintro ⟨lease, same⟩
          simp [answer, Except.map] at same
        · rintro (⟨unleased, notGateway⟩ | mine)
          · rcases occupied with taken | reserved
            · exact (free.mpr unleased taken).elim
            · exact (notGateway reserved).elim
          · exact (held mine).elim

private theorem framed
    {disk : LeaseDisk}
    {table : Leases}
    (holds : disk.Holds table)
    (unique : table.Unique)
    (id : String)
    (gateway : Ipv4)
    (host : DiskHost)
    (requested : Option Ipv4) :
    disk.Framed table id gateway host requested := by
  refine ⟨?_, fun e after refused => allocate_refused refused⟩
  intro lease after granted
  obtain ⟨entries, stored, others, own⟩ :=
    allocate_granted holds unique granted
  have ⟨answered, removed⟩ := release_removes stored id
  exact ⟨entries, stored, others, own, answered, removed⟩

end LeaseDisk

/-- The range of a subnet that is wide enough. -/
theorem usableRange_eq
    {subnet : String}
    {net : Ipv4}
    {length : UInt8}
    (cidr : parseCidr subnet = .ok (net, length))
    (wide : length ≤ 30) :
    usableRange subnet =
      .ok ((net.toU32 &&& maskOf length) + 1,
        ((net.toU32 &&& maskOf length) ||| ~~~(maskOf length)) - 1) := by
  have fits : ¬ 30 < length := UInt8.not_lt.mpr wide
  simp only [usableRange, cidr, Result.ok_bind, if_neg fits]
  rfl

/--
`allocate` is exact and framed, for every table stored for the subnet in which
no container and no address occurs twice.  Without a request it returns the
container's lease or else the least free address of the range, and it fails
only when there is none; a requested address is granted unless another
container has it or it is the gateway.  Whatever the host does to the files, a
success changes nothing but the container's own entry, which `release` then
removes, and a failure changes nothing.
-/
theorem LeaseDisk.allocate_exact
    [F64Ops]
    {disk : LeaseDisk}
    {table : Leases}
    (stored : disk.Holds table)
    (unique : table.Unique)
    {net : Ipv4}
    {length : UInt8}
    (cidr : parseCidr table.subnet = .ok (net, length))
    (wide : length ≤ 30)
    (id : String)
    (gateway : Ipv4) :
    ∃ range, usableRange table.subnet = .ok range ∧
      disk.AnswersLeast table length id gateway range ∧
      (∀ wanted, disk.AnswersRequest table length id gateway wanted) ∧
      ∀ host requested, disk.Framed table id gateway host requested := by
  have usable := usableRange_eq cidr wide
  exact ⟨_, usable, answersLeast stored unique cidr id gateway usable,
    answersRequest stored unique cidr id gateway,
    framed stored unique id gateway⟩

/-- A table with one lease in a subnet that has two usable addresses. -/
def pairTable : Leases where
  subnet := "10.0.0.0/30"
  entries := [{ ip := ⟨10, 0, 0, 2⟩, id := "web" }]

theorem pairTable_allocate_exact :
    let _ := unitOps
    let disk : LeaseDisk := { file := some pairTable.toJson.toStringPretty }
    ∃ range, usableRange "10.0.0.0/30" = .ok range ∧
      disk.AnswersLeast pairTable 30 "db" ⟨10, 0, 0, 1⟩ range ∧
      (∀ wanted,
        disk.AnswersRequest pairTable 30 "db" ⟨10, 0, 0, 1⟩ wanted) ∧
      ∀ host requested,
        disk.Framed pairTable "db" ⟨10, 0, 0, 1⟩ host requested := by
  let _ := unitOps
  have cidr : parseCidr pairTable.subnet = .ok (⟨10, 0, 0, 0⟩, 30) := by
    decide +kernel
  have unique : pairTable.Unique :=
    ⟨by decide +kernel, by decide +kernel⟩
  exact LeaseDisk.allocate_exact (LeaseDisk.Holds.of_stored rfl) unique cidr
    (by decide) "db" ⟨10, 0, 0, 1⟩

end Myrun
