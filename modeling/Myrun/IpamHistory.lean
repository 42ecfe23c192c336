import Mathlib.Logic.Function.Basic
import Mathlib.Data.List.Nodup
import Myrun.ConfigRoundTrip
import Myrun.Ipam

namespace Myrun

/-!
# Address uniqueness over a history of calls

A history is any sequence of `allocate`, `release` and `gc` calls on one lease
file.  Beside the file it carries who holds which address: an address granted
by `allocate` is held until the container is released.

`allocate` takes a subnet for another one when its text differs from the stored
text, and then drops the whole table, also the leases of containers that still
run.  As long as no text changes while another container holds an address, no
two containers hold the same one; two spellings of one subnet are enough to
hand out an address twice.
-/

/-- One call on the lease file. -/
inductive IpamCall where
  | allocate (subnet id : String) (requested : Option Ipv4) (gateway : Ipv4)
  | release (id : String)
  | gc (liveIds : List String)

/-- The lease file together with who holds which address. -/
structure Tenancy where
  file : LeaseFile
  /-- the subnet text of the last address that was handed out -/
  subnet : String := ""
  held : String → Option Ipv4 := fun _ => none

namespace Tenancy

/-- One call; a call that fails changes nothing. -/
def step [F64Ops] (t : Tenancy) (host : IpamHost) : IpamCall → Tenancy
  | .allocate subnet id requested gateway =>
      match Ipam.allocate host t.file subnet id requested gateway with
      | .ok ((ip, _), file) =>
          { file, subnet, held := Function.update t.held id (some ip) }
      | .error _ => t
  | .release id =>
      match Ipam.release host t.file id with
      | .ok file => { t with file, held := Function.update t.held id none }
      | .error _ => t
  | .gc liveIds =>
      match Ipam.gc host t.file liveIds with
      | .ok (_, file) => { t with file }
      | .error _ => t

/-- `gc` is given every container that holds an address. -/
def Fed (t : Tenancy) : IpamCall → Prop
  | .gc liveIds => ∀ id ip, t.held id = some ip → id ∈ liveIds
  | _ => True

/-- A file from which no lease is read. -/
def EmptyFile [F64Ops] (file : LeaseFile) : Prop :=
  ∀ host leases, Leases.load host file = .ok leases → leases.entries = []

/-- An `allocate` that succeeds names the subnet by the same text as the one
before it, unless no other container holds an address. -/
def KeepsText [F64Ops] (t : Tenancy) (host : IpamHost) : IpamCall → Prop
  | .allocate subnet id requested gateway =>
      (Ipam.allocate host t.file subnet id requested gateway).isOk = true →
        t.subnet ≠ subnet → ∀ other, other ≠ id → t.held other = none
  | _ => True

/-- The states of all histories of allowed calls that start from an empty lease
file. -/
inductive Reached [F64Ops] (Allowed : Tenancy → IpamHost → IpamCall → Prop) :
    Tenancy → Prop where
  | start
      {file : LeaseFile}
      (empty : EmptyFile file) :
      Reached Allowed { file }
  | call
      {t : Tenancy}
      (earlier : Reached Allowed t)
      {host : IpamHost}
      {next : IpamCall}
      (fed : t.Fed next)
      (allowed : Allowed t host next) :
      Reached Allowed (t.step host next)

/-- The grants that the table still knows when `allocate` runs for `subnet`. -/
def standing (t : Tenancy) (subnet : String) : String → Option Ipv4 :=
  if t.subnet ≠ subnet then fun _ => none else t.held

/-! ## The table backs the grants -/

/-- The stored table records every standing grant, each address once. -/
structure Backed (subnet : String) (held : String → Option Ipv4)
    (leases : Leases) : Prop where
  covers : ∀ id ip, held id = some ip → { ip, id } ∈ leases.entries
  distinct : leases.taken.Nodup
  current : leases.entries ≠ [] → leases.subnet = subnet

/-- Whatever is read from the file backs the grants. -/
def Inv [F64Ops] (t : Tenancy) : Prop :=
  ∀ host leases,
    Leases.load host t.file = .ok leases → Backed t.subnet t.held leases

section Histories

variable [F64Ops]

private theorem inv_start
    {file : LeaseFile}
    (empty : EmptyFile file) :
    Inv { file } := by
  intro host leases read
  have none : leases.entries = [] := empty host leases read
  refine ⟨?_, ?_, ?_⟩
  · intro id ip held
    simp at held
  · simp [Leases.taken, none]
  · intro nonempty
    exact (nonempty none).elim

omit [F64Ops] in
/-- Dropping leases of containers that hold nothing. -/
theorem Backed.filter
    {subnet : String}
    {held : String → Option Ipv4}
    {leases : Leases}
    (backed : Backed subnet held leases)
    (keep : Lease → Bool)
    {remaining : String → Option Ipv4}
    (kept : ∀ id ip, remaining id = some ip →
      held id = some ip ∧ keep { ip, id } = true) :
    Backed subnet remaining
      { leases with entries := leases.entries.filter keep } := by
  refine ⟨?_, ?_, ?_⟩
  · intro id ip holds
    have ⟨heldBefore, stays⟩ := kept id ip holds
    exact List.mem_filter.mpr ⟨backed.covers id ip heldBefore, stays⟩
  · exact backed.distinct.sublist (List.filter_sublist.map Lease.ip)
  · intro nonempty
    apply backed.current
    intro none
    simp [none] at nonempty

omit [F64Ops] in
/-- The table after the subnet check backs what survives the call. -/
theorem Backed.forSubnet
    {t : Tenancy}
    {leases : Leases}
    (backed : Backed t.subnet t.held leases)
    (subnet : String) :
    Backed subnet (t.standing subnet) (leases.forSubnet subnet) := by
  by_cases same : leases.subnet = subnet
  · have unchanged : leases.forSubnet subnet = leases := by
      simp [Leases.forSubnet, same]
    rw [unchanged]
    refine ⟨?_, backed.distinct, fun _ => same⟩
    intro id ip holds
    apply backed.covers
    by_cases moved : t.subnet = subnet
    · simpa [standing, moved] using holds
    · simp [standing, moved] at holds
  · have replaced : leases.forSubnet subnet = { subnet, entries := [] } := by
      simp [Leases.forSubnet, same]
    rw [replaced]
    refine ⟨?_, by simp [Leases.taken], fun _ => rfl⟩
    intro id ip holds
    by_cases moved : t.subnet = subnet
    · -- nothing can be held: a lease would fix the stored subnet
      have member : { ip, id } ∈ leases.entries := by
        apply backed.covers
        simpa [standing, moved] using holds
      have current := backed.current (List.ne_nil_of_mem member)
      exact (same (current.trans moved)).elim
    · simp [standing, moved] at holds

omit [F64Ops] in
/-- Handing out again an address that is in the table. -/
theorem Backed.grant
    {subnet : String}
    {held : String → Option Ipv4}
    {leases : Leases}
    (backed : Backed subnet held leases)
    {id : String}
    {ip : Ipv4}
    (member : { ip, id } ∈ leases.entries) :
    Backed subnet (Function.update held id (some ip)) leases := by
  refine ⟨?_, backed.distinct, backed.current⟩
  intro other address holds
  by_cases same : other = id
  · subst same
    obtain rfl : ip = address := by
      simpa using holds
    exact member
  · apply backed.covers
    simpa [Function.update_of_ne same] using holds

omit [F64Ops] in
/-- Recording a lease with a free address. -/
theorem Backed.push
    {subnet : String}
    {held : String → Option Ipv4}
    {leases : Leases}
    (backed : Backed subnet held leases)
    {id : String}
    {ip : Ipv4}
    (current : leases.subnet = subnet)
    (free : ip ∉ (leases.without id).taken) :
    Backed subnet (Function.update held id (some ip))
      ((leases.without id).push { ip, id }) := by
  refine ⟨?_, ?_, fun _ => current⟩
  · intro other address holds
    by_cases same : other = id
    · subst same
      obtain rfl : ip = address := by
        simpa using holds
      simp [Leases.push]
    · have heldBefore : held other = some address := by
        simpa [Function.update_of_ne same] using holds
      have member := backed.covers other address heldBefore
      simp [Leases.push, Leases.without, member, same]
  · have rest : (leases.without id).taken.Nodup :=
      backed.distinct.sublist (List.filter_sublist.map Lease.ip)
    have appended :
        ((leases.without id).push { ip, id }).taken =
          (leases.without id).taken ++ [ip] := by
      simp [Leases.push, Leases.taken]
    rw [appended, List.nodup_append]
    refine ⟨rest, by simp, ?_⟩
    intro a member b single
    obtain rfl : b = ip := by
      simpa using single
    rintro rfl
    exact free member

/-- A state whose file was just stored. -/
theorem inv_of_stored
    {t : Tenancy}
    {leases : Leases}
    (stored : t.file = some leases.toJson.toStringPretty)
    (backed : Backed t.subnet t.held leases) :
    t.Inv := by
  intro host loaded read
  rw [stored] at read
  rw [Leases.load_stored read]
  exact backed

/-! ## One call -/

omit [F64Ops] in
/-- The caller's own earlier grant is replaced, so only the others count. -/
theorem update_standing
    {t : Tenancy}
    {subnet id : String}
    (others : t.subnet ≠ subnet → ∀ other, other ≠ id → t.held other = none)
    (grant : Option Ipv4) :
    Function.update (t.standing subnet) id grant =
      Function.update t.held id grant := by
  by_cases moved : t.subnet = subnet
  · simp [standing, moved]
  · funext other
    by_cases same : other = id
    · simp [same]
    · simp [Function.update_of_ne same, standing, moved, others moved other same]

private theorem inv_allocate
    {t : Tenancy}
    (inv : t.Inv)
    {host : IpamHost}
    {subnet id : String}
    {requested : Option Ipv4}
    {gateway ip : Ipv4}
    {length : UInt8}
    {file : LeaseFile}
    (allocated :
      Ipam.allocate host t.file subnet id requested gateway =
        .ok ((ip, length), file)) :
    Inv { file, subnet,
          held := Function.update (t.standing subnet) id (some ip) } := by
  obtain ⟨loaded, change, read, granted, rfl⟩ := Ipam.allocate_ok allocated
  have backed := (inv host loaded read).forSubnet subnet
  have current : (loaded.forSubnet subnet).subnet = subnet := by
    unfold Leases.forSubnet
    split <;> simp_all
  cases granted with
  | reused member =>
      -- the table has a lease, so it was not replaced and is still on file
      have kept : loaded.forSubnet subnet = loaded := by
        unfold Leases.forSubnet at member ⊢
        split at member <;> simp_all
      rw [kept] at backed member
      intro otherHost otherLoaded otherRead
      obtain rfl := Leases.load_unique read otherRead
      exact backed.grant member
  | fresh free =>
      exact inv_of_stored rfl (backed.push current free)

private theorem inv_release
    {t : Tenancy}
    (inv : t.Inv)
    {host : IpamHost}
    {id : String}
    {file : LeaseFile}
    (released : Ipam.release host t.file id = .ok file) :
    Inv { t with file, held := Function.update t.held id none } := by
  obtain ⟨loaded, read, outcome⟩ := Ipam.release_ok released
  have others : ∀ other ip, Function.update t.held id none other = some ip →
      t.held other = some ip ∧ decide (other ≠ id) = true := by
    intro other ip holds
    by_cases same : other = id
    · simp [same] at holds
    · simpa [Function.update_of_ne same, same] using holds
  have backed := (inv host loaded read).filter (·.id ≠ id) others
  rcases outcome with stored | ⟨unchanged, nothing⟩
  · exact inv_of_stored stored backed
  · subst unchanged
    intro otherHost otherLoaded otherRead
    obtain rfl := Leases.load_unique read otherRead
    rw [← nothing]
    exact backed

private theorem inv_gc
    {t : Tenancy}
    (inv : t.Inv)
    {host : IpamHost}
    {liveIds : List String}
    (fed : t.Fed (.gc liveIds))
    {removed : Nat}
    {file : LeaseFile}
    (collected : Ipam.gc host t.file liveIds = .ok (removed, file)) :
    Inv { t with file } := by
  obtain ⟨loaded, read, outcome⟩ := Ipam.gc_ok collected
  rcases outcome with rfl | stored
  · exact inv
  · have live : ∀ id ip, t.held id = some ip →
        t.held id = some ip ∧ decide (id ∈ liveIds) = true := by
      intro id ip holds
      exact ⟨holds, by simpa using fed id ip holds⟩
    have backed := (inv host loaded read).filter (·.id ∈ liveIds) live
    exact inv_of_stored stored backed

/-- Every call keeps the table behind the grants. -/
theorem inv_step
    {t : Tenancy}
    (inv : t.Inv)
    {host : IpamHost}
    {next : IpamCall}
    (fed : t.Fed next)
    (keepsText : t.KeepsText host next) :
    (t.step host next).Inv := by
  cases next with
  | allocate subnet id requested gateway =>
      simp only [step]
      split
      · rename_i ip length file allocated
        have others := keepsText (by rw [allocated]; rfl)
        rw [← update_standing others]
        exact inv_allocate inv allocated
      · exact inv
  | release id =>
      simp only [step]
      split
      · rename_i file released
        exact inv_release inv released
      · exact inv
  | gc liveIds =>
      simp only [step]
      split
      · rename_i removed file collected
        exact inv_gc inv fed collected
      · exact inv

private theorem Reached.inv
    {t : Tenancy}
    (reached : Reached KeepsText t) :
    t.Inv := by
  induction reached with
  | start empty =>
      exact inv_start empty
  | call earlier fed keepsText inductionHypothesis =>
      exact inv_step inductionHypothesis fed keepsText

omit [F64Ops] in
private theorem Backed.injective
    {subnet : String}
    {held : String → Option Ipv4}
    {leases : Leases}
    (backed : Backed subnet held leases)
    {first second : String}
    {ip : Ipv4}
    (firstHolds : held first = some ip)
    (secondHolds : held second = some ip) :
    first = second := by
  have sameLease : ({ ip, id := first } : Lease) = { ip, id := second } :=
    List.inj_on_of_nodup_map backed.distinct
      (backed.covers first ip firstHolds)
      (backed.covers second ip secondHolds) rfl
  simpa using sameLease

/-- A file that is read without a host error. -/
theorem exists_load (file : LeaseFile) :
    ∃ leases, Leases.load {} file = .ok leases := by
  cases file with
  | none =>
      exact ⟨{}, rfl⟩
  | some text =>
      simp only [Leases.load, Result.ok_bind]
      split
      · exact ⟨_, rfl⟩
      · split
        · exact ⟨_, rfl⟩
        · exact ⟨_, rfl⟩

/--
In every history in which no call changes the subnet text while another
container holds an address, two different containers that were both granted an
address, and not released since, hold different addresses.
-/
theorem granted_addresses_distinct
    {t : Tenancy}
    (reached : Reached KeepsText t)
    {first second : String}
    (different : first ≠ second)
    {a b : Ipv4}
    (firstHolds : t.held first = some a)
    (secondHolds : t.held second = some b) :
    a ≠ b := by
  rintro rfl
  obtain ⟨leases, read⟩ := exists_load t.file
  have backed := reached.inv {} leases read
  exact different (backed.injective firstHolds secondHolds)

theorem emptyFile_none :
    EmptyFile none := by
  intro host leases read
  obtain rfl : ({} : Leases) = leases := by
    simpa [Leases.load] using read
  rfl

/-- The table after a first lease in `10.87.0.0/24`. -/
def webTable : Leases where
  subnet := "10.87.0.0/24"
  entries := [{ ip := ⟨10, 87, 0, 2⟩, id := "web" }]

/-- The state after that first lease. -/
def webState : Tenancy where
  file := some webTable.toJson.toStringPretty
  subnet := "10.87.0.0/24"
  held := Function.update (fun _ => none) "web" (some ⟨10, 87, 0, 2⟩)

private theorem reached_webState
    {Allowed : Tenancy → IpamHost → IpamCall → Prop}
    (allowed : Allowed { file := none } {}
      (.allocate "10.87.0.0/24" "web" none ⟨10, 87, 0, 1⟩)) :
    Reached Allowed webState := by
  have cidr : parseCidr "10.87.0.0/24" = .ok (⟨10, 87, 0, 0⟩, 24) := by
    decide +kernel
  have chosen :
      (({} : Leases).forSubnet "10.87.0.0/24").choose "10.87.0.0/24" none
        ⟨10, 87, 0, 1⟩ = .ok ⟨10, 87, 0, 2⟩ := by
    decide +kernel
  have read : Leases.load {} none = .ok {} := rfl
  have absent :
      (({} : Leases).forSubnet "10.87.0.0/24").entries.find? (·.id = "web") =
        none :=
    rfl
  have granted := Ipam.allocate_fresh read cidr absent chosen
  have fed : ({ file := none } : Tenancy).Fed
      (.allocate "10.87.0.0/24" "web" none ⟨10, 87, 0, 1⟩) :=
    trivial
  have next : Reached Allowed _ := .call (.start emptyFile_none) fed allowed
  simp only [step, granted] at next
  exact next

/-- A second container asks for an address in `subnet`. -/
theorem reached_db
    {Allowed : Tenancy → IpamHost → IpamCall → Prop}
    (web : Reached Allowed webState)
    {subnet : String}
    {net ip : Ipv4}
    {length : UInt8}
    (allowed : Allowed webState {} (.allocate subnet "db" none ⟨10, 87, 0, 1⟩))
    (cidr : parseCidr subnet = .ok (net, length))
    (absent :
      (webTable.forSubnet subnet).entries.find? (·.id = "db") = none)
    (chosen :
      (webTable.forSubnet subnet).choose subnet none ⟨10, 87, 0, 1⟩ = .ok ip) :
    ∃ t, Reached Allowed t ∧
      t.held = Function.update webState.held "db" (some ip) := by
  have read : Leases.load {} webState.file = .ok webTable :=
    Leases.load_toStringPretty {} webTable
  have granted := Ipam.allocate_fresh read cidr absent chosen
  have fed : webState.Fed (.allocate subnet "db" none ⟨10, 87, 0, 1⟩) :=
    trivial
  refine ⟨_, .call web fed allowed, ?_⟩
  simp only [step, granted]

end Histories

theorem web_and_db_distinct :
    ∃ t, @Reached unitOps (@KeepsText unitOps) t ∧
      t.held "web" = some ⟨10, 87, 0, 2⟩ ∧
      t.held "db" = some ⟨10, 87, 0, 3⟩ ∧
      (⟨10, 87, 0, 2⟩ : Ipv4) ≠ ⟨10, 87, 0, 3⟩ := by
  let _ := unitOps
  have cidr : parseCidr "10.87.0.0/24" = .ok (⟨10, 87, 0, 0⟩, 24) := by
    decide +kernel
  have chosen :
      (webTable.forSubnet "10.87.0.0/24").choose "10.87.0.0/24" none
        ⟨10, 87, 0, 1⟩ = .ok ⟨10, 87, 0, 3⟩ := by
    decide +kernel
  have absent :
      (webTable.forSubnet "10.87.0.0/24").entries.find? (·.id = "db") =
        none := by
    decide +kernel
  have first : Reached KeepsText webState :=
    reached_webState fun _ _ _ _ => rfl
  have same : webState.KeepsText {}
      (.allocate "10.87.0.0/24" "db" none ⟨10, 87, 0, 1⟩) :=
    fun _ moved => absurd rfl moved
  obtain ⟨t, reached, held⟩ := reached_db first same cidr absent chosen
  have web : t.held "web" = some ⟨10, 87, 0, 2⟩ := by
    simp [held, webState]
  have db : t.held "db" = some ⟨10, 87, 0, 3⟩ := by
    simp [held]
  exact ⟨t, reached, web, db,
    granted_addresses_distinct reached (by decide) web db⟩

/--
Two spellings of one subnet: `db` asks for an address in `10.87.0.1/24` while
`web` holds its lease from `10.87.0.0/24`, and is given the address of `web`.
-/
theorem respelled_subnet_shares_address :
    (∃ net net', parseCidr "10.87.0.0/24" = .ok (net, 24) ∧
      parseCidr "10.87.0.1/24" = .ok (net', 24) ∧
      net.toU32 &&& maskOf 24 = net'.toU32 &&& maskOf 24) ∧
    ∃ t, @Reached unitOps (fun _ _ _ => True) t ∧
      t.held "web" = some ⟨10, 87, 0, 2⟩ ∧
      t.held "db" = some ⟨10, 87, 0, 2⟩ := by
  let _ := unitOps
  have cidr : parseCidr "10.87.0.1/24" = .ok (⟨10, 87, 0, 1⟩, 24) := by
    decide +kernel
  have chosen :
      (webTable.forSubnet "10.87.0.1/24").choose "10.87.0.1/24" none
        ⟨10, 87, 0, 1⟩ = .ok ⟨10, 87, 0, 2⟩ := by
    decide +kernel
  have absent :
      (webTable.forSubnet "10.87.0.1/24").entries.find? (·.id = "db") =
        none := by
    decide +kernel
  have first : Reached (fun _ _ _ => True) webState :=
    reached_webState trivial
  obtain ⟨t, reached, held⟩ := reached_db first trivial cidr absent chosen
  refine ⟨⟨⟨10, 87, 0, 0⟩, ⟨10, 87, 0, 1⟩, by decide +kernel, cidr,
    by decide +kernel⟩, t, reached, ?_, ?_⟩
  · simp [held, webState]
  · simp [held]

end Tenancy

end Myrun
