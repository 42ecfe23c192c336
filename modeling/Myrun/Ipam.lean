import Myrun.Address
import Myrun.Config
import Myrun.JsonRoundTrip

namespace Myrun

/-!
# Address leases

The address manager of `src/runtime/ipam.rs`.  Leases live in one JSON file
under the runtime root; every call reads the whole file, decides, and writes it
back while it holds the `flock`, so a call is one step on the contents of that
file.

The host decides whether the lock, the read and the write succeed.  A write
goes through a temporary file and a rename, so one that fails leaves the old
contents, and it is the last fallible step of each call: a call that returns an
error leaves the file as it was.
-/

/-- `struct Lease`. -/
structure Lease where
  ip : Ipv4
  id : String
  deriving Repr, DecidableEq

/-- `struct Leases`, with its derived default. -/
structure Leases where
  subnet : String := ""
  entries : List Lease := []
  deriving Repr, DecidableEq

/-- Contents of `ipam.json`, if it exists. -/
abbrev LeaseFile := Option String

/-- What the host does to the file operations of one call. -/
structure IpamHost where
  guard : Result Unit := .ok ()
  read : Result Unit := .ok ()
  write : Result Unit := .ok ()

namespace Lease

/-- One item of the `leases` array. -/
def toJson (l : Lease) : Json :=
  .ofSets [("ip", .str (formatIpv4 l.ip)), ("id", .str l.id)]

/-- An item without a readable address and a name is skipped. -/
def fromJson (e : Json) : Option Lease := do
  let text ← e.strField "ip"
  let ip ← (parseIpv4 text).toOption
  let id ← e.strField "id"
  return { ip, id }

end Lease

namespace Leases

/-- `Leases::to_json`. -/
def toJson (l : Leases) : Json :=
  .ofSets
    [("subnet", .str l.subnet), ("leases", .arr (l.entries.map Lease.toJson))]

/-- `Leases::from_json`. -/
def fromJson (j : Json) : Leases where
  subnet := (j.strField "subnet").getD ""
  entries := ((j.arrayField "leases").getD []).filterMap Lease.fromJson

/-- `load`: a missing, blank or unreadable file is an empty table. -/
def load [F64Ops] (host : IpamHost) : LeaseFile → Result Leases
  | none => .ok {}
  | some text => do
      host.read
      if (trim text).isEmpty then return {}
      match parseJson text with
      | .ok j => return fromJson j
      | .error _ => return {}

/-- `store`. -/
def store [F64Ops] (host : IpamHost) (l : Leases) : Result LeaseFile := do
  host.write
  return some l.toJson.toStringPretty

/-- A different subnet means the old leases are meaningless. -/
def forSubnet (l : Leases) (subnet : String) : Leases :=
  if l.subnet ≠ subnet then { subnet, entries := [] } else l

/-- `leases.entries.retain(|l| l.id != id)`. -/
def without (l : Leases) (id : String) : Leases :=
  { l with entries := l.entries.filter (·.id ≠ id) }

/-- The addresses in use. -/
def taken (l : Leases) : List Ipv4 :=
  l.entries.map Lease.ip

/-- `leases.entries.push`. -/
def push (l : Leases) (lease : Lease) : Leases :=
  { l with entries := l.entries ++ [lease] }

end Leases

/-- `usable_range`: the lowest and the highest address to hand out. -/
def usableRange (subnet : String) : Result (UInt32 × UInt32) := do
  let (net, prefixLen) ← parseCidr subnet
  if 30 < prefixLen then
    .error (.config
      ("subnet " ++ subnet ++ " is too small to allocate addresses from"))
  else
    let base := net.toU32 &&& maskOf prefixLen
    let last := base ||| ~~~(maskOf prefixLen)
    return (base + 1, last - 1)

/-- The search of `allocate` over the next `count` candidates. -/
def firstFree (gateway : UInt32) (taken : List Ipv4) (candidate : UInt32) :
    Nat → Option Ipv4
  | 0 => none
  | count + 1 =>
      if candidate = gateway ∨ Ipv4.ofU32 candidate ∈ taken then
        firstFree gateway taken (candidate + 1) count
      else some (Ipv4.ofU32 candidate)

/-- The address `allocate` chooses when it grants a new lease. -/
def Leases.choose (l : Leases) (subnet : String) (requested : Option Ipv4)
    (gateway : Ipv4) : Result Ipv4 :=
  match requested with
  | some ip =>
      if ip ∈ l.taken then
        .error (.config ("address " ++ formatIpv4 ip ++
          " is already leased to another container"))
      else if ip.toU32 = gateway.toU32 then
        .error (.config ("address " ++ formatIpv4 ip ++
          " is the bridge gateway"))
      else .ok ip
  | none => do
      let (lo, hi) ← usableRange subnet
      match firstFree gateway.toU32 l.taken lo (hi.toNat + 1 - lo.toNat) with
      | some addr => return addr
      | none =>
          .error (.container ("no free addresses left in " ++ subnet ++ " (" ++
            toString l.taken.length ++ " in use)"))

namespace Leases

/-- The end of `allocate`: the chosen address and the table to store. -/
def grant (l : Leases) (subnet id : String) (requested : Option Ipv4)
    (gateway : Ipv4) : Result (Ipv4 × Option Leases) := do
  let chosen ← l.choose subnet requested gateway
  return (chosen, some (l.push { ip := chosen, id }))

/-- `allocate` on a table: the address, and the new table unless nothing
changes. -/
def assign (loaded : Leases) (subnet id : String) (requested : Option Ipv4)
    (gateway : Ipv4) : Result (Ipv4 × Option Leases) :=
  let leases := loaded.forSubnet subnet
  match leases.entries.find? (·.id = id) with
  | some existing =>
      -- restarting a container keeps its address
      if requested.all (· = existing.ip) then .ok (existing.ip, none)
      else (leases.without id).grant subnet id requested gateway
  | none => leases.grant subnet id requested gateway

/-- `leases.entries.retain(|l| live_ids.contains(&l.id))`. -/
def keeping (l : Leases) (liveIds : List String) : Leases :=
  { l with entries := l.entries.filter (·.id ∈ liveIds) }

/-- `store`, when there is a table to store. -/
def storeChange [F64Ops] (host : IpamHost) (file : LeaseFile) :
    Option Leases → Result LeaseFile
  | none => .ok file
  | some l => l.store host

end Leases

namespace Ipam

variable [F64Ops]

/-- `allocate`: the address and prefix length, and the file afterwards. -/
def allocate (host : IpamHost) (file : LeaseFile) (subnet id : String)
    (requested : Option Ipv4) (gateway : Ipv4) :
    Result ((Ipv4 × UInt8) × LeaseFile) := do
  host.guard
  let (_, prefixLen) ← parseCidr subnet
  let loaded ← Leases.load host file
  let (ip, change) ← loaded.assign subnet id requested gateway
  let file ← Leases.storeChange host file change
  return ((ip, prefixLen), file)

/-- `release`. -/
def release (host : IpamHost) (file : LeaseFile) (id : String) :
    Result LeaseFile := do
  host.guard
  let leases ← Leases.load host file
  if (leases.without id).entries.length ≠ leases.entries.length then
    (leases.without id).store host
  else return file

/-- `lease_of`. -/
def leaseOf (host : IpamHost) (file : LeaseFile) (id : String) :
    Result (Option Ipv4) := do
  host.guard
  let leases ← Leases.load host file
  return (leases.entries.find? (·.id = id)).map Lease.ip

/-- `gc`: the number of dropped leases, and the file afterwards. -/
def gc (host : IpamHost) (file : LeaseFile) (liveIds : List String) :
    Result (Nat × LeaseFile) := do
  host.guard
  let leases ← Leases.load host file
  let kept := leases.keeping liveIds
  let removed := leases.entries.length - kept.entries.length
  if 0 < removed then
    let file ← kept.store host
    return (removed, file)
  else return (removed, file)

end Ipam

/-! ## Reading back what was stored -/

private theorem mem_trimChars_of_head
    {first : Char}
    (stays : isWhitespace first = false)
    (rest : List Char) :
    first ∈ trimChars (first :: rest) := by
  have front :
      (first :: rest).dropWhile isWhitespace = first :: rest := by
    simp [stays]
  have back :
      first ∈ (first :: rest).reverse.dropWhile isWhitespace := by
    rw [List.reverse_cons, List.dropWhile_append]
    split
    · simp [stays]
    · simp
  rw [trimChars, front]
  simpa using back

@[simp] theorem Lease.fromJson_toJson (l : Lease) :
    Lease.fromJson l.toJson = some l := by
  simp [Lease.fromJson, Lease.toJson, Json.ofSets, Json.set, Json.setMember,
    Json.strField, Json.findMember, Except.toOption]

namespace Leases

private theorem toJson_eq (l : Leases) :
    l.toJson =
      .obj [("subnet", .str l.subnet),
        ("leases", .arr (l.entries.map Lease.toJson))] := by
  simp [toJson, Json.ofSets, Json.set, Json.setMember]

private theorem fromJson_toJson (l : Leases) :
    fromJson l.toJson = l := by
  have entries :
      (l.entries.map Lease.toJson).filterMap Lease.fromJson = l.entries := by
    rw [List.filterMap_map]
    have whole : Lease.fromJson ∘ Lease.toJson = some := by
      funext lease
      simp
    rw [whole, List.filterMap_some]
  rw [toJson_eq]
  simp [fromJson, Json.strField, Json.arrayField, Json.findMember, entries]

private theorem floatFree_toJson (l : Leases) :
    l.toJson.FloatFree := by
  have items : Json.ItemsFloatFree (l.entries.map Lease.toJson) := by
    induction l.entries with
    | nil =>
        simp [Json.ItemsFloatFree]
    | cons lease rest inductionHypothesis =>
        have free : lease.toJson.FloatFree := by
          simp [Lease.toJson, Json.ofSets, Json.set, Json.setMember,
            Json.FloatFree, Json.MembersFloatFree]
        simpa [Json.ItemsFloatFree] using ⟨free, inductionHypothesis⟩
  rw [toJson_eq]
  simpa [Json.FloatFree, Json.MembersFloatFree] using items

variable [F64Ops]

private theorem trim_toStringPretty_isEmpty (l : Leases) :
    (trim l.toJson.toStringPretty).isEmpty = false := by
  obtain ⟨rest, shape⟩ :
      ∃ rest, l.toJson.toStringPretty.toList = Char.ofNat 123 :: rest := by
    rw [toJson_eq]
    exact ⟨_, by
      simp only [Json.toStringPretty, Json.write, String.toList_ofList,
        List.cons_append]
      rfl⟩
  have stays : isWhitespace (Char.ofNat 123) = false := by
    decide
  have kept : Char.ofNat 123 ∈ trimChars (Char.ofNat 123 :: rest) :=
    mem_trimChars_of_head stays rest
  rw [trim, shape]
  simpa [String.isEmpty_iff, String.ofList_eq_empty_iff] using
    List.ne_nil_of_mem kept

/-- What `store` wrote is what `load` finds. -/
theorem load_toStringPretty
    (host : IpamHost)
    (l : Leases) :
    load host (some l.toJson.toStringPretty) = host.read >>= fun _ => .ok l := by
  have ⟨floats, same⟩ := l.floatFree_toJson.reread
  cases outcome : host.read with
  | error e =>
      simp [load, outcome]
  | ok _ =>
      simp [load, outcome, trim_toStringPretty_isEmpty,
        parseJson_toStringPretty floats, same, fromJson_toJson]

/-- The host decides whether the file is read, not what is read. -/
theorem load_unique
    {first second : IpamHost}
    {file : LeaseFile}
    {l m : Leases}
    (firstRead : load first file = .ok l)
    (secondRead : load second file = .ok m) :
    l = m := by
  cases file with
  | none =>
      simp only [load, Except.ok.injEq] at firstRead secondRead
      rw [← firstRead, ← secondRead]
  | some text =>
      obtain ⟨_, _, firstResult⟩ := Result.bind_eq_ok.mp firstRead
      obtain ⟨_, _, secondResult⟩ := Result.bind_eq_ok.mp secondRead
      rw [firstResult] at secondResult
      simpa using secondResult

/-- A stored table is read back as it is, if it is read at all. -/
theorem load_stored
    {host : IpamHost}
    {l loaded : Leases}
    (read : load host (some l.toJson.toStringPretty) = .ok loaded) :
    loaded = l := by
  rw [load_toStringPretty] at read
  cases outcome : host.read with
  | error e =>
      simp [outcome] at read
  | ok _ =>
      simpa [outcome] using read.symm

/-! ## What a successful call does -/

omit [F64Ops] in
private theorem firstFree_not_mem
    {gateway : UInt32}
    {taken : List Ipv4}
    {ip : Ipv4}
    {count : Nat} :
    ∀ {candidate : UInt32},
      firstFree gateway taken candidate count = some ip → ip ∉ taken := by
  induction count with
  | zero =>
      intro candidate found
      simp [firstFree] at found
  | succ count inductionHypothesis =>
      intro candidate found
      rw [firstFree] at found
      split at found
      · exact inductionHypothesis found
      · rename_i free
        obtain rfl : Ipv4.ofU32 candidate = ip := by
          simpa using found
        exact fun member => free (.inr member)

omit [F64Ops] in
/-- A newly chosen address is not in the table. -/
theorem choose_not_taken
    {l : Leases}
    {subnet : String}
    {requested : Option Ipv4}
    {gateway ip : Ipv4}
    (chosen : l.choose subnet requested gateway = .ok ip) :
    ip ∉ l.taken := by
  cases requested with
  | some wanted =>
      rw [choose] at chosen
      split at chosen
      · simp at chosen
      · rename_i free
        split at chosen
        · simp at chosen
        · obtain rfl : wanted = ip := by
            simpa using chosen
          exact free
  | none =>
      obtain ⟨⟨lo, hi⟩, usable, found⟩ := Result.bind_eq_ok.mp chosen
      simp only at found
      split at found
      · rename_i addr free
        obtain rfl : addr = ip := by
          simpa using found
        exact firstFree_not_mem free
      · simp at found

omit [F64Ops] in
theorem without_of_find?_eq_none
    {l : Leases}
    {id : String}
    (absent : l.entries.find? (·.id = id) = none) :
    l.without id = l := by
  have all : ∀ lease ∈ l.entries, lease.id ≠ id := by
    simpa using absent
  have kept : l.entries.filter (·.id ≠ id) = l.entries :=
    List.filter_eq_self.mpr (by simpa using all)
  rw [without, kept]

private theorem store_ok
    {host : IpamHost}
    {l : Leases}
    {file : LeaseFile}
    (stored : l.store host = .ok file) :
    file = some l.toJson.toStringPretty := by
  obtain ⟨_, _, written⟩ := Result.bind_eq_ok.mp stored
  simpa using written.symm

omit [F64Ops] in
/-- The two ways in which `allocate` hands out an address. -/
inductive Granted (leases : Leases) (id : String) (ip : Ipv4) :
    Option Leases → Prop where
  | reused
      (held : { ip, id } ∈ leases.entries) :
      Granted leases id ip none
  | fresh
      (free : ip ∉ (leases.without id).taken) :
      Granted leases id ip (some ((leases.without id).push { ip, id }))

omit [F64Ops] in
private theorem grant_ok
    {leases : Leases}
    {subnet id : String}
    {requested : Option Ipv4}
    {gateway ip : Ipv4}
    {change : Option Leases}
    (granted :
      (leases.without id).grant subnet id requested gateway =
        .ok (ip, change)) :
    leases.Granted id ip change := by
  obtain ⟨chosen, choice, answer⟩ := Result.bind_eq_ok.mp granted
  obtain ⟨rfl, rfl⟩ :
      chosen = ip ∧
        some ((leases.without id).push { ip := chosen, id }) = change := by
    simpa using answer
  exact .fresh (choose_not_taken choice)

omit [F64Ops] in
theorem assign_ok
    {loaded : Leases}
    {subnet id : String}
    {requested : Option Ipv4}
    {gateway ip : Ipv4}
    {change : Option Leases}
    (assigned :
      loaded.assign subnet id requested gateway = .ok (ip, change)) :
    (loaded.forSubnet subnet).Granted id ip change := by
  simp only [assign] at assigned
  split at assigned
  · rename_i existing found
    split at assigned
    · obtain ⟨rfl, rfl⟩ : existing.ip = ip ∧ none = change := by
        simpa using assigned
      have sameId : existing.id = id := by
        simpa using List.find?_some found
      subst sameId
      exact .reused (List.mem_of_find?_eq_some found)
    · exact grant_ok assigned
  · rename_i absent
    rw [← without_of_find?_eq_none absent] at assigned
    exact grant_ok assigned

end Leases

namespace Ipam

variable [F64Ops]

/-- A successful call stored what was assigned on the table that was read. -/
theorem allocate_assigned
    {host : IpamHost}
    {file after : LeaseFile}
    {subnet id : String}
    {requested : Option Ipv4}
    {gateway ip : Ipv4}
    {length : UInt8}
    (allocated :
      allocate host file subnet id requested gateway =
        .ok ((ip, length), after)) :
    ∃ loaded change, Leases.load host file = .ok loaded ∧
      loaded.assign subnet id requested gateway = .ok (ip, change) ∧
      after = (change.map (·.toJson.toStringPretty)).or file := by
  obtain ⟨_, _, afterGuard⟩ := Result.bind_eq_ok.mp allocated
  obtain ⟨⟨_, prefixLen⟩, _, afterCidr⟩ := Result.bind_eq_ok.mp afterGuard
  obtain ⟨loaded, read, afterLoad⟩ := Result.bind_eq_ok.mp afterCidr
  obtain ⟨⟨chosen, change⟩, assigned, afterAssign⟩ :=
    Result.bind_eq_ok.mp afterLoad
  obtain ⟨stored, written, answer⟩ := Result.bind_eq_ok.mp afterAssign
  obtain ⟨⟨rfl, rfl⟩, rfl⟩ :
      (chosen = ip ∧ prefixLen = length) ∧ stored = after := by
    simpa using answer
  refine ⟨loaded, change, read, assigned, ?_⟩
  cases change with
  | none =>
      simpa [Leases.storeChange] using written.symm
  | some l =>
      simpa using Leases.store_ok written

theorem allocate_ok
    {host : IpamHost}
    {file after : LeaseFile}
    {subnet id : String}
    {requested : Option Ipv4}
    {gateway ip : Ipv4}
    {length : UInt8}
    (allocated :
      allocate host file subnet id requested gateway =
        .ok ((ip, length), after)) :
    ∃ loaded change, Leases.load host file = .ok loaded ∧
      (loaded.forSubnet subnet).Granted id ip change ∧
      after = (change.map (·.toJson.toStringPretty)).or file := by
  obtain ⟨loaded, change, read, assigned, afterFile⟩ :=
    allocate_assigned allocated
  exact ⟨loaded, change, read, Leases.assign_ok assigned, afterFile⟩

/-- A container without a lease gets the address that is chosen. -/
theorem allocate_fresh
    {file : LeaseFile}
    {loaded : Leases}
    {subnet id : String}
    {requested : Option Ipv4}
    {gateway net ip : Ipv4}
    {length : UInt8}
    (read : Leases.load {} file = .ok loaded)
    (cidr : parseCidr subnet = .ok (net, length))
    (absent :
      (loaded.forSubnet subnet).entries.find? (·.id = id) = none)
    (chosen :
      (loaded.forSubnet subnet).choose subnet requested gateway = .ok ip) :
    allocate {} file subnet id requested gateway =
      .ok ((ip, length), some
        ((loaded.forSubnet subnet).push { ip, id }).toJson.toStringPretty) := by
  simp only [allocate, Result.ok_bind, cidr, read, Leases.assign, absent,
    Leases.grant, chosen, Leases.storeChange, Leases.store, Result.pure_eq_ok]

theorem release_ok
    {host : IpamHost}
    {file after : LeaseFile}
    {id : String}
    (released : release host file id = .ok after) :
    ∃ loaded, Leases.load host file = .ok loaded ∧
      (after = some (loaded.without id).toJson.toStringPretty ∨
        after = file ∧ loaded.without id = loaded) := by
  obtain ⟨_, _, afterGuard⟩ := Result.bind_eq_ok.mp released
  obtain ⟨loaded, read, decided⟩ := Result.bind_eq_ok.mp afterGuard
  refine ⟨loaded, read, ?_⟩
  split at decided
  · exact .inl (Leases.store_ok decided)
  · rename_i sameLength
    have unchanged : loaded.entries.filter (·.id ≠ id) = loaded.entries :=
      List.filter_sublist.eq_of_length (by simpa [Leases.without] using sameLength)
    refine .inr ⟨by simpa using decided.symm, ?_⟩
    rw [Leases.without, unchanged]

theorem gc_ok
    {host : IpamHost}
    {file after : LeaseFile}
    {liveIds : List String}
    {removed : Nat}
    (collected : gc host file liveIds = .ok (removed, after)) :
    ∃ loaded, Leases.load host file = .ok loaded ∧
      (after = file ∨
        after = some (loaded.keeping liveIds).toJson.toStringPretty) := by
  obtain ⟨_, _, afterGuard⟩ := Result.bind_eq_ok.mp collected
  obtain ⟨loaded, read, decided⟩ := Result.bind_eq_ok.mp afterGuard
  refine ⟨loaded, read, ?_⟩
  simp only at decided
  split at decided
  · obtain ⟨stored, written, answer⟩ := Result.bind_eq_ok.mp decided
    obtain ⟨-, rfl⟩ : _ ∧ stored = after := by
      simpa using answer
    exact .inr (Leases.store_ok written)
  · obtain ⟨-, rfl⟩ : _ ∧ file = after := by
      simpa using decided
    exact .inl rfl

end Ipam

end Myrun
