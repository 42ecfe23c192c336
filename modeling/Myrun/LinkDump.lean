import Myrun.Inheritance
import Myrun.NetlinkExchange

namespace Myrun

/-!
# The interfaces of a namespace

`list_links` and `link_stats` of `src/sys/netlink.rs`: one request for all
interfaces, answered in any number of messages and datagrams, each interface
with its attributes.
-/

open Channel (fromUtf8Lossy)

namespace Netlink

/-! ## The two functions -/

/-- `RTM_GETLINK`. -/
def rtmGetlink : UInt16 := 18

/-- `NLM_F_REQUEST | NLM_F_DUMP`. -/
def dumpFlags : UInt16 := 0x001 ||| 0x300

/-- `IFLA_STATS64`. -/
def iflaStats64 : UInt16 := 23

/-- `size_of::<IfInfoMsg>()`. -/
def ifInfoSize : Nat := 16

/-- The request for all interfaces. -/
def getLinks (order : ByteOrder) : MsgBuilder :=
  (MsgBuilder.new order rtmGetlink dumpFlags).payload ifInfoMsg.bytes

/-- One request. -/
abbrev askKernel (m : MsgBuilder) (dump : Bool) :
    Prog ReqOp ReqAns (Result (List (List UInt8))) :=
  Prog.perform (.request m dump)

/-- The text of an attribute, without its last byte. -/
def textOf (a : Attr) : String :=
  fromUtf8Lossy (a.data.take (a.data.length - 1))

/-- The loops of `list_links`; no result is a panic. -/
def linkNames (order : ByteOrder) : List (List UInt8) → Option (List String)
  | [] => some []
  | r :: rest =>
      if r.length < ifInfoSize then linkNames order rest
      else do
        let attrs ← parseAttrs order (r.drop ifInfoSize)
        let names ← linkNames order rest
        some ((attrs.filter fun a => a.ty = iflaIfname).map textOf ++ names)

/-- `list_links`. -/
def listLinks (order : ByteOrder) :
    Prog ReqOp ReqAns (Option (Result (List String))) := do
  match ← askKernel (getLinks order) true with
  | .error e => return some (.error e)
  | .ok replies => return (linkNames order replies).map .ok

/-- `LinkStats`. -/
structure LinkStats where
  name : String := ""
  rxPackets : UInt64 := 0
  txPackets : UInt64 := 0
  rxBytes : UInt64 := 0
  txBytes : UInt64 := 0
  rxErrors : UInt64 := 0
  txErrors : UInt64 := 0
  rxDropped : UInt64 := 0
  txDropped : UInt64 := 0
  deriving Repr, DecidableEq

/-- The counters of `LinkStats::from_bytes`; those that are missing are 0. -/
def counter (order : ByteOrder) (d : List UInt8) (i : Nat) : UInt64 :=
  let o := i * 8
  if d.length < o + 8 then 0
  else .ofNat (order.fromBytes ((d.drop o).take 8))

/-- `LinkStats::from_bytes`. -/
def LinkStats.fromBytes (order : ByteOrder) (name : String) (d : List UInt8) :
    LinkStats where
  name
  rxPackets := counter order d 0
  txPackets := counter order d 1
  rxBytes := counter order d 2
  txBytes := counter order d 3
  rxErrors := counter order d 4
  txErrors := counter order d 5
  rxDropped := counter order d 6
  txDropped := counter order d 7

/-- The loop of `link_stats`. -/
def statsAmong (order : ByteOrder) (name : String) :
    List (List UInt8) → Option (Result LinkStats)
  | [] => some (.error (.notFound ("interface " ++ debugStr name)))
  | r :: rest =>
      if r.length < ifInfoSize then statsAmong order name rest
      else do
        let attrs ← parseAttrs order (r.drop ifInfoSize)
        let thisName :=
          ((attrs.find? fun a => a.ty = iflaIfname).map textOf).getD ""
        if thisName ≠ name then statsAmong order name rest
        else
          match attrs.find? fun a => a.ty = iflaStats64 with
          | some s => some (.ok (.fromBytes order thisName s.data))
          | none => some (.ok { name := thisName })

/-- `link_stats`. -/
def linkStats (order : ByteOrder) (name : String) :
    Prog ReqOp ReqAns (Option (Result LinkStats)) := do
  match ← askKernel (getLinks order) true with
  | .error e => return some (.error e)
  | .ok replies => return statsAmong order name replies

/-! ## What the kernel says of an interface -/

/-- An interface: the fixed part of its entry, and its attributes, one of which
is its name. -/
structure LinkEntry (order : ByteOrder) where
  info : List UInt8
  attrs : List Attribute
  name : List UInt8
  isInfo : info.length = ifInfoSize
  sized : SizedAll order attrs
  named : (attrs.filter fun a => a.ty = iflaIfname) =
    [.leaf iflaIfname (name ++ [0])]

variable {order : ByteOrder}

/-- The entry of an interface in a dump. -/
def LinkEntry.bytes (link : LinkEntry order) : List UInt8 :=
  link.info ++ encodeAll order link.attrs

/-- The name of an interface as text. -/
def LinkEntry.text (link : LinkEntry order) : String :=
  fromUtf8Lossy link.name

/-- The counters of an interface, if it has any. -/
def LinkEntry.stats (link : LinkEntry order) : LinkStats :=
  match link.attrs.find? fun a => a.ty = iflaStats64 with
  | some a => .fromBytes order link.text (a.payload order)
  | none => { name := link.text }

/-- The counters of the first interface with a name. -/
def statsOf (name : String) (links : List (LinkEntry order)) :
    Result LinkStats :=
  match links.find? fun link => link.text = name with
  | some link => .ok link.stats
  | none => .error (.notFound ("interface " ++ debugStr name))

/-! ## What is found in an entry -/

/-- The parser finds the type and the data of each attribute of a level. -/
theorem parseLoop_levels
    (attrs : List Attribute) :
    SizedAll order attrs → ∀ offset fuel,
      (encodeAll order attrs).length < fuel → ∀ out,
        ∃ found,
          parseLoop order fuel (encodeAll order attrs) offset out =
            some (out ++ found) ∧
          found.map (fun a => (a.ty, a.data)) =
            attrs.map fun a => (a.ty, a.payload order) := by
  induction attrs with
  | nil =>
      intro _ offset fuel enough out
      refine ⟨[], ?_, rfl⟩
      rw [encodeAll, parseLoop_nil order (by omega), List.append_nil]
  | cons attr rest inductionHypothesis =>
      intro sized offset fuel enough out
      rw [SizedAll] at sized
      have positive : 0 < (encode order attr).length := by
        simp only [encode_eq, padded, List.length_append, length_record]
        omega
      rw [encodeAll, List.length_append] at enough
      obtain ⟨fuel, rfl⟩ := Nat.exists_eq_succ_of_ne_zero (by omega : fuel ≠ 0)
      obtain ⟨offset', step⟩ :=
        parseLoop_encode order sized.1 (encodeAll order rest)
          (by omega : 0 < fuel) offset out
      obtain ⟨others, parsed, same⟩ :=
        inductionHypothesis sized.2 offset' fuel (by omega)
          (out ++ [⟨attr.ty, offset + 4, attr.payload order⟩])
      refine ⟨⟨attr.ty, offset + 4, attr.payload order⟩ :: others, ?_, ?_⟩
      · rw [encodeAll, step, parsed, List.append_assoc]
        rfl
      · rw [List.map_cons, List.map_cons, same]

/-- Attributes of one type among those found. -/
theorem filter_found
    {attrs : List Attribute}
    {found : List Attr}
    (same : found.map (fun a => (a.ty, a.data)) =
      attrs.map fun a => (a.ty, a.payload order))
    (ty : UInt16) :
    (found.filter fun a => a.ty = ty).map (fun a => (a.ty, a.data)) =
      (attrs.filter fun a => a.ty = ty).map fun a => (a.ty, a.payload order) := by
  have filtered := congrArg (List.filter fun a : UInt16 × List UInt8 => a.1 = ty) same
  simpa only [List.filter_map, Function.comp_def] using filtered

private theorem find_found
    {attrs : List Attribute}
    {found : List Attr}
    (same : found.map (fun a => (a.ty, a.data)) =
      attrs.map fun a => (a.ty, a.payload order))
    (ty : UInt16) :
    (found.find? fun a => a.ty = ty).map Attr.data =
      (attrs.find? fun a => a.ty = ty).map fun a => a.payload order := by
  have heads := congrArg
    (fun l : List (UInt16 × List UInt8) => l.head?.map Prod.snd)
    (filter_found same ty)
  simpa only [List.head?_map, List.head?_filter, Option.map_map,
    Function.comp_def] using heads

/-- What both functions find in an entry. -/
theorem LinkEntry.parsed
    (link : LinkEntry order) :
    ∃ found, parseAttrs order (link.bytes.drop ifInfoSize) = some found ∧
      ifInfoSize ≤ link.bytes.length ∧
      (found.filter fun a => a.ty = iflaIfname).map textOf = [link.text] ∧
      (found.find? fun a => a.ty = iflaIfname).map textOf = some link.text ∧
      (found.find? fun a => a.ty = iflaStats64).map Attr.data =
        (link.attrs.find? fun a => a.ty = iflaStats64).map
          fun a => a.payload order := by
  obtain ⟨found, parsed, same⟩ := parseLoop_levels link.attrs link.sized 0
    ((encodeAll order link.attrs).length + 1) (Nat.lt_succ_self _) []
  have names := filter_found same iflaIfname
  rw [link.named] at names
  obtain ⟨f, rest, isFound, isName, isEmpty⟩ := List.map_eq_cons_iff.mp names
  rw [List.map_eq_nil_iff.mp isEmpty] at isFound
  have text : textOf f = link.text := by
    have data : f.data = link.name ++ [0] := (Prod.mk.inj isName).2
    simp [textOf, data, LinkEntry.text]
  refine ⟨found, ?_, ?_, ?_, ?_, find_found same iflaStats64⟩
  · rw [LinkEntry.bytes, List.drop_left' link.isInfo]
    exact parsed
  · rw [LinkEntry.bytes, List.length_append, link.isInfo]
    omega
  · rw [isFound, List.map_singleton, text]
  · rw [← List.head?_filter, isFound, List.head?_cons, Option.map_some, text]

/-- All names, in order. -/
theorem linkNames_entries
    (links : List (LinkEntry order)) :
    linkNames order (links.map LinkEntry.bytes) =
      some (links.map LinkEntry.text) := by
  induction links with
  | nil => rfl
  | cons link links inductionHypothesis =>
      obtain ⟨found, parsed, large, names, _⟩ := link.parsed
      rw [List.map_cons, linkNames, if_neg (by omega), parsed,
        inductionHypothesis]
      simp [names]

private theorem statsAmong_entries
    (name : String)
    (links : List (LinkEntry order)) :
    statsAmong order name (links.map LinkEntry.bytes) =
      some (statsOf name links) := by
  induction links with
  | nil => rfl
  | cons link links inductionHypothesis =>
      obtain ⟨found, parsed, large, _, named, stats⟩ := link.parsed
      rw [List.map_cons, statsAmong, if_neg (by omega), parsed]
      simp only [Option.bind_eq_bind, Option.bind_some, named, Option.getD_some]
      by_cases isNamed : link.text = name
      · rw [if_neg (not_not_intro isNamed), statsOf,
          List.find?_cons_of_pos (by simpa using isNamed)]
        simp only [LinkEntry.stats]
        cases has : link.attrs.find? fun a => a.ty = iflaStats64 with
        | none =>
            rw [has, Option.map_none, Option.map_eq_none_iff] at stats
            rw [stats]
        | some a =>
            rw [has, Option.map_some] at stats
            obtain ⟨f, isFound, data⟩ := Option.map_eq_some_iff.mp stats
            simp only [isFound, data]
      · rw [if_pos isNamed, inductionHypothesis, statsOf, statsOf,
          List.find?_cons_of_neg (by simpa using isNamed)]

/-! ## Over the socket -/

section Socket

open Prog

variable {K : Type} {handles : K → List UInt8 → Answer → K → Prop}
  {links : K → List (LinkEntry order)}

/-- The kernel answers the request with all interfaces, or refuses it. -/
def Lists (handles : K → List UInt8 → Answer → K → Prop)
    (links : K → List (LinkEntry order)) : Prop :=
  ∀ k answer k', handles k (asked (getLinks order).buf) answer k' →
    answer = .dump ((links k').map LinkEntry.bytes) ∨
      ∃ errno, answer = .refused errno

/-- What comes of the request for all interfaces. -/
theorem listed
    (lists : Lists handles links)
    {k k' : K}
    {told : Result (List (List UInt8))}
    (stepped : kernelStep handles k (.request (getLinks order) true) told k') :
    told = .ok ((links k').map LinkEntry.bytes) ∨
      ∃ call errno context, told = .error (.syscall call errno context) := by
  rcases stepped with ⟨answer, handled, rfl⟩ |
    ⟨⟨call, errno, context, rfl, _⟩, _⟩
  · rcases lists k answer k' handled with rfl | ⟨errno, rfl⟩
    · exact .inl rfl
    · exact .inr ⟨_, _, _, rfl⟩
  · exact .inr ⟨call, errno, context, rfl⟩

/-- A client of one request for all interfaces. -/
theorem execution_of_dump
    {α : Type}
    {client : Prog ReqOp ReqAns α}
    {next : Result (List (List UInt8)) → α}
    {seq : UInt32}
    {w w' : SockWorld K}
    {most rounds : Nat}
    {told : Option α}
    (isClient : client =
      .call (.request (getLinks order) true) fun answer => .ret (next answer))
    (lists : Lists handles links)
    (room : seq.toNat + 1 < 2 ^ 32)
    (enough : w.pending + most < rounds)
    (quiet : Quiet order seq w)
    (execution : Exec (sockStep order handles most)
      (overSocket order rounds seq client) w told w') :
    told = some (next (.ok ((links w'.kernel).map LinkEntry.bytes))) ∨
      ∃ call errno context,
        told = some (next (.error (.syscall call errno context))) := by
  subst isClient
  have within : (Prog.call (.request (getLinks order) true) fun answer =>
      .ret (next answer) : Prog ReqOp ReqAns α).AtMost 1 := fun _ => trivial
  obtain ⟨value, rfl, atomic⟩ := execution.of_requiring
    (wp_overSocket _ within room (by omega) quiet)
  cases atomic with
  | call first rest =>
      cases rest with
      | ret =>
          rcases listed lists first with rfl | ⟨call, errno, context, rfl⟩
          · exact .inl rfl
          · exact .inr ⟨call, errno, context, rfl⟩

/-- What `list_links` makes of the answer. -/
def namesTold (order : ByteOrder) :
    Result (List (List UInt8)) → Option (Result (List String))
  | .error e => some (.error e)
  | .ok replies => (linkNames order replies).map .ok

private theorem listLinks_eq :
    listLinks order =
      .call (.request (getLinks order) true) fun answer =>
        .ret (namesTold order answer) := by
  simp only [listLinks, askKernel, perform, bind_def, Prog.bind]
  congr 1
  funext answer
  cases answer with
  | error e => rfl
  | ok replies => rfl

/-- What `link_stats` makes of the answer. -/
def statsTold (order : ByteOrder) (name : String) :
    Result (List (List UInt8)) → Option (Result LinkStats)
  | .error e => some (.error e)
  | .ok replies => statsAmong order name replies

private theorem linkStats_eq
    (name : String) :
    linkStats order name =
      .call (.request (getLinks order) true) fun answer =>
        .ret (statsTold order name answer) := by
  simp only [linkStats, askKernel, perform, bind_def, Prog.bind]
  congr 1
  funext answer
  cases answer with
  | error e => rfl
  | ok replies => rfl

variable {seq : UInt32} {w w' : SockWorld K} {most rounds : Nat}

/--
`list_links` has every interface once, by its name and in the kernel's order,
as the kernel had them when it took the request; or it fails with a system
call's error.
-/
theorem list_links_is_exact
    {told : Option (Option (Result (List String)))}
    (lists : Lists handles links)
    (room : seq.toNat + 1 < 2 ^ 32)
    (enough : w.pending + most < rounds)
    (quiet : Quiet order seq w)
    (execution : Exec (sockStep order handles most)
      (overSocket order rounds seq (listLinks order)) w told w') :
    told = some (some (.ok ((links w'.kernel).map LinkEntry.text))) ∨
      ∃ call errno context,
        told = some (some (.error (.syscall call errno context))) := by
  rcases execution_of_dump listLinks_eq lists room enough quiet execution with
    rfl | failed
  · rw [namesTold, linkNames_entries]
    exact .inl rfl
  · exact .inr failed

/-- A socket with an interruption to come. -/
def freshSocket : SockWorld Unit := ⟨(), [], 1⟩

private theorem quiet_freshSocket : Quiet .little 1 freshSocket where
  fit _ never := by cases never
  earlier _ never := by cases never

/-- The loopback interface. -/
def lo : LinkEntry .little where
  info := List.replicate 16 0
  attrs := [.leaf iflaIfname ([0x6c, 0x6f] ++ [0]),
    .leaf iflaStats64 (List.replicate 8 1)]
  name := [0x6c, 0x6f]
  isInfo := rfl
  sized := by simp [SizedAll, Sized]
  named := rfl

/-- An interface without counters. -/
def tap : LinkEntry .little where
  info := List.replicate 16 0
  attrs := [.leaf iflaIfname ([0x74, 0x61, 0x70] ++ [0])]
  name := [0x74, 0x61, 0x70]
  isInfo := rfl
  sized := by simp [SizedAll, Sized]
  named := rfl

/-- A kernel with the two. -/
abbrev TwoLinks : Unit → List UInt8 → Answer → Unit → Prop :=
  Dumps ([lo, tap].map LinkEntry.bytes)

private theorem lists_twoLinks : Lists TwoLinks fun _ => [lo, tap] :=
  fun _ _ _ handled => .inl handled

theorem two_links_are_listed :
    ∃ told w', Exec (sockStep .little TwoLinks 3)
        (overSocket .little 6 1 (listLinks .little)) freshSocket told w' ∧
      told = some (some (.ok ["lo", "tap"])) ∧
      (told = some (some (.ok ([lo, tap].map LinkEntry.text))) ∨
        ∃ call errno context,
          told = some (some (.error (.syscall call errno context)))) := by
  have exchanged :
      (drive (usualAnswer .little)
        (usualMove .little ([lo, tap].map LinkEntry.bytes))
        (overSocket .little 6 1 (listLinks .little)) freshSocket).any
          (fun ended => ended.1 = some (some (.ok ["lo", "tap"]))) = true := by
    decide +kernel
  obtain ⟨told, w', execution, isTold⟩ := exec_of_exchange (by decide) exchanged
  exact ⟨told, w', execution, of_decide_eq_true isTold,
    list_links_is_exact lists_twoLinks (by decide) (by decide) quiet_freshSocket
      execution⟩

/--
`link_stats` has the counters of the first interface with the name, 0 where the
kernel gave none, and fails only with a system call's error or when there is no
such interface.
-/
theorem link_stats_is_exact
    {name : String}
    {told : Option (Option (Result LinkStats))}
    (lists : Lists handles links)
    (room : seq.toNat + 1 < 2 ^ 32)
    (enough : w.pending + most < rounds)
    (quiet : Quiet order seq w)
    (execution : Exec (sockStep order handles most)
      (overSocket order rounds seq (linkStats order name)) w told w') :
    told = some (some (statsOf name (links w'.kernel))) ∨
      ∃ call errno context,
        told = some (some (.error (.syscall call errno context))) := by
  rcases execution_of_dump (linkStats_eq name) lists room enough quiet
    execution with
    rfl | failed
  · rw [statsTold, statsAmong_entries]
    exact .inl rfl
  · exact .inr failed

/-- Without counters every one of them is 0. -/
theorem tap_has_no_counters :
    ∃ told w', Exec (sockStep .little TwoLinks 3)
        (overSocket .little 6 1 (linkStats .little "tap")) freshSocket told w' ∧
      told = some (some (.ok { name := "tap" })) ∧
      (told = some (some (statsOf "tap" [lo, tap])) ∨
        ∃ call errno context,
          told = some (some (.error (.syscall call errno context)))) := by
  have exchanged :
      (drive (usualAnswer .little)
        (usualMove .little ([lo, tap].map LinkEntry.bytes))
        (overSocket .little 6 1 (linkStats .little "tap")) freshSocket).any
          (fun ended => ended.1 = some (some (.ok { name := "tap" }))) = true := by
    decide +kernel
  obtain ⟨told, w', execution, isTold⟩ := exec_of_exchange (by decide) exchanged
  exact ⟨told, w', execution, of_decide_eq_true isTold,
    link_stats_is_exact lists_twoLinks (by decide) (by decide) quiet_freshSocket
      execution⟩

end Socket

end Netlink

end Myrun
