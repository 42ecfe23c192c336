import Mathlib.Data.List.Infix
import Myrun.Cgroup

namespace Myrun

/-!
# Packet filter rules

`src/runtime/nat.rs`: the shared chains and base rules, publishing a port, and
deleting the rules that carry a container's tag.  These are searched for in the
text that `iptables -S` prints, a line for each rule; a line that is kept is cut
into arguments, and `iptables -D` deletes the first rule that has them.
-/

/-- `str::contains`. -/
def containsText (text needle : String) : Bool :=
  decide (needle.toList <:+: text.toList)

/-- The loop of `split_rule`, with the argument read so far in reverse. -/
def splitRuleFrom (cur : List Char) (inQuotes : Bool) :
    List Char → List String
  | [] => if cur.isEmpty then [] else [String.ofList cur.reverse]
  | c :: cs =>
      if c = '"' then splitRuleFrom cur (!inQuotes) cs
      else if isWhitespace c && !inQuotes then
        if cur.isEmpty then splitRuleFrom [] inQuotes cs
        else String.ofList cur.reverse :: splitRuleFrom [] inQuotes cs
      else splitRuleFrom (c :: cur) inQuotes cs

/-- `split_rule`. -/
def splitRule (line : String) : List String :=
  splitRuleFrom [] false line.toList

namespace PacketFilter

/-- `CHAIN_PRE`. -/
def chainPre : String := "MYRUN-PRE"

/-- `CHAIN_POST`. -/
def chainPost : String := "MYRUN-POST"

/-- `CHAIN_FWD`. -/
def chainFwd : String := "MYRUN-FWD"

/-- `run`, for a command whose output is not used. -/
def run (command : Iptables) : HostAct Unit :=
  .of (askHost (.iptables command))

/-- `run_ok`. -/
def runOk (command : Iptables) : HostAct Bool := do
  let outcome ← (run command).attempt
  return outcome.toBool

/-- `available`. -/
def available : HostAct Bool :=
  runOk (.listTable .nat)

/-- `tag`. -/
def tag (id : String) : String :=
  "myrun:" ++ id

/-- The comment arguments of a rule. -/
def comment (id : String) : List String :=
  ["-m", "comment", "--comment", tag id]

/-- `append_unique`. -/
def appendUnique (rule : Rule) : HostAct Unit := do
  if ← runOk (.check rule) then return ()
  run (.append rule)

/-- `insert_unique`. -/
def insertUnique (rule : Rule) : HostAct Unit := do
  if ← runOk (.check rule) then return ()
  run (.insert rule)

/-- `append_unique` for each rule in turn. -/
def appendEach : List Rule → HostAct Unit
  | [] => return ()
  | rule :: rest => do
      appendUnique rule
      appendEach rest

/-- `insert_unique` for each rule in turn. -/
def insertEach : List Rule → HostAct Unit
  | [] => return ()
  | rule :: rest => do
      insertUnique rule
      insertEach rest

/-- Write `1` to a kernel setting unless it is already there. -/
def enableSetting (path what : String) : HostAct Unit := do
  match ← (readTrimmed path).attempt with
  | .ok "1" => return ()
  | _ =>
      (writeFile path "1").mapErr fun e =>
        .container ("enabling " ++ what ++ ": " ++ e.display)

/-- `enable_ip_forwarding`. -/
def enableIpForwarding : HostAct Unit :=
  enableSetting "/proc/sys/net/ipv4/ip_forward" "IPv4 forwarding"

/-- `enable_route_localnet`. -/
def enableRouteLocalnet : HostAct Unit :=
  enableSetting "/proc/sys/net/ipv4/conf/all/route_localnet" "route_localnet"

/-- The runtime's own chains. -/
def ownChains : List (Table × String) :=
  [(.nat, chainPre), (.nat, chainPost), (.filter, chainFwd)]

/-- Create each chain that does not exist. -/
def createChains : List (Table × String) → HostAct Unit
  | [] => return ()
  | (table, chain) :: rest => do
      if ← runOk (.listChain table chain) then
        createChains rest
      else
        run (.newChain table chain)
        createChains rest

/-- Jumps from the built-in chains. -/
def jumps : List Rule :=
  [{ table := .nat, chain := "PREROUTING", args := ["-j", chainPre] },
   { table := .nat, chain := "OUTPUT", args := ["-j", chainPre] },
   { table := .nat, chain := "POSTROUTING", args := ["-j", chainPost] },
   { table := .filter, chain := "FORWARD", args := ["-j", chainFwd] }]

/-- The guard that goes with `route_localnet`. -/
def guardRule : Rule where
  table := .filter
  chain := "INPUT"
  args :=
    ["!", "-i", "lo", "-d", "127.0.0.0/8", "-m", "conntrack", "--ctstate",
      "NEW", "-j", "DROP"] ++ comment "base"

/-- `ensure_chains`. -/
def ensureChains : HostAct Unit := do
  createChains ownChains
  insertEach (jumps ++ [guardRule])

/-- The masquerade rule of a bridge with NAT. -/
def masqueradeRule (bridge subnet : String) : Rule where
  table := .nat
  chain := chainPost
  args :=
    ["-s", subnet, "!", "-o", bridge, "-j", "MASQUERADE"] ++ comment "base"

/-- The other base rules of a bridge. -/
def bridgeRules (bridge : String) : List Rule :=
  [{ table := .nat, chain := chainPost,
     args := ["-s", "127.0.0.0/8", "-o", bridge, "-j", "MASQUERADE"] ++
       comment "base" },
   { table := .filter, chain := chainFwd,
     args := ["-i", bridge, "!", "-o", bridge, "-j", "ACCEPT"] ++
       comment "base" },
   { table := .filter, chain := chainFwd,
     args := ["-o", bridge, "-m", "conntrack", "--ctstate",
       "RELATED,ESTABLISHED", "-j", "ACCEPT"] ++ comment "base" },
   { table := .filter, chain := chainFwd,
     args := ["-i", bridge, "-o", bridge, "-j", "ACCEPT"] ++ comment "base" }]

/-- The rules `setup_bridge` appends, in order. -/
def baseRules (bridge subnet : String) (nat : Bool) : List Rule :=
  (if nat then [masqueradeRule bridge subnet] else []) ++ bridgeRules bridge

/-- `setup_bridge`. -/
def setupBridge (bridge subnet : String) (nat : Bool) : HostAct Unit := do
  enableIpForwarding
  -- not fatal: published ports still work via the host's real address
  let _ ← enableRouteLocalnet.attempt
  ensureChains
  appendEach (baseRules bridge subnet nat)
  Fault.check "after_nat_rules"

/-- `{}` of a port. -/
def portText (port : UInt16) : String :=
  toString port.toNat

/-- The rules `publish` appends, in order. -/
def publishRules (id bridge : String) (ip : Ipv4) (m : PortMapping) :
    List Rule :=
  [{ table := .nat, chain := chainPre,
     args := ["-p", m.protocol, "--dport", portText m.hostPort, "-j", "DNAT",
       "--to-destination", formatIpv4 ip ++ ":" ++ portText m.containerPort] ++
       comment id },
   { table := .nat, chain := chainPost,
     args := ["-s", formatIpv4 ip, "-d", formatIpv4 ip, "-p", m.protocol,
       "--dport", portText m.containerPort, "-j", "MASQUERADE"] ++
       comment id },
   { table := .filter, chain := chainFwd,
     args := ["-o", bridge, "-d", formatIpv4 ip, "-p", m.protocol, "--dport",
       portText m.containerPort, "-j", "ACCEPT"] ++ comment id }]

/-- `publish`. -/
def publish (id bridge : String) (ip : Ipv4) (m : PortMapping) : HostAct Unit := do
  ensureChains
  appendEach (publishRules id bridge ip m)

/-- `publish` for each mapping in turn. -/
def publishEach (id bridge : String) (ip : Ipv4) :
    List PortMapping → HostAct Unit
  | [] => return ()
  | m :: rest => do
      publish id bridge ip m
      publishEach id bridge ip rest

/-- The arguments of a line that `tagged_rules` keeps. -/
def taggedLine? (id line : String) : Option (List String) :=
  if startsWith "-A " line = false then none
  else if containsText line ("--comment " ++ tag id) = false ∧
      containsText line ("--comment \"" ++ tag id ++ "\"") = false then none
  else
    let args := splitRule (String.ofList (line.toList.drop 3))
    if args.isEmpty then none else some args

/-- What `tagged_rules` finds in the listing of a table. -/
def taggedInText (id : String) (table : Table) (text : String) :
    List (Table × List String) :=
  ((lines text).filterMap (taggedLine? id)).map fun args => (table, args)

/-- What `tagged_rules` finds in one table. -/
def taggedIn (id : String) (table : Table) :
    HostAct (List (Table × List String)) := do
  match ← (Fallible.of (askHost (.iptablesDump table)) : HostAct String).attempt with
  | .ok text => return taggedInText id table text
  | .error _ => return []

/-- `tagged_rules`. -/
def taggedRules (id : String) : HostAct (List (Table × List String)) := do
  let nat ← taggedIn id .nat
  let filter ← taggedIn id .filter
  return nat ++ filter

/-- `tagged_rules` for given listings of the two tables; `none` is a failed
listing. -/
def taggedArgs (id : String) (dump : Table → Option String) :
    List (Table × List String) :=
  [Table.nat, Table.filter].flatMap fun table =>
    match dump table with
    | none => []
    | some text => taggedInText id table text

/-- Delete each rule, ignoring failures; how many were deleted. -/
def deleteEach : List Rule → HostAct Nat
  | [] => return 0
  | rule :: rest => do
      let gone ← runOk (.delete rule)
      let others ← deleteEach rest
      return if gone then others + 1 else others

/-- `cleanup`. -/
def cleanup (id : String) : HostAct Nat := do
  let rules ← taggedRules id
  deleteEach (rules.map fun found => Rule.ofArgs found.1 found.2)

/-- Flush and delete each chain, ignoring failures. -/
def dropChains : List (Table × String) → HostAct Unit
  | [] => return ()
  | (table, chain) :: rest => do
      let _ ← runOk (.flush table chain)
      let _ ← runOk (.deleteChain table chain)
      dropChains rest

/-- `teardown_base`. -/
def teardownBase : HostAct Unit := do
  let _ ← cleanup "base"
  let _ ← deleteEach (guardRule :: jumps)
  dropChains ownChains

/-- `rule_count`. -/
def ruleCount (id : String) : HostAct Nat := do
  let rules ← taggedRules id
  return rules.length

end PacketFilter

end Myrun
