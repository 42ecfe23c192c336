import Myrun.ConfigRoundTrip
import Myrun.State

namespace Myrun

/-!
# `state.json` and `netstate.json`

The two records that a container leaves in its directory: the state file, which
every command reads and writes, and the part of the network state that init
reads inside the namespaces.  The two files have decoders of their own, with
their own defaults.
-/

namespace Json

/-- `j.get(key).and_then(|v| v.as_i64())`. -/
def i64Field (j : Json) (key : String) : Option Int64 :=
  (j.get key).bind asI64

/-- `Json::Int(v as i64)` of a 32-bit number. -/
def ofI32 (v : Int32) : Json :=
  int v.toInt64

end Json

namespace NetworkState

/-- `NetworkState::to_json`. -/
def toJson (n : NetworkState) : Json :=
  Json.ofSets
    [("mode", .str n.mode), ("bridge", Json.ofOption Json.str n.bridge),
      ("host_veth", Json.ofOption Json.str n.hostVeth),
      ("container_veth", Json.ofOption Json.str n.containerVeth),
      ("ip", Json.ofOption Json.str n.ip),
      ("prefix", .int (Int64.ofNat n.prefixLen.toNat)),
      ("gateway", Json.ofOption Json.str n.gateway),
      ("published", .arr (n.published.map PortMapping.toJson))]

/-- One entry of `published`; nothing is checked here. -/
def publishedFromJson (p : Json) : PortMapping where
  hostPort := ((p.u64Field "host_port").getD 0).toUInt16
  containerPort := ((p.u64Field "container_port").getD 0).toUInt16
  protocol := (p.strField "protocol").getD "tcp"

/-- `NetworkState::from_json`. -/
def fromJson (j : Json) : NetworkState where
  mode := (j.strField "mode").getD "none"
  bridge := j.strField "bridge"
  hostVeth := j.strField "host_veth"
  containerVeth := j.strField "container_veth"
  ip := j.strField "ip"
  prefixLen := ((j.u64Field "prefix").getD 24).toUInt8
  gateway := j.strField "gateway"
  published := ((j.arrayField "published").getD []).map publishedFromJson

/-- The document of `write_netstate`. -/
def netstateJson (n : NetworkState) : Json :=
  Json.ofSets
    [("mode", .str n.mode), ("ip", Json.ofOption Json.str n.ip),
      ("gateway", Json.ofOption Json.str n.gateway),
      ("container_veth", Json.ofOption Json.str n.containerVeth),
      ("prefix", .int (Int64.ofNat n.prefixLen.toNat))]

/-- What `read_network_state` takes from a document. -/
def ofNetstate (j : Json) : NetworkState where
  mode := (j.strField "mode").getD "none"
  containerVeth := j.strField "container_veth"
  ip := j.strField "ip"
  gateway := j.strField "gateway"
  prefixLen := ((j.u64Field "prefix").getD 24).toUInt8

/-- `read_network_state`: an unreadable file gives the defaults. -/
def readNetworkState [F64Ops] (file : Option String) : NetworkState :=
  match file.bind fun text => (parseJson text).toOption with
  | some j => ofNetstate j
  | none => {}

end NetworkState

namespace ContainerState

/-- `ContainerState::to_json`. -/
def toJson (st : ContainerState) : Json :=
  Json.ofSets
    [("id", .str st.id), ("name", Json.ofOption Json.str st.name),
      ("status", .str st.status.asStr), ("init_pid", Json.ofI32 st.initPid),
      ("init_start_time", Json.ofU64 st.initStartTime),
      ("shim_pid", Json.ofI32 st.shimPid),
      ("created_at", Json.ofU64 st.createdAt),
      ("started_at", Json.ofU64 st.startedAt),
      ("finished_at", Json.ofU64 st.finishedAt),
      ("exit_code", Json.ofOption Json.ofI32 st.exitCode),
      ("exit_signal", Json.ofOption Json.ofI32 st.exitSignal),
      ("oom_killed", .bool st.oomKilled),
      ("error", Json.ofOption Json.str st.error),
      ("cgroup_path", Json.ofOption Json.str st.cgroupPath),
      ("network", st.network.toJson), ("config", st.config.toJson)]

/-- `ok_or_else` with a parse error. -/
def requirePart {α : Type} (message : String) : Option α → Result α
  | some value => .ok value
  | none => .error (.parse message)

/-- `ContainerState::from_json`. -/
def fromJson [F64Ops] (j : Json) : Result ContainerState := do
  let cfgJson ← requirePart "state file has no config section" (j.get "config")
  let config ← ContainerConfig.fromJson cfgJson
  let id ← requirePart "state file has no id" (j.strField "id")
  let status ← Status.parse ((j.strField "status").getD "stopped")
  return {
    id
    name := j.strField "name"
    status
    initPid := ((j.i64Field "init_pid").getD 0).toInt32
    initStartTime := (j.u64Field "init_start_time").getD 0
    shimPid := ((j.i64Field "shim_pid").getD 0).toInt32
    createdAt := (j.u64Field "created_at").getD 0
    startedAt := (j.u64Field "started_at").getD 0
    finishedAt := (j.u64Field "finished_at").getD 0
    exitCode := (j.i64Field "exit_code").map Int64.toInt32
    exitSignal := (j.i64Field "exit_signal").map Int64.toInt32
    oomKilled := (j.boolField "oom_killed").getD false
    error := j.strField "error"
    cgroupPath := j.strField "cgroup_path"
    network := ((j.get "network").map NetworkState.fromJson).getD {}
    config }

/-- `json::parse` of the text of a state file, then `from_json`. -/
def ofText [F64Ops] (text : String) : Result ContainerState := do
  let j ← parseJson text
  fromJson j

end ContainerState

/-! ## What any printed document is read as -/

namespace Json

mutual

/-- The document with `null` for every number that has no text. -/
def printable : Json → Json
  | null => null
  | bool b => bool b
  | int i => int i
  | float f => if f.isFinite then float f else null
  | str s => str s
  | arr items => arr (printableItems items)
  | obj members => obj (printableMembers members)

/-- `printable` on the items of an array. -/
def printableItems : List Json → List Json
  | [] => []
  | item :: rest => item.printable :: printableItems rest

/-- `printable` on the members of an object. -/
def printableMembers : List (String × Json) → List (String × Json)
  | [] => []
  | (key, value) :: rest => (key, value.printable) :: printableMembers rest

end

mutual

/-- A number without text is printed as `null`. -/
theorem write_printable [F64Ops]
    (indent : Option Nat) :
    ∀ (depth : Nat) (v : Json),
      v.printable.write indent depth = v.write indent depth
  | _, .null => rfl
  | _, .bool _ => rfl
  | _, .int _ => rfl
  | depth, .float f => by
      by_cases finite : f.isFinite = true
      · simp [printable, finite]
      · simp [printable, finite, write]
  | _, .str _ => rfl
  | _, .arr [] => rfl
  | depth, .arr (first :: rest) => by
      simp only [printable, printableItems, write,
        write_printable indent (depth + 1) first,
        writeItems_printable indent depth rest]
  | _, .obj [] => rfl
  | depth, .obj ((key, value) :: rest) => by
      simp only [printable, printableMembers, write,
        write_printable indent (depth + 1) value,
        writeMembers_printable indent depth rest]

private theorem writeItems_printable [F64Ops]
    (indent : Option Nat) :
    ∀ (depth : Nat) (items : List Json),
      writeItems indent depth (printableItems items) =
        writeItems indent depth items
  | _, [] => rfl
  | depth, item :: rest => by
      simp only [printableItems, writeItems,
        write_printable indent (depth + 1) item,
        writeItems_printable indent depth rest]

private theorem writeMembers_printable [F64Ops]
    (indent : Option Nat) :
    ∀ (depth : Nat) (members : List (String × Json)),
      writeMembers indent depth (printableMembers members) =
        writeMembers indent depth members
  | _, [] => rfl
  | depth, (key, value) :: rest => by
      simp only [printableMembers, writeMembers,
        write_printable indent (depth + 1) value,
        writeMembers_printable indent depth rest]

end

mutual

private theorem printable_readable [F64Ops]
    (numerals : ∀ f, f.isFinite = true → Readable f) :
    ∀ v : Json, v.printable.FloatsReadable
  | .null => trivial
  | .bool _ => trivial
  | .int _ => trivial
  | .float f => by
      by_cases finite : f.isFinite = true
      · simpa [printable, finite, FloatsReadable] using numerals f finite
      · simp [printable, finite, FloatsReadable]
  | .str _ => trivial
  | .arr items => by
      simpa [printable, FloatsReadable] using
        printableItems_readable numerals items
  | .obj members => by
      simpa [printable, FloatsReadable] using
        printableMembers_readable numerals members

private theorem printableItems_readable [F64Ops]
    (numerals : ∀ f, f.isFinite = true → Readable f) :
    ∀ items : List Json, ItemsReadable (printableItems items)
  | [] => trivial
  | item :: rest =>
      ⟨printable_readable numerals item, printableItems_readable numerals rest⟩

private theorem printableMembers_readable [F64Ops]
    (numerals : ∀ f, f.isFinite = true → Readable f) :
    ∀ members : List (String × Json),
      MembersReadable (printableMembers members)
  | [] => trivial
  | (_, value) :: rest =>
      ⟨printable_readable numerals value,
        printableMembers_readable numerals rest⟩

end

/-- What the parser returns for the text of a document. -/
def asRead [F64Ops] (v : Json) : Json :=
  v.printable.reread

mutual

theorem FloatFree.printable :
    ∀ {v : Json}, v.FloatFree → v.printable = v
  | .null, _ => rfl
  | .bool _, _ => rfl
  | .int _, _ => rfl
  | .float _, free => by simp [FloatFree] at free
  | .str _, _ => rfl
  | .arr items, free => by
      have itemsFree : ItemsFloatFree items := by
        simpa [FloatFree] using free
      simp only [Json.printable, printableItems_of_floatFree itemsFree]
  | .obj members, free => by
      have membersFree : MembersFloatFree members := by
        simpa [FloatFree] using free
      simp only [Json.printable, printableMembers_of_floatFree membersFree]

private theorem printableItems_of_floatFree :
    ∀ {items : List Json}, ItemsFloatFree items →
      printableItems items = items
  | [], _ => rfl
  | item :: rest, free => by
      have ⟨itemFree, restFree⟩ : item.FloatFree ∧ ItemsFloatFree rest := by
        simpa [ItemsFloatFree] using free
      simp only [printableItems, itemFree.printable,
        printableItems_of_floatFree restFree]

private theorem printableMembers_of_floatFree :
    ∀ {members : List (String × Json)}, MembersFloatFree members →
      printableMembers members = members
  | [], _ => rfl
  | (_, value) :: rest, free => by
      have ⟨valueFree, restFree⟩ :
          value.FloatFree ∧ MembersFloatFree rest := by
        simpa [MembersFloatFree] using free
      simp only [printableMembers, valueFree.printable,
        printableMembers_of_floatFree restFree]

end

private theorem FloatFree.asRead [F64Ops]
    {v : Json}
    (free : v.FloatFree) :
    v.asRead = v := by
  rw [Json.asRead, free.printable]
  exact free.reread.2

end Json

/-- Printing and parsing any document. -/
theorem parseJson_printed [F64Ops]
    (numerals : ∀ f, f.isFinite = true → Json.Readable f)
    (v : Json) :
    parseJson v.toStringPretty = .ok v.asRead := by
  have sameText : v.printable.toStringPretty = v.toStringPretty := by
    simp only [Json.toStringPretty, Json.write_printable]
  rw [← sameText]
  exact parseJson_toStringPretty (Json.printable_readable numerals v)

/-! ## Reading the records back -/

private theorem asI64_ofI32 (v : Int32) :
    (Json.ofI32 v).asI64 = some v.toInt64 := rfl

theorem asI64_ofOption (v : Option Int32) :
    ((Json.ofOption Json.ofI32 v).asI64).map Int64.toInt32 = v := by
  cases v with
  | none => rfl
  | some n => simp [Json.ofOption, asI64_ofI32]

private theorem asU64_ofU64_small
    {v : UInt64}
    (small : v.toNat < 2 ^ 63) :
    (Json.ofU64 v).asU64 = some v := by
  rw [asU64_ofU64, if_pos small]

theorem Status.parse_asStr_status (status : Status) :
    parse status.asStr = .ok status := by
  cases status <;> decide

namespace NetworkState

private theorem publishedFromJson_toJson (p : PortMapping) :
    publishedFromJson p.toJson = p := by
  have hostBound := p.hostPort.toNat_lt
  have containerBound := p.containerPort.toNat_lt
  have host := asU64_int_ofNat (n := p.hostPort.toNat) (by omega)
  have container := asU64_int_ofNat (n := p.containerPort.toNat) (by omega)
  rw [PortMapping.toJson_eq]
  simp [publishedFromJson, Json.u64Field, Json.strField, Json.findMember, host,
    container]

private theorem toJson_eq (n : NetworkState) :
    n.toJson =
      .obj [("mode", .str n.mode), ("bridge", Json.ofOption Json.str n.bridge),
        ("host_veth", Json.ofOption Json.str n.hostVeth),
        ("container_veth", Json.ofOption Json.str n.containerVeth),
        ("ip", Json.ofOption Json.str n.ip),
        ("prefix", .int (Int64.ofNat n.prefixLen.toNat)),
        ("gateway", Json.ofOption Json.str n.gateway),
        ("published", .arr (n.published.map PortMapping.toJson))] :=
  Json.ofSets_of_nodup (by simp)

private theorem toJson_floatFree (n : NetworkState) : n.toJson.FloatFree := by
  have text := NetworkConfig.ofOption_str_floatFree
  rw [toJson_eq]
  exact ⟨trivial, text _, text _, text _, text _, trivial, text _,
    NetworkConfig.publish_floatFree _, trivial⟩

private theorem fromJson_toJson (n : NetworkState) : fromJson n.toJson = n := by
  have lengthBound := n.prefixLen.toNat_lt
  have length := asU64_int_ofNat (n := n.prefixLen.toNat) (by omega)
  have published :
      (n.published.map PortMapping.toJson).map publishedFromJson =
        n.published := by
    rw [List.map_map]
    have whole : publishedFromJson ∘ PortMapping.toJson = id := by
      funext p
      exact publishedFromJson_toJson p
    rw [whole, List.map_id]
  rw [toJson_eq]
  simp only [fromJson, Json.strField, Json.u64Field, Json.arrayField,
    Json.get_obj, Json.findMember, String.reduceEq, ↓reduceIte,
    Option.bind_some, Json.asStr_str, Json.asArray_arr, Option.getD_some,
    asStr_ofOption, length, published]
  simp

private theorem netstateJson_eq (n : NetworkState) :
    n.netstateJson =
      .obj [("mode", .str n.mode), ("ip", Json.ofOption Json.str n.ip),
        ("gateway", Json.ofOption Json.str n.gateway),
        ("container_veth", Json.ofOption Json.str n.containerVeth),
        ("prefix", .int (Int64.ofNat n.prefixLen.toNat))] :=
  Json.ofSets_of_nodup (by simp)

private theorem netstateJson_floatFree (n : NetworkState) :
    n.netstateJson.FloatFree := by
  have text := NetworkConfig.ofOption_str_floatFree
  rw [netstateJson_eq]
  exact ⟨trivial, text _, text _, text _, trivial, trivial⟩

/-- init sees the part of the network state that it needs. -/
theorem readNetworkState_netstateJson [F64Ops] (n : NetworkState) :
    readNetworkState (some n.netstateJson.toStringPretty) =
      { mode := n.mode, containerVeth := n.containerVeth, ip := n.ip,
        gateway := n.gateway, prefixLen := n.prefixLen } := by
  have ⟨readable, same⟩ := n.netstateJson_floatFree.reread
  have parsed : parseJson n.netstateJson.toStringPretty = .ok n.netstateJson := by
    rw [parseJson_toStringPretty readable, same]
  have lengthBound := n.prefixLen.toNat_lt
  have length := asU64_int_ofNat (n := n.prefixLen.toNat) (by omega)
  simp only [readNetworkState, Option.bind_some, parsed, Except.toOption]
  rw [netstateJson_eq]
  simp [ofNetstate, Json.strField, Json.u64Field, Json.findMember,
    asStr_ofOption, length]

end NetworkState

namespace ContainerState

private theorem toJson_eq (st : ContainerState) :
    st.toJson =
      .obj [("id", .str st.id), ("name", Json.ofOption Json.str st.name),
        ("status", .str st.status.asStr),
        ("init_pid", Json.ofI32 st.initPid),
        ("init_start_time", Json.ofU64 st.initStartTime),
        ("shim_pid", Json.ofI32 st.shimPid),
        ("created_at", Json.ofU64 st.createdAt),
        ("started_at", Json.ofU64 st.startedAt),
        ("finished_at", Json.ofU64 st.finishedAt),
        ("exit_code", Json.ofOption Json.ofI32 st.exitCode),
        ("exit_signal", Json.ofOption Json.ofI32 st.exitSignal),
        ("oom_killed", .bool st.oomKilled),
        ("error", Json.ofOption Json.str st.error),
        ("cgroup_path", Json.ofOption Json.str st.cgroupPath),
        ("network", st.network.toJson), ("config", st.config.toJson)] :=
  Json.ofSets_of_nodup (by simp)

private theorem ofOption_ofI32_floatFree (v : Option Int32) :
    (Json.ofOption Json.ofI32 v).FloatFree := by
  cases v <;> trivial

/-- The parser returns every member but the configuration as it was. -/
theorem asRead_toJson [F64Ops] (st : ContainerState) :
    st.toJson.asRead =
      .obj [("id", .str st.id), ("name", Json.ofOption Json.str st.name),
        ("status", .str st.status.asStr),
        ("init_pid", Json.ofI32 st.initPid),
        ("init_start_time", Json.ofU64 st.initStartTime),
        ("shim_pid", Json.ofI32 st.shimPid),
        ("created_at", Json.ofU64 st.createdAt),
        ("started_at", Json.ofU64 st.startedAt),
        ("finished_at", Json.ofU64 st.finishedAt),
        ("exit_code", Json.ofOption Json.ofI32 st.exitCode),
        ("exit_signal", Json.ofOption Json.ofI32 st.exitSignal),
        ("oom_killed", .bool st.oomKilled),
        ("error", Json.ofOption Json.str st.error),
        ("cgroup_path", Json.ofOption Json.str st.cgroupPath),
        ("network", st.network.toJson),
        ("config", st.config.toJson.asRead)] := by
  have text := fun v => (NetworkConfig.ofOption_str_floatFree v).asRead
  have number := fun v => (ofOption_ofI32_floatFree v).asRead
  have network := st.network.toJson_floatFree.asRead
  simp only [Json.asRead] at text number network
  rw [toJson_eq]
  simp only [Json.asRead, Json.printable, Json.printableMembers, Json.reread,
    Json.rereadMembers, Json.ofI32, Json.ofU64, text, number, network]

private theorem fromJson_asRead [F64Ops]
    {st : ContainerState}
    (startTime : st.initStartTime.toNat < 2 ^ 63)
    (created : st.createdAt.toNat < 2 ^ 63)
    (started : st.startedAt.toNat < 2 ^ 63)
    (finished : st.finishedAt.toNat < 2 ^ 63)
    {config : ContainerConfig}
    (read : ContainerConfig.fromJson st.config.toJson.asRead = .ok config) :
    fromJson st.toJson.asRead = .ok { st with config } := by
  rw [asRead_toJson]
  simp only [fromJson, Json.strField, Json.i64Field, Json.u64Field,
    Json.boolField, Json.get_obj, Json.findMember, String.reduceEq,
    ↓reduceIte, requirePart, Result.ok_bind, read, Option.bind_some,
    Json.asStr_str, Json.asBool_bool, Option.getD_some, Option.map_some,
    Status.parse_asStr_status, asStr_ofOption, asI64_ofI32, asI64_ofOption,
    asU64_ofU64_small startTime, asU64_ofU64_small created,
    asU64_ofU64_small started, asU64_ofU64_small finished,
    NetworkState.fromJson_toJson, Int32.toInt32_toInt64]
  rfl

/-- The state file keeps whatever the configuration file keeps. -/
theorem ofText_toStringPretty [F64Ops]
    (numerals : ∀ f, f.isFinite = true → Json.Readable f)
    {st : ContainerState}
    (startTime : st.initStartTime.toNat < 2 ^ 63)
    (created : st.createdAt.toNat < 2 ^ 63)
    (started : st.startedAt.toNat < 2 ^ 63)
    (finished : st.finishedAt.toNat < 2 ^ 63)
    {config : ContainerConfig}
    (handed : handOver st.config = .ok config) :
    ofText st.toJson.toStringPretty = .ok { st with config } := by
  have read : ContainerConfig.fromJson st.config.toJson.asRead = .ok config := by
    simpa [handOver, parseJson_printed numerals] using handed
  simp only [ofText, parseJson_printed numerals, Result.ok_bind]
  exact fromJson_asRead startTime created started finished read

end ContainerState

/--
Both files are lossless.  A state whose configuration survives its own round
trip, and whose times are below `2^63`, is read back from `state.json` with
every field as it was; `netstate.json` hands init the mode, the addresses, the
interface and the prefix length of any network state.
-/
theorem state_files_lossless [F64Ops]
    (numerals : ∀ f, f.isFinite = true → Json.Readable f)
    {st : ContainerState}
    (survives : handOver st.config = .ok st.config)
    (startTime : st.initStartTime.toNat < 2 ^ 63)
    (created : st.createdAt.toNat < 2 ^ 63)
    (started : st.startedAt.toNat < 2 ^ 63)
    (finished : st.finishedAt.toNat < 2 ^ 63) :
    ContainerState.ofText st.toJson.toStringPretty = .ok st ∧
      NetworkState.readNetworkState
          (some st.network.netstateJson.toStringPretty) =
        { mode := st.network.mode, ip := st.network.ip,
          gateway := st.network.gateway,
          containerVeth := st.network.containerVeth,
          prefixLen := st.network.prefixLen } :=
  ⟨ContainerState.ofText_toStringPretty numerals startTime created started
      finished survives,
    st.network.readNetworkState_netstateJson⟩

/-- A container that was killed by a signal. -/
def killedWeb : ContainerState :=
  { ContainerState.new 1700000000000 webConfig with
    status := .stopped
    initPid := 4242
    initStartTime := 8812
    startedAt := 1700000000100
    finishedAt := 1700000009000
    exitSignal := some 9
    error := some "killed: \"out of memory\""
    network :=
      { mode := "bridge", ip := some "10.87.0.2", prefixLen := 24,
        published := [⟨8080, 80, "tcp"⟩] } }

/-- A number that is printed as an integer is read back. -/
theorem readable_of_display [F64Ops]
    {f : F64}
    {i : Int64}
    (finite : f.isFinite = true)
    (text : F64Ops.display f = Json.intText i) :
    Json.Readable f := by
  have shape : JsonParser.NumberShape (F64Ops.display f) := by
    rw [text]
    exact JsonParser.numberShape_intText i
  have value : JsonParser.numberValue (F64Ops.display f) = .ok (.int i) := by
    rw [text]
    exact JsonParser.numberValue_intText i
  exact ⟨finite, shape, ⟨_, value⟩⟩

/-- With the sample operations every number of a document is read back. -/
theorem unitOps_readable :
    let _ := unitOps
    ∀ f, f.isFinite = true → Json.Readable f := by
  intro _ f finite
  have text : F64Ops.display f = Json.intText 1 := by
    change ['1'] = Json.intText 1
    decide +kernel
  exact readable_of_display finite text

/-- The sample configuration is handed to init as it is. -/
theorem webConfig_survives :
    let _ := unitOps
    handOver webConfig = .ok webConfig := by
  intro _
  have text : F64Ops.display F64.one = Json.intText 1 := by
    decide +kernel
  have one : ∀ f ∈ webConfig.resources.cpus, F64.one = f := by
    simp [webConfig]
  have cpus : ∀ f ∈ webConfig.resources.cpus, ParsesBack f := by
    intro f isCpus
    obtain rfl := one f isCpus
    refine ⟨?_, .int 1, ?_, rfl⟩
    · rw [text]
      exact JsonParser.numberShape_intText 1
    · rw [text]
      exact JsonParser.numberValue_intText 1
  have finite : ∀ f ∈ webConfig.resources.cpus, f.isFinite = true := by
    intro f isCpus
    obtain rfl := one f isCpus
    decide
  rw [handOver_eq envBuilt_default finite cpus]
  have same : webConfig.kept = webConfig := by
    decide +kernel
  rw [same]

theorem killedWeb_lossless :
    let _ := unitOps
    ContainerState.ofText killedWeb.toJson.toStringPretty = .ok killedWeb ∧
      NetworkState.readNetworkState
          (some killedWeb.network.netstateJson.toStringPretty) =
        { mode := "bridge", ip := some "10.87.0.2", prefixLen := 24 } := by
  let _ := unitOps
  exact state_files_lossless unitOps_readable webConfig_survives (by decide)
    (by decide) (by decide) (by decide)

end Myrun
