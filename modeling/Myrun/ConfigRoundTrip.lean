import Myrun.ConfigValidate
import Myrun.JsonRoundTrip

namespace Myrun

/-!
# Handing a configuration over through `config.json`

A configuration is written to a file by the process that validated it and read
back by the shim and by init.  This module computes what comes back, for every
configuration built from the defaults, a document and command line flags.  Two
kinds of values do not survive: unsigned 64-bit limits of `2^63` and above,
which are written as negative numbers and then skipped, and repeated label
keys, of which only the last value is kept.
-/

/-! ## Building a configuration -/

/--
The configurations that the defaults, a document and command line flags can
build.  A flag either adds an environment setting or leaves the environment
alone.
-/
inductive Built [F64Ops] : ContainerConfig → Prop where
  | initial : Built {}
  | document {doc : Json} {c : ContainerConfig} :
      ContainerConfig.fromJson doc = .ok c → Built c
  | setting {c : ContainerConfig} (kv : String) : Built c → Built (c.setEnv kv)
  | flag {before after : ContainerConfig} :
      Built before → after.env = before.env → Built after

/-- `json::parse` of the pretty text of `to_json`, then `from_json`. -/
def handOver [F64Ops] (c : ContainerConfig) : Result ContainerConfig := do
  let doc ← parseJson c.toJson.toStringPretty
  ContainerConfig.fromJson doc

/-- The file keeps every field; `detach` is not persisted. -/
def HandedOverLosslessly [F64Ops] (c : ContainerConfig) : Prop :=
  ∃ back, handOver c = .ok back ∧ { back with detach := c.detach } = c

/-- What has to hold of a configuration for the file to keep it. -/
structure Persistable (c : ContainerConfig) : Prop where
  memory : ∀ v ∈ c.resources.memory, v.toNat < 2 ^ 63
  memorySwap : ∀ v ∈ c.resources.memorySwap, v.toNat < 2 ^ 63
  pids : ∀ v ∈ c.resources.pids, v.toNat < 2 ^ 63
  labels : (c.labels.map Prod.fst).Nodup

/-- The text form of a number is a number and parses back. -/
structure ParsesBack [F64Ops] (f : F64) : Prop where
  shape : JsonParser.NumberShape (F64Ops.display f)
  value :
    ∃ v, JsonParser.numberValue (F64Ops.display f) = .ok v ∧
      v.asF64 = some f

/-! ## The environment -/

/-- A key contains no equals sign. -/
theorem envKey_free (kv : String) : '=' ∉ (envKey kv).toList := by
  unfold envKey splitOnce
  cases cut : splitOnceChars '=' kv.toList with
  | none =>
      simpa using splitOnceChars_none_free cut
  | some parts =>
      simpa using splitOnceChars_key_free cut

/-- A setting that starts with a key and an equals sign has that key. -/
theorem envKey_of_startsWith
    {key e : String}
    (free : '=' ∉ key.toList)
    (starts : startsWith (key ++ "=") e = true) :
    envKey e = key := by
  unfold startsWith at starts
  rw [List.isPrefixOf_iff_prefix] at starts
  obtain ⟨rest, shape⟩ := starts
  have cut :
      splitOnceChars '=' e.toList = some (key.toList, rest) := by
    rw [← shape, String.toList_append]
    simpa using splitOnceChars_append free rest
  simp [envKey, splitOnce, cut]

/-- Does setting `kv` drop the entry `e`? -/
def overrides (kv e : String) : Prop :=
  startsWith (envKey kv ++ "=") e = true

/-- The shape of every environment built by `set_env` from the default one. -/
structure EnvBuilt (env : List String) : Prop where
  ordered : env.Pairwise fun e later => ¬ overrides later e
  path : ∃ e ∈ env, envKey e = "PATH"
  term : ∃ e ∈ env, envKey e = "TERM"

theorem envBuilt_default : EnvBuilt defaultEnv where
  ordered := by simp [defaultEnv, overrides]; decide
  path := ⟨_, List.mem_cons_self, by decide⟩
  term := ⟨_, List.mem_cons_of_mem _ List.mem_cons_self, by decide⟩

/-- Some entry keeps its key when another setting is added. -/
theorem mem_envKey_setEnvList
    {env : List String}
    {key : String}
    (kv : String)
    (present : ∃ e ∈ env, envKey e = key) :
    ∃ e ∈ setEnvList env kv, envKey e = key := by
  obtain ⟨e, member, keyed⟩ := present
  by_cases dropped : overrides kv e
  · have same : envKey e = envKey kv :=
      envKey_of_startsWith (envKey_free kv) dropped
    exact ⟨kv, by simp [setEnvList], same.symm.trans keyed⟩
  · have kept : e ∈ setEnvList env kv := by
      simp only [setEnvList, List.mem_append, List.mem_filter]
      left
      refine ⟨member, ?_⟩
      simpa [overrides] using dropped
    exact ⟨e, kept, keyed⟩

private theorem EnvBuilt.setEnvList
    {env : List String}
    (built : EnvBuilt env)
    (kv : String) :
    EnvBuilt (setEnvList env kv) where
  ordered := by
    rw [Myrun.setEnvList, List.pairwise_append]
    refine ⟨built.ordered.filter _, by simp, ?_⟩
    intro e member later laterMember
    rw [List.mem_singleton] at laterMember
    subst laterMember
    rw [List.mem_filter] at member
    simpa [overrides] using member.2
  path := mem_envKey_setEnvList kv built.path
  term := mem_envKey_setEnvList kv built.term

private theorem EnvBuilt.foldl
    {env : List String}
    (built : EnvBuilt env)
    (settings : List String) :
    EnvBuilt (settings.foldl Myrun.setEnvList env) := by
  induction settings generalizing env with
  | nil =>
      exact built
  | cons kv rest inductionHypothesis =>
      exact inductionHypothesis (built.setEnvList kv)

private theorem Built.envBuilt [F64Ops]
    {c : ContainerConfig}
    (built : Built c) :
    EnvBuilt c.env := by
  induction built with
  | initial =>
      exact envBuilt_default
  | document decoded =>
      unfold ContainerConfig.fromJson at decoded
      simp only [Result.bind_eq_ok, Result.pure_eq_ok] at decoded
      obtain ⟨_, _, _, _, _, _, _, _, same⟩ := decoded
      rw [← Except.ok.inj same]
      exact envBuilt_default.foldl _
  | setting kv _ inductionHypothesis =>
      exact inductionHypothesis.setEnvList kv
  | flag _ same inductionHypothesis =>
      rw [same]
      exact inductionHypothesis

/--
Applying the settings of an ordered list keeps them all, in order, after the
initial entries that none of them overrides.
-/
theorem foldl_setEnvList
    {settings : List String}
    (initial : List String)
    (ordered : settings.Pairwise fun e later => ¬ overrides later e) :
    ∃ kept,
      settings.foldl setEnvList initial = kept ++ settings ∧
        ∀ e ∈ kept, e ∈ initial ∧ ∀ kv ∈ settings, ¬ overrides kv e := by
  induction settings using List.reverseRecOn with
  | nil =>
      exact ⟨initial, by simp, by simp⟩
  | append_singleton settings kv inductionHypothesis =>
      rw [List.pairwise_append] at ordered
      obtain ⟨orderedInit, _, keptBefore⟩ := ordered
      obtain ⟨kept, folded, keeps⟩ := inductionHypothesis orderedInit
      refine ⟨kept.filter fun e => !startsWith (envKey kv ++ "=") e, ?_, ?_⟩
      · rw [List.foldl_append, folded]
        have stay :
            settings.filter (fun e => !startsWith (envKey kv ++ "=") e) =
              settings := by
          rw [List.filter_eq_self]
          intro e member
          simpa [overrides] using keptBefore e member kv (by simp)
        simp [setEnvList, stay]
      · intro e member
        rw [List.mem_filter] at member
        obtain ⟨inInitial, notOverridden⟩ := keeps e member.1
        refine ⟨inInitial, ?_⟩
        intro later laterMember
        rw [List.mem_append, List.mem_singleton] at laterMember
        rcases laterMember with earlier | rfl
        · exact notOverridden later earlier
        · simpa [overrides] using member.2

/-- Reading the environment of a built configuration back changes nothing. -/
theorem EnvBuilt.foldl_default
    {env : List String}
    (built : EnvBuilt env) :
    env.foldl Myrun.setEnvList defaultEnv = env := by
  obtain ⟨kept, folded, keeps⟩ := foldl_setEnvList defaultEnv built.ordered
  have nothingKept : kept = [] := by
    rw [List.eq_nil_iff_forall_not_mem]
    intro e member
    obtain ⟨inDefault, notOverridden⟩ := keeps e member
    simp only [defaultEnv, List.mem_cons, List.not_mem_nil, or_false] at inDefault
    rcases inDefault with rfl | rfl
    · obtain ⟨kv, present, keyed⟩ := built.path
      apply notOverridden kv present
      rw [overrides, keyed]
      decide
    · obtain ⟨kv, present, keyed⟩ := built.term
      apply notOverridden kv present
      rw [overrides, keyed]
      decide
  rw [folded, nothingKept, List.nil_append]

/-! ## Numbers -/

private theorem toInt64_nonneg_iff (v : UInt64) :
    0 ≤ v.toInt64 ↔ v.toNat < 2 ^ 63 := by
  have bound := v.toNat_lt
  have value :
      v.toInt64.toInt =
        if 2 * v.toNat < 2 ^ 64 then (v.toNat : Int)
        else (v.toNat : Int) - 2 ^ 64 :=
    BitVec.toInt_eq_toNat_cond v.toBitVec
  rw [Int64.le_iff_toInt_le, value, Int64.toInt_zero]
  split <;> omega

/-- An unsigned number survives the cast to `i64` only below `2^63`. -/
theorem asU64_ofU64 (v : UInt64) :
    (Json.ofU64 v).asU64 = if v.toNat < 2 ^ 63 then some v else none := by
  simp only [Json.ofU64, Json.asU64, toInt64_nonneg_iff]
  split
  · simp
  · rfl

/-- A small number is read back exactly. -/
theorem asU64_int_ofNat
    {n : Nat}
    (small : n < 2 ^ 63) :
    (Json.int (Int64.ofNat n)).asU64 = some (UInt64.ofNat n) := by
  have bound : (UInt64.ofNat n).toNat = n := by
    rw [UInt64.toNat_ofNat']
    omega
  have same : Json.int (Int64.ofNat n) = Json.ofU64 (UInt64.ofNat n) := by
    simp [Json.ofU64]
  rw [same, asU64_ofU64, bound, if_pos small]

/-- What is left of an optional limit after the file. -/
def keepSmall (v : Option UInt64) : Option UInt64 :=
  v.filter fun n => n.toNat < 2 ^ 63

theorem keepSmall_eq_self_iff (v : Option UInt64) :
    keepSmall v = v ↔ ∀ n ∈ v, n.toNat < 2 ^ 63 := by
  cases v with
  | none =>
      simp [keepSmall]
  | some n =>
      simp [keepSmall, Option.filter]

/-! ## Sections without floats -/

namespace Json

/-- The members of an object built by `set` calls, from given ones. -/
def setAll (members : List (String × Json)) :
    List (String × Json) → List (String × Json)
  | [] => members
  | (key, value) :: rest => setAll (setMember key value members) rest

private theorem foldl_set
    (settings members : List (String × Json)) :
    settings.foldl (fun o member => o.set member.1 member.2) (obj members) =
      obj (setAll members settings) := by
  induction settings generalizing members with
  | nil =>
      rfl
  | cons setting rest inductionHypothesis =>
      exact inductionHypothesis _

private theorem ofSets_eq (settings : List (String × Json)) :
    ofSets settings = obj (setAll [] settings) :=
  foldl_set settings []

private theorem setAll_of_nodup
    {settings members : List (String × Json)}
    (distinct : ((members ++ settings).map Prod.fst).Nodup) :
    setAll members settings = members ++ settings := by
  induction settings generalizing members with
  | nil =>
      simp [setAll]
  | cons setting rest inductionHypothesis =>
      obtain ⟨key, value⟩ := setting
      have fresh : key ∉ members.map Prod.fst := by
        intro member
        rw [List.map_append, List.nodup_append] at distinct
        exact distinct.2.2 key member key (by simp) rfl
      rw [setAll, setMember_of_not_mem fresh, inductionHypothesis]
      · simp
      · simpa using distinct

theorem ofSets_of_nodup
    {settings : List (String × Json)}
    (distinct : (settings.map Prod.fst).Nodup) :
    ofSets settings = obj settings := by
  rw [ofSets_eq, setAll_of_nodup (by simpa using distinct), List.nil_append]

/-- The keys of a member list after `set` are the old ones and the new one. -/
theorem keys_setMember
    (key : String)
    (value : Json)
    (members : List (String × Json)) :
    (setMember key value members).map Prod.fst =
      if key ∈ members.map Prod.fst then members.map Prod.fst
      else members.map Prod.fst ++ [key] := by
  induction members with
  | nil =>
      simp [setMember]
  | cons member rest inductionHypothesis =>
      obtain ⟨k, v⟩ := member
      by_cases same : k = key
      · simp [setMember, same]
      · by_cases later : key ∈ rest.map Prod.fst
        · simp [setMember, same, inductionHypothesis, later]
        · simp [setMember, same, inductionHypothesis, later, Ne.symm same]

private theorem nodup_keys_setAll
    {members : List (String × Json)}
    (distinct : (members.map Prod.fst).Nodup)
    (settings : List (String × Json)) :
    ((setAll members settings).map Prod.fst).Nodup := by
  induction settings generalizing members with
  | nil =>
      exact distinct
  | cons setting rest inductionHypothesis =>
      apply inductionHypothesis
      rw [keys_setMember]
      split
      · exact distinct
      · rename_i fresh
        rw [List.nodup_append]
        refine ⟨distinct, by simp, ?_⟩
        intro k member other isKey same
        rw [List.mem_singleton] at isKey
        exact fresh (isKey ▸ same ▸ member)

/-- A member list of strings only. -/
def AllStrings (members : List (String × Json)) : Prop :=
  ∀ member ∈ members, ∃ s, member.2 = str s

private theorem allStrings_setMember
    {members : List (String × Json)}
    (strings : AllStrings members)
    (key s : String) :
    AllStrings (setMember key (str s) members) := by
  induction members with
  | nil =>
      simp [setMember, AllStrings]
  | cons member rest inductionHypothesis =>
      obtain ⟨k, v⟩ := member
      have restStrings : AllStrings rest :=
        fun m inRest => strings m (List.mem_cons_of_mem _ inRest)
      intro m isMember
      unfold setMember at isMember
      split at isMember
      · rcases List.mem_cons.mp isMember with rfl | inRest
        · exact ⟨s, rfl⟩
        · exact restStrings m inRest
      · rcases List.mem_cons.mp isMember with rfl | inRest
        · exact strings _ List.mem_cons_self
        · exact inductionHypothesis restStrings m inRest

private theorem AllStrings.floatFree
    {members : List (String × Json)}
    (strings : AllStrings members) :
    MembersFloatFree members := by
  induction members with
  | nil =>
      trivial
  | cons member rest inductionHypothesis =>
      obtain ⟨k, v⟩ := member
      obtain ⟨s, rfl⟩ := strings _ List.mem_cons_self
      exact ⟨trivial,
        inductionHypothesis fun m inRest =>
          strings m (List.mem_cons_of_mem _ inRest)⟩

private theorem strings_floatFree (items : List String) :
    (strings items).FloatFree := by
  unfold strings FloatFree
  induction items with
  | nil =>
      trivial
  | cons item rest inductionHypothesis =>
      exact ⟨trivial, inductionHypothesis⟩

@[simp] theorem stringItems_map_str (items : List String) :
    stringItems (items.map str) = items := by
  induction items with
  | nil =>
      rfl
  | cons item rest inductionHypothesis =>
      simpa [stringItems, asStr] using inductionHypothesis

end Json

/-! ## Labels -/

/-- The labels that a file keeps. -/
def keptLabels (labels : List (String × String)) : List (String × String) :=
  ContainerConfig.labelsFromJson
    (Json.setAll [] (labels.map fun label => (label.1, .str label.2)))

private theorem labelsFromJson_map (labels : List (String × String)) :
    ContainerConfig.labelsFromJson
        (labels.map fun label => (label.1, .str label.2)) = labels := by
  induction labels with
  | nil =>
      rfl
  | cons label rest inductionHypothesis =>
      simp [ContainerConfig.labelsFromJson, Json.asStr, inductionHypothesis]

private theorem keys_labelsFromJson
    {members : List (String × Json)}
    (strings : Json.AllStrings members) :
    (ContainerConfig.labelsFromJson members).map Prod.fst =
      members.map Prod.fst := by
  induction members with
  | nil =>
      rfl
  | cons member rest inductionHypothesis =>
      obtain ⟨k, v⟩ := member
      obtain ⟨s, rfl⟩ := strings _ List.mem_cons_self
      have restStrings : Json.AllStrings rest :=
        fun m inRest => strings m (List.mem_cons_of_mem _ inRest)
      simp [ContainerConfig.labelsFromJson, Json.asStr,
        inductionHypothesis restStrings]

private theorem allStrings_setAll
    {members : List (String × Json)}
    (strings : Json.AllStrings members)
    (labels : List (String × String)) :
    Json.AllStrings
      (Json.setAll members (labels.map fun label => (label.1, .str label.2))) := by
  induction labels generalizing members with
  | nil =>
      exact strings
  | cons label rest inductionHypothesis =>
      exact inductionHypothesis
        (Json.allStrings_setMember strings label.1 label.2)

/-- The file keeps the labels exactly when no key is repeated. -/
theorem keptLabels_eq_self_iff (labels : List (String × String)) :
    keptLabels labels = labels ↔ (labels.map Prod.fst).Nodup := by
  constructor
  · intro kept
    have noStrings : Json.AllStrings [] := by
      simp [Json.AllStrings]
    rw [← kept, keptLabels,
      keys_labelsFromJson (allStrings_setAll noStrings labels)]
    exact Json.nodup_keys_setAll (by simp) _
  · intro distinct
    rw [keptLabels, Json.setAll_of_nodup, List.nil_append, labelsFromJson_map]
    simpa [Function.comp_def] using distinct

/-! ## Sections -/

private theorem asU64_ofOption (v : Option UInt64) :
    (Json.ofOption Json.ofU64 v).asU64 = keepSmall v := by
  cases v with
  | none =>
      rfl
  | some n =>
      simp [Json.ofOption, asU64_ofU64, keepSmall, Option.filter]

theorem asStr_ofOption (v : Option String) :
    (Json.ofOption Json.str v).asStr = v := by
  cases v <;> rfl

namespace Resources

/-- The members of the resources section. -/
theorem toJson_eq (r : Resources) :
    r.toJson =
      .obj [("memory", Json.ofOption Json.ofU64 r.memory),
        ("memory_swap", Json.ofOption Json.ofU64 r.memorySwap),
        ("cpus", Json.ofOption Json.float r.cpus),
        ("cpu_weight", Json.ofOption Json.ofU64 r.cpuWeight),
        ("pids", Json.ofOption Json.ofU64 r.pids)] :=
  Json.ofSets_of_nodup (by simp)

/-- What comes back of the limits. -/
def kept (r : Resources) : Resources :=
  { r with
    memory := keepSmall r.memory
    memorySwap := keepSmall r.memorySwap
    cpuWeight := keepSmall r.cpuWeight
    pids := keepSmall r.pids }

theorem ofOption_ofU64_floatFree (v : Option UInt64) :
    (Json.ofOption Json.ofU64 v).FloatFree := by
  cases v <;> trivial

private theorem toJson_readable [F64Ops]
    {r : Resources}
    (finite : ∀ f ∈ r.cpus, f.isFinite = true)
    (cpus : ∀ f ∈ r.cpus, ParsesBack f) :
    r.toJson.FloatsReadable := by
  have limit := fun v => (ofOption_ofU64_floatFree v).reread.1
  have cpusReadable :
      (Json.ofOption Json.float r.cpus).FloatsReadable := by
    cases shape : r.cpus with
    | none =>
        trivial
    | some f =>
        have back := cpus f shape
        obtain ⟨v, denotes, _⟩ := back.value
        exact ⟨finite f shape, back.shape, ⟨v, denotes⟩⟩
  rw [toJson_eq]
  exact ⟨limit _, limit _, cpusReadable, limit _, limit _, trivial⟩

private theorem numOrSize_ofOption [F64Ops]
    {j : Json}
    {key : String}
    (v : Option UInt64)
    (member : j.get key = some (Json.ofOption Json.ofU64 v)) :
    numOrSize j key = .ok (keepSmall v) := by
  unfold numOrSize
  rw [member, ← asU64_ofOption]
  cases v <;> rfl

theorem fromJson_reread [F64Ops]
    {r : Resources}
    (cpus : ∀ f ∈ r.cpus, ParsesBack f) :
    fromJson r.toJson.reread = .ok r.kept := by
  have limit := fun v => (ofOption_ofU64_floatFree v).reread.2
  have cpusBack :
      (Json.ofOption Json.float r.cpus).reread.asF64 = r.cpus := by
    cases shape : r.cpus with
    | none =>
        rfl
    | some f =>
        obtain ⟨v, denotes, back⟩ := (cpus f shape).value
        simp [Json.ofOption, Json.reread, denotes, back]
  rw [toJson_eq]
  simp only [Json.reread, Json.rereadMembers, limit]
  unfold fromJson
  rw [numOrSize_ofOption r.memory (by simp [Json.findMember]),
    numOrSize_ofOption r.memorySwap (by simp [Json.findMember])]
  simp [Json.findMember, Json.u64Field, cpusBack, asU64_ofOption,
    kept]

end Resources

/-- Decoding the entries of an encoded list. -/
theorem mapM_map_ok
    {α β : Type}
    {encode : α → β}
    {decode : β → Result α}
    (inverse : ∀ a, decode (encode a) = .ok a)
    (items : List α) :
    (items.map encode).mapM decode = .ok items := by
  induction items with
  | nil =>
      rfl
  | cons item rest inductionHypothesis =>
      simp [List.mapM_cons, inverse, inductionHypothesis]

theorem PortMapping.toJson_eq (p : PortMapping) :
    p.toJson =
      .obj [("host_port", .int (Int64.ofNat p.hostPort.toNat)),
        ("container_port", .int (Int64.ofNat p.containerPort.toNat)),
        ("protocol", .str p.protocol)] :=
  Json.ofSets_of_nodup (by simp)

private theorem PortMapping.fromJson_toJson (p : PortMapping) :
    fromJson p.toJson = .ok p := by
  have hostBound := p.hostPort.toNat_lt
  have containerBound := p.containerPort.toNat_lt
  have host := asU64_int_ofNat (n := p.hostPort.toNat) (by omega)
  have container := asU64_int_ofNat (n := p.containerPort.toNat) (by omega)
  rw [toJson_eq]
  simp [fromJson, Json.findMember, Json.strField, host,
    container, requireField]

private theorem MountSpec.toJson_eq (m : MountSpec) :
    m.toJson =
      .obj [("source", .str m.source), ("destination", .str m.destination),
        ("type", .str m.fstype), ("readonly", .bool m.readonly)] :=
  Json.ofSets_of_nodup (by simp)

private theorem MountSpec.fromJson_toJson (m : MountSpec) :
    fromJson m.toJson = .ok m := by
  rw [toJson_eq]
  simp [fromJson, Json.findMember,
    Json.strField, Json.boolField, requireField]

private theorem NetworkMode.parse_asStr_mode (mode : NetworkMode) :
    parse mode.asStr = .ok mode := by
  cases mode <;> decide

namespace NetworkConfig

private theorem toJson_eq (n : NetworkConfig) :
    n.toJson =
      .obj [("mode", .str n.mode.asStr), ("bridge", .str n.bridge),
        ("subnet", .str n.subnet), ("ip", Json.ofOption Json.str n.ip),
        ("gateway", Json.ofOption Json.str n.gateway),
        ("mtu", .int (Int64.ofNat n.mtu.toNat)),
        ("publish", .arr (n.publish.map PortMapping.toJson)),
        ("nat", .bool n.nat), ("dns", Json.strings n.dns)] :=
  Json.ofSets_of_nodup (by simp)

theorem publish_floatFree (publish : List PortMapping) :
    Json.ItemsFloatFree (publish.map PortMapping.toJson) := by
  induction publish with
  | nil =>
      trivial
  | cons p rest inductionHypothesis =>
      refine ⟨?_, inductionHypothesis⟩
      rw [PortMapping.toJson_eq]
      exact ⟨trivial, trivial, trivial, trivial⟩

theorem ofOption_str_floatFree (v : Option String) :
    (Json.ofOption Json.str v).FloatFree := by
  cases v <;> trivial

private theorem toJson_floatFree (n : NetworkConfig) : n.toJson.FloatFree := by
  rw [toJson_eq]
  exact ⟨trivial, trivial, trivial, ofOption_str_floatFree _,
    ofOption_str_floatFree _, trivial, publish_floatFree _, trivial,
    Json.strings_floatFree _, trivial⟩

private theorem fromJson_toJson (n : NetworkConfig) : fromJson n.toJson = .ok n := by
  have mtuBound := n.mtu.toNat_lt
  have mtu := asU64_int_ofNat (n := n.mtu.toNat) (by omega)
  have publish := mapM_map_ok PortMapping.fromJson_toJson n.publish
  rw [toJson_eq]
  simp [fromJson, Json.findMember, Json.strField, Json.boolField, Json.u64Field,
    Json.arrayField, Json.strings, mtu, publish, asStr_ofOption,
    NetworkMode.parse_asStr_mode]

end NetworkConfig

private theorem parseU32_trim_toDigits (n : UInt32) :
    parseU32 (trim (String.ofList (Nat.toDigits 10 n.toNat))) = some n := by
  have bound : n.toNat ≤ 2 ^ 32 - 1 := by
    have := n.toNat_lt
    omega
  have trimmed :
      trimChars (Nat.toDigits 10 n.toNat) = Nat.toDigits 10 n.toNat := by
    cases shape : Nat.toDigits 10 n.toNat with
    | nil =>
        exact (Nat.toDigits_ne_nil shape).elim
    | cons c cs =>
        have digits := List.all_eq_true.mp (toDigits_all_isDigit n.toNat)
        rw [shape] at digits
        have lastMember := List.getLast_mem (List.cons_ne_nil c cs)
        exact trimChars_of_ends rfl
          (List.getLast?_eq_getLast_of_ne_nil (List.cons_ne_nil c cs))
          (isWhitespace_of_isDigit (digits c List.mem_cons_self))
          (isWhitespace_of_isDigit (digits _ lastMember))
  simp only [parseU32, trim, String.toList_ofList, trimmed,
    parseUnsigned_toDigits bound, Option.map_some, UInt32.ofNat_toNat]

/-- The text of a user is read back. -/
theorem parseUser_userText (user : UInt32 × UInt32) :
    parseUser (userText user) = .ok user := by
  have free : ':' ∉ Nat.toDigits 10 user.1.toNat := by
    intro member
    have digits := toDigits_all_isDigit user.1.toNat
    rw [List.all_eq_true] at digits
    have digit := digits ':' member
    simp at digit
  have cut :
      splitOnce ':' (userText user) =
        some (String.ofList (Nat.toDigits 10 user.1.toNat),
          String.ofList (Nat.toDigits 10 user.2.toNat)) := by
    simp [splitOnce, userText, splitOnceChars_append free]
  unfold parseUser
  simp only [cut, parseU32_trim_toDigits]

namespace SecurityConfig

private theorem toJson_eq (s : SecurityConfig) :
    s.toJson =
      .obj [("no_new_privs", .bool s.noNewPrivs),
        ("cap_add", Json.strings s.capAdd),
        ("cap_drop", Json.strings s.capDrop),
        ("seccomp", .str s.seccomp.asStr),
        ("masked_paths", Json.strings s.maskedPaths),
        ("readonly_paths", Json.strings s.readonlyPaths),
        ("user", Json.ofOption (fun user => .str (userText user)) s.user),
        ("privileged", .bool s.privileged)] :=
  Json.ofSets_of_nodup (by simp)

private theorem toJson_floatFree (s : SecurityConfig) : s.toJson.FloatFree := by
  have user :
      (Json.ofOption (fun user => .str (userText user)) s.user).FloatFree := by
    cases s.user <;> trivial
  rw [toJson_eq]
  exact ⟨trivial, Json.strings_floatFree _, Json.strings_floatFree _, trivial,
    Json.strings_floatFree _, Json.strings_floatFree _, user, trivial,
    trivial⟩

private theorem fromJson_toJson (s : SecurityConfig) : fromJson s.toJson = .ok s := by
  have user :
      decodeOr none (fun v => (parseUser v).map some)
          (Json.ofOption (fun user => .str (userText user)) s.user).asStr =
        .ok s.user := by
    cases s.user with
    | none =>
        rfl
    | some user =>
        simp [Json.ofOption, parseUser_userText,
          Except.map]
  rw [toJson_eq]
  simp [fromJson, stringsField, Json.findMember, Json.strField, Json.boolField, Json.arrayField,
    Json.strings, user]

end SecurityConfig

namespace Namespaces

private theorem toJson_eq (n : Namespaces) :
    n.toJson =
      .obj [("pid", .bool n.pid), ("mount", .bool n.mount),
        ("uts", .bool n.uts), ("ipc", .bool n.ipc), ("net", .bool n.net),
        ("cgroup", .bool n.cgroup)] :=
  Json.ofSets_of_nodup (by simp)

private theorem toJson_floatFree (n : Namespaces) : n.toJson.FloatFree := by
  rw [toJson_eq]
  exact ⟨trivial, trivial, trivial, trivial, trivial, trivial, trivial⟩

private theorem fromJson_toJson (n : Namespaces) : fromJson n.toJson = n := by
  rw [toJson_eq]
  simp [fromJson, Json.findMember, Json.boolField]

end Namespaces

/-! ## The whole configuration -/

namespace ContainerConfig

theorem toJson_eq (c : ContainerConfig) :
    c.toJson =
      .obj [("id", .str c.id), ("name", Json.ofOption Json.str c.name),
        ("rootfs", .str c.rootfs), ("command", Json.strings c.command),
        ("env", Json.strings c.env), ("cwd", .str c.cwd),
        ("hostname", .str c.hostname), ("read_only", .bool c.readOnly),
        ("auto_remove", .bool c.autoRemove),
        ("mounts", .arr (c.mounts.map MountSpec.toJson)),
        ("resources", c.resources.toJson), ("network", c.network.toJson),
        ("security", c.security.toJson), ("namespaces", c.namespaces.toJson),
        ("labels", .obj (Json.setAll []
          (c.labels.map fun label => (label.1, .str label.2))))] := by
  rw [← Json.ofSets_eq]
  exact Json.ofSets_of_nodup (by simp)

private theorem mounts_floatFree (mounts : List MountSpec) :
    Json.ItemsFloatFree (mounts.map MountSpec.toJson) := by
  induction mounts with
  | nil =>
      trivial
  | cons m rest inductionHypothesis =>
      refine ⟨?_, inductionHypothesis⟩
      rw [MountSpec.toJson_eq]
      exact ⟨trivial, trivial, trivial, trivial, trivial⟩

private theorem labels_floatFree (labels : List (String × String)) :
    (Json.obj (Json.setAll []
      (labels.map fun label => (label.1, .str label.2)))).FloatFree := by
  have noStrings : Json.AllStrings [] := by
    simp [Json.AllStrings]
  exact (allStrings_setAll noStrings labels).floatFree

private theorem toJson_readable [F64Ops]
    {c : ContainerConfig}
    (finite : ∀ f ∈ c.resources.cpus, f.isFinite = true)
    (cpus : ∀ f ∈ c.resources.cpus, ParsesBack f) :
    c.toJson.FloatsReadable := by
  have strings := fun items => (Json.strings_floatFree items).reread.1
  have mounts := (Json.itemsFloatFree_reread (mounts_floatFree c.mounts)).1
  rw [toJson_eq]
  exact ⟨trivial, (NetworkConfig.ofOption_str_floatFree _).reread.1, trivial,
    strings _, strings _, trivial, trivial, trivial, trivial, mounts,
    Resources.toJson_readable finite cpus,
    c.network.toJson_floatFree.reread.1, c.security.toJson_floatFree.reread.1,
    c.namespaces.toJson_floatFree.reread.1, (labels_floatFree _).reread.1,
    trivial⟩

/-- The members of the document that the parser returns. -/
theorem reread_toJson [F64Ops] (c : ContainerConfig) :
    c.toJson.reread =
      .obj [("id", .str c.id), ("name", Json.ofOption Json.str c.name),
        ("rootfs", .str c.rootfs), ("command", Json.strings c.command),
        ("env", Json.strings c.env), ("cwd", .str c.cwd),
        ("hostname", .str c.hostname), ("read_only", .bool c.readOnly),
        ("auto_remove", .bool c.autoRemove),
        ("mounts", .arr (c.mounts.map MountSpec.toJson)),
        ("resources", c.resources.toJson.reread),
        ("network", c.network.toJson), ("security", c.security.toJson),
        ("namespaces", c.namespaces.toJson),
        ("labels", .obj (Json.setAll []
          (c.labels.map fun label => (label.1, .str label.2))))] := by
  have strings := fun items => (Json.strings_floatFree items).reread.2
  have mounts := (Json.itemsFloatFree_reread (mounts_floatFree c.mounts)).2
  have labels := (labels_floatFree c.labels).reread.2
  rw [toJson_eq]
  simp only [Json.reread, Json.rereadMembers, strings, mounts,
    (NetworkConfig.ofOption_str_floatFree c.name).reread.2,
    c.network.toJson_floatFree.reread.2, c.security.toJson_floatFree.reread.2,
    c.namespaces.toJson_floatFree.reread.2]
  simp only [Json.reread] at labels
  rw [labels]

/-- What comes back of a configuration. -/
def kept (c : ContainerConfig) : ContainerConfig :=
  { c with
    detach := false
    resources := c.resources.kept
    labels := keptLabels c.labels }

private theorem fromJson_reread [F64Ops]
    {c : ContainerConfig}
    (env : EnvBuilt c.env)
    (cpus : ∀ f ∈ c.resources.cpus, ParsesBack f) :
    fromJson c.toJson.reread = .ok c.kept := by
  have mounts := mapM_map_ok MountSpec.fromJson_toJson c.mounts
  rw [reread_toJson]
  simp [fromJson, commandFromJson, envSettings, Json.findMember,
    Json.strField, Json.boolField, Json.arrayField, Json.strings, mounts,
    Resources.fromJson_reread cpus, NetworkConfig.fromJson_toJson,
    SecurityConfig.fromJson_toJson, Namespaces.fromJson_toJson,
    env.foldl_default, asStr_ofOption, kept, keptLabels]

end ContainerConfig

/-- What the file makes of a built configuration. -/
theorem handOver_eq [F64Ops]
    {c : ContainerConfig}
    (env : EnvBuilt c.env)
    (finite : ∀ f ∈ c.resources.cpus, f.isFinite = true)
    (cpus : ∀ f ∈ c.resources.cpus, ParsesBack f) :
    handOver c = .ok c.kept := by
  have parsed :=
    parseJson_toStringPretty (ContainerConfig.toJson_readable finite cpus)
  simp only [handOver, parsed, Result.ok_bind]
  exact ContainerConfig.fromJson_reread env cpus

private theorem kept_eq_self_iff
    {c : ContainerConfig}
    (weight : ∀ w ∈ c.resources.cpuWeight, w.toNat < 2 ^ 63) :
    { c.kept with detach := c.detach } = c ↔ Persistable c := by
  have sameWeight := (keepSmall_eq_self_iff _).mpr weight
  constructor
  · intro same
    have resources : c.resources.kept = c.resources :=
      congrArg ContainerConfig.resources same
    exact {
      memory := (keepSmall_eq_self_iff _).mp
        (congrArg Resources.memory resources)
      memorySwap := (keepSmall_eq_self_iff _).mp
        (congrArg Resources.memorySwap resources)
      pids := (keepSmall_eq_self_iff _).mp (congrArg Resources.pids resources)
      labels := (keptLabels_eq_self_iff _).mp
        (congrArg ContainerConfig.labels same) }
  · intro small
    have resources : c.resources.kept = c.resources := by
      unfold Resources.kept
      rw [(keepSmall_eq_self_iff _).mpr small.memory,
        (keepSmall_eq_self_iff _).mpr small.memorySwap, sameWeight,
        (keepSmall_eq_self_iff _).mpr small.pids]
    have labels := (keptLabels_eq_self_iff _).mpr small.labels
    unfold ContainerConfig.kept
    rw [resources, labels]

/-- What the shim reads of a built and validated configuration. -/
theorem handOver_of_built [F64Ops]
    {host : ConfigHost}
    {requireRootfs : Bool}
    {before c : ContainerConfig}
    (built : Built before)
    (accepted : before.finalizeAndValidate host requireRootfs = .ok c)
    (cpus : ∀ f ∈ c.resources.cpus, ParsesBack f) :
    handOver c = .ok c.kept := by
  have validated := finalizeAndValidate_ok accepted
  obtain ⟨hostname, sameEnv⟩ := validated.env
  have env : EnvBuilt c.env := by
    rw [sameEnv]
    exact built.envBuilt.setEnvList _
  exact handOver_eq env
    (fun f isCpus => (validated.limits.cpusFinite f isCpus).1) cpus

/--
A validated configuration survives the file exactly when its memory, swap and
process limits are below `2^63` and no label key is repeated.
-/
theorem handOver_lossless_iff [F64Ops]
    {host : ConfigHost}
    {requireRootfs : Bool}
    {before c : ContainerConfig}
    (built : Built before)
    (accepted : before.finalizeAndValidate host requireRootfs = .ok c)
    (cpus : ∀ f ∈ c.resources.cpus, ParsesBack f) :
    HandedOverLosslessly c ↔ Persistable c := by
  have validated := finalizeAndValidate_ok accepted
  have weight : ∀ w ∈ c.resources.cpuWeight, w.toNat < 2 ^ 63 := by
    intro w isWeight
    have bound := (validated.limits.weight w isWeight).2
    rw [UInt64.le_iff_toNat_le] at bound
    have : (10000 : UInt64).toNat = 10000 := rfl
    omega
  have back := handOver_of_built built accepted cpus
  rw [← kept_eq_self_iff weight]
  constructor
  · rintro ⟨other, read, same⟩
    rw [back] at read
    rw [Except.ok.inj read]
    exact same
  · intro same
    exact ⟨c.kept, back, same⟩

/-- A host on which every path exists and is canonical. -/
def plainHost : ConfigHost where
  generateId := "0123456789abcdef0123456789abcdef"
  canonicalize := fun path => .ok path
  isDir := fun _ => true
  pathExists := fun _ => true

theorem Result.exists_ok
    {α : Type}
    {result : Result α}
    (accepted : result.toBool = true) :
    ∃ value, result = .ok value := by
  cases result with
  | error e =>
      cases accepted
  | ok value =>
      exact ⟨value, rfl⟩

/-- A configuration with a processor share, a memory limit and two labels. -/
def webConfig : ContainerConfig :=
  { id := "web"
    rootfs := "/srv/web"
    command := ["/bin/httpd", "-f"]
    resources :=
      { memory := some 268435456, cpus := some F64.one, pids := some 64 }
    labels := [("tier", "front"), ("owner", "ops")] }

theorem webConfig_handed_over :
    ∃ c, webConfig.finalizeAndValidate plainHost true = .ok c ∧
      @HandedOverLosslessly unitOps c := by
  let _ := unitOps
  have built : Built webConfig := Built.flag Built.initial rfl
  have passes :
      (webConfig.finalizeAndValidate plainHost true).toBool = true := by
    decide +kernel
  obtain ⟨c, accepted⟩ := Result.exists_ok passes
  have validated := finalizeAndValidate_ok accepted
  refine ⟨c, accepted, (handOver_lossless_iff built accepted ?_).mpr ?_⟩
  · rw [validated.resources]
    intro f isCpus
    have one : F64.one = f := by
      simpa [webConfig] using isCpus
    subst one
    have text : F64Ops.display F64.one = Json.intText 1 := by
      decide +kernel
    constructor
    · rw [text]
      exact JsonParser.numberShape_intText 1
    · rw [text]
      exact ⟨.int 1, JsonParser.numberValue_intText 1, rfl⟩
  · constructor
    · simp [validated.resources, webConfig]
    · simp [validated.resources, webConfig]
    · simp [validated.resources, webConfig]
    · simp [validated.labels, webConfig]

/-- A memory limit of `2^63` bytes, `--memory 9223372036854775808`. -/
def hugeMemory : ContainerConfig :=
  { id := "big"
    rootfs := "/srv/big"
    command := ["/bin/sh"]
    resources := { memory := some 9223372036854775808 } }

theorem hugeMemory_not_handed_over :
    ∃ c, @Built unitOps hugeMemory ∧
      hugeMemory.finalizeAndValidate plainHost true = .ok c ∧
      ¬ @HandedOverLosslessly unitOps c := by
  let _ := unitOps
  have built : Built hugeMemory := Built.flag Built.initial rfl
  have passes :
      (hugeMemory.finalizeAndValidate plainHost true).toBool = true := by
    decide +kernel
  obtain ⟨c, accepted⟩ := Result.exists_ok passes
  have validated := finalizeAndValidate_ok accepted
  refine ⟨c, built, accepted, ?_⟩
  rintro ⟨back, read, same⟩
  obtain ⟨hostname, sameEnv⟩ := validated.env
  have env : EnvBuilt c.env := by
    rw [sameEnv]
    exact built.envBuilt.setEnvList _
  have noCpus : c.resources.cpus = none := by
    rw [validated.resources]
    rfl
  rw [handOver_eq env (by simp [noCpus]) (by simp [noCpus])] at read
  rw [← Except.ok.inj read] at same
  have lost : keepSmall c.resources.memory = c.resources.memory :=
    congrArg (fun config => config.resources.memory) same
  rw [keepSmall_eq_self_iff, validated.resources] at lost
  have small := lost 9223372036854775808 (by simp [hugeMemory])
  simp at small

end Myrun
