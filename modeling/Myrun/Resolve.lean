import Myrun.FileTree
import Myrun.StateFile

namespace Myrun

open FileTree

/-!
# Naming a container on the command line

`Store::resolve` of `src/runtime/state.rs` accepts a full id, a name, or an
unambiguous prefix of an id.  The needle is first joined to the containers
directory as a path, as it is, and only then compared with ids and names.
-/

/-- The file system, and the components of the containers directory. -/
structure StoreDisk where
  root : Node
  containers : List String

namespace StoreDisk

/-- What is at a path. -/
def at? (d : StoreDisk) (path : List String) : Option Node :=
  (Node.walk path d.root []).map Prod.fst

/-- `containers_dir().join(id)`: an absolute path replaces the directory. -/
def dir (d : StoreDisk) (id : String) : List String :=
  if startsWithChar '/' id then split '/' id
  else d.containers ++ split '/' id

/-- `Store::state_path`. -/
def statePath (d : StoreDisk) (id : String) : List String :=
  d.dir id ++ ["state.json"]

/-- `Store::exists`. -/
def stateExists (d : StoreDisk) (id : String) : Bool :=
  (d.at? (d.statePath id)).isSome

/-- `Path::display`. -/
def display (path : List String) : String :=
  "/" ++ String.intercalate "/" path

/-- `Store::ids`: the entries of the directory that have a state file. -/
def ids (d : StoreDisk) : Result (List String) :=
  match d.at? d.containers with
  | none => .ok []
  | some (.file _) =>
      .error (.io (display d.containers ++ ": Not a directory (os error 20)"))
  | some (.dir names _ _) =>
      .ok (((names.map FileName.text).filter d.stateExists).mergeSort
        fun a b => decide (a ≤ b))

/-- `Store::load`. -/
def load [F64Ops] (d : StoreDisk) (id : String) : Result ContainerState :=
  match d.at? (d.statePath id) with
  | none => .error (.notFound ("container " ++ shortId id))
  | some (.dir _ _ _) =>
      .error (.syscall "read" 21 (display (d.statePath id)))
  | some (.file text) =>
      match parseJson text with
      | .error e =>
          .error (.parse (display (d.statePath id) ++ ": " ++ e.display))
      | .ok j => ContainerState.fromJson j

/-- Is the container readable and called `name`? -/
def hasName [F64Ops] (d : StoreDisk) (name id : String) : Bool :=
  match d.load id with
  | .ok st => st.name = some name
  | .error _ => false

/-- The end of `resolve`: what the ids that start with the needle mean. -/
def decideMatches (needle : String) : List String → Result String
  | [] => .error (.notFound ("container " ++ debugStr needle))
  | [only] => .ok only
  | several =>
      .error (.usage ("container id prefix " ++ debugStr needle ++
        " is ambiguous: " ++ String.intercalate ", " (several.map shortId)))

/-- The loop of `resolve`, with the ids collected so far. -/
def scan [F64Ops] (d : StoreDisk) (needle : String) :
    List String → List String → Result String
  | [], found => decideMatches needle found
  | id :: rest, found =>
      if startsWith needle id then d.scan needle rest (found ++ [id])
      else if d.hasName needle id then .ok id
      else d.scan needle rest found

/-- `Store::resolve`. -/
def resolve [F64Ops] (d : StoreDisk) (needle : String) : Result String :=
  if needle.isEmpty then .error (.usage "no container specified")
  else if d.stateExists needle then .ok needle
  else do
    let ids ← d.ids
    d.scan needle ids []

/-! ## What the loop finds -/

/-- The first name that matches wins, unless its id starts with the needle. -/
theorem scan_eq [F64Ops]
    (d : StoreDisk)
    (needle : String)
    (ids : List String) :
    ∀ found,
      d.scan needle ids found =
        match ids.find? fun id =>
            !startsWith needle id && d.hasName needle id with
        | some id => .ok id
        | none => decideMatches needle (found ++ ids.filter (startsWith needle)) := by
  induction ids with
  | nil =>
      intro found
      simp [scan]
  | cons id rest inductionHypothesis =>
      intro found
      by_cases leads : startsWith needle id = true
      · simp [scan, leads, inductionHypothesis]
      · by_cases named : d.hasName needle id = true
        · simp [scan, leads, named]
        · simp [scan, leads, named, inductionHypothesis]

private theorem decideMatches_eq_ok
    {needle id : String}
    {found : List String} :
    decideMatches needle found = .ok id ↔ found = [id] := by
  match found with
  | [] => simp [decideMatches]
  | [only] => simp [decideMatches]
  | first :: second :: rest => simp [decideMatches]

private theorem filter_eq_singleton
    {ids : List String}
    (distinct : ids.Nodup)
    {keep : String → Bool}
    {id : String} :
    ids.filter keep = [id] ↔
      id ∈ ids ∧ keep id = true ∧
        ∀ other ∈ ids, keep other = true → other = id := by
  constructor
  · intro single
    have member : id ∈ ids.filter keep := by
      simp [single]
    obtain ⟨listed, kept⟩ := List.mem_filter.mp member
    refine ⟨listed, kept, ?_⟩
    intro other otherListed otherKept
    have otherMember : other ∈ ids.filter keep :=
      List.mem_filter.mpr ⟨otherListed, otherKept⟩
    simpa [single] using otherMember
  · rintro ⟨listed, kept, alone⟩
    have filtered : (ids.filter keep).Nodup := distinct.filter keep
    have member : id ∈ ids.filter keep := List.mem_filter.mpr ⟨listed, kept⟩
    have same : ∀ other ∈ ids.filter keep, other = id := by
      intro other otherMember
      obtain ⟨otherListed, otherKept⟩ := List.mem_filter.mp otherMember
      exact alone other otherListed otherKept
    obtain ⟨count, shape⟩ : ∃ n, ids.filter keep = List.replicate n id :=
      ⟨_, List.eq_replicate_of_mem same⟩
    rw [shape] at filtered member ⊢
    match count with
    | 0 => simp at member
    | 1 => rfl
    | more + 2 => simp [List.replicate_succ] at filtered

/-- The ids of a store are distinct. -/
theorem ids_nodup
    {d : StoreDisk}
    {ids : List String}
    (listed : d.ids = .ok ids) :
    ids.Nodup := by
  unfold StoreDisk.ids at listed
  split at listed
  · obtain rfl : [] = ids := by
      simpa using listed
    exact List.nodup_nil
  · simp at listed
  · rename_i names distinct child found
    obtain rfl := Except.ok.inj listed
    have texts : (names.map FileName.text).Nodup :=
      distinct.map_on fun first _ second _ same => FileName.ext_text same
    exact (List.mergeSort_perm _ _).nodup_iff.mpr (texts.filter _)

/-- A listed id has a state file. -/
theorem stateExists_of_mem_ids
    {d : StoreDisk}
    {ids : List String}
    (listed : d.ids = .ok ids)
    {id : String}
    (member : id ∈ ids) :
    d.stateExists id = true := by
  unfold StoreDisk.ids at listed
  split at listed
  · obtain rfl : [] = ids := by
      simpa using listed
    simp at member
  · simp at listed
  · obtain rfl := Except.ok.inj listed
    rw [List.mem_mergeSort] at member
    exact (List.mem_filter.mp member).2

/-- An id is a plain name. -/
theorem exists_name_of_mem_ids
    {d : StoreDisk}
    {ids : List String}
    (listed : d.ids = .ok ids)
    {id : String}
    (member : id ∈ ids) :
    ∃ name : FileName, name.text = id := by
  unfold StoreDisk.ids at listed
  split at listed
  · obtain rfl : [] = ids := by
      simpa using listed
    simp at member
  · simp at listed
  · obtain rfl := Except.ok.inj listed
    rw [List.mem_mergeSort] at member
    obtain ⟨name, _, sameText⟩ :=
      List.mem_map.mp (List.mem_filter.mp member).1
    exact ⟨name, sameText⟩

/-- The state path of a plain name. -/
theorem statePath_name
    (d : StoreDisk)
    (name : FileName) :
    d.statePath name.text =
      d.containers ++ ([name.text] ++ ["state.json"]) := by
  have relative : startsWithChar '/' name.text = false := by
    cases chars : name.text.toList with
    | nil => simp [startsWithChar, chars]
    | cons first rest =>
        have different : first ≠ '/' := by
          rintro rfl
          exact name.noSlash (by simp [chars])
        simp [startsWithChar, chars, different]
  have components : split '/' name.text = [name.text] := by
    simp [split, splitChars_of_not_mem name.noSlash]
  simp [statePath, dir, relative, components]

/-- Only a needle that is not a plain name can lead out of the directory. -/
theorem mem_ids_of_plain
    {d : StoreDisk}
    (name : FileName)
    (present : d.stateExists name.text = true) :
    ∃ ids, d.ids = .ok ids ∧ name.text ∈ ids := by
  have found := present
  rw [stateExists, d.statePath_name, at?, Node.walk_append] at found
  cases reached : Node.walk d.containers d.root [] with
  | none => simp [reached] at found
  | some place =>
      obtain ⟨here, up⟩ := place
      rw [reached] at found
      simp only [Option.bind_some] at found
      rw [Node.walk_append, Node.walk_name] at found
      cases here with
      | file text => simp [Node.child?] at found
      | dir names distinct child =>
          have listed : name.text ∈ names.map FileName.text := by
            cases entry : names.find? (·.text = name.text) with
            | none => simp [Node.child?, entry] at found
            | some other =>
                have sameText : other.text = name.text := by
                  simpa using List.find?_some entry
                rw [← sameText]
                exact List.mem_map_of_mem (List.mem_of_find?_eq_some entry)
          have all :
              d.ids = .ok (((names.map FileName.text).filter
                d.stateExists).mergeSort fun a b => decide (a ≤ b)) := by
            simp only [ids, at?, reached, Option.map_some]
          refine ⟨_, all, ?_⟩
          rw [List.mem_mergeSort]
          exact List.mem_filter.mpr ⟨listed, present⟩

/-! ## What `resolve` promises -/

/-- What `resolve` is for, on one needle. -/
structure Resolves [F64Ops] (d : StoreDisk) (needle : String) : Prop where
  listed : ∀ id, d.resolve needle = .ok id →
    ∃ ids, d.ids = .ok ids ∧ id ∈ ids
  byId : ∀ ids, d.ids = .ok ids → needle ∈ ids →
    d.resolve needle = .ok needle
  byName : ∀ ids, d.ids = .ok ids → needle ∉ ids →
    ∀ id ∈ ids, d.hasName needle id = true → d.resolve needle = .ok id
  byLeading : ∀ ids, d.ids = .ok ids → needle ∉ ids →
    (∀ id ∈ ids, d.hasName needle id = false) →
    ∀ id, d.resolve needle = .ok id ↔
      id ∈ ids ∧ startsWith needle id = true ∧
        ∀ other ∈ ids, startsWith needle other = true → other = id

/-- The needles on which it keeps that promise. -/
structure Clear [F64Ops] (d : StoreDisk) (needle : String) : Prop where
  /-- as a path it leads to no state file other than a listed one -/
  inside : d.stateExists needle = true →
    ∃ ids, d.ids = .ok ids ∧ needle ∈ ids
  /-- one container has it as its name, and shares no beginning with another -/
  unshared : ∀ ids, d.ids = .ok ids → needle ∉ ids →
    ∀ id ∈ ids, d.hasName needle id = true →
      (∀ other ∈ ids, d.hasName needle other = true → other = id) ∧
      (startsWith needle id = true →
        ∀ other ∈ ids, startsWith needle other = true → other = id)

section Resolving

variable [F64Ops] {d : StoreDisk} {needle : String}

/-- `resolve` once the needle is known to be no path to a state file. -/
theorem resolve_absent
    (nonempty : needle ≠ "")
    (absent : d.stateExists needle = false)
    {ids : List String}
    (listed : d.ids = .ok ids) :
    d.resolve needle =
      match ids.find? fun id =>
          !startsWith needle id && d.hasName needle id with
      | some id => .ok id
      | none => decideMatches needle (ids.filter (startsWith needle)) := by
  have filled : needle.isEmpty = false := by
    simpa [String.isEmpty_iff] using nonempty
  simp only [resolve, filled, absent, Bool.false_eq_true, ↓reduceIte, listed,
    Result.ok_bind, scan_eq, List.nil_append]

private theorem resolve_present
    (nonempty : needle ≠ "")
    (present : d.stateExists needle = true) :
    d.resolve needle = .ok needle := by
  have filled : needle.isEmpty = false := by
    simpa [String.isEmpty_iff] using nonempty
  simp only [resolve, filled, present, Bool.false_eq_true, ↓reduceIte]

private theorem clear_of_resolves
    (nonempty : needle ≠ "")
    (resolves : d.Resolves needle) :
    d.Clear needle := by
  have inside : d.stateExists needle = true →
      ∃ ids, d.ids = .ok ids ∧ needle ∈ ids := fun present =>
    resolves.listed needle (resolve_present nonempty present)
  refine ⟨inside, ?_⟩
  intro ids listed notId id member named
  have answer := resolves.byName ids listed notId id member named
  have sameName :
      ∀ other ∈ ids, d.hasName needle other = true → other = id := by
    intro other otherMember otherNamed
    have otherAnswer :=
      resolves.byName ids listed notId other otherMember otherNamed
    exact Except.ok.inj (otherAnswer.symm.trans answer)
  refine ⟨sameName, ?_⟩
  intro leads other otherMember otherLeads
  have absent : d.stateExists needle = false := by
    by_contra present
    obtain ⟨all, allListed, isId⟩ := inside (by simpa using present)
    obtain rfl := Except.ok.inj (allListed.symm.trans listed)
    exact notId isId
  rw [resolve_absent nonempty absent listed] at answer
  split at answer
  · -- the name that was found is another one, whose id does not start so
    rename_i found isFound
    obtain rfl := Except.ok.inj answer
    have conditions := List.find?_some isFound
    simp [leads] at conditions
  · have alone := (filter_eq_singleton (ids_nodup listed)).mp
      (decideMatches_eq_ok.mp answer)
    exact alone.2.2 other otherMember otherLeads

private theorem resolves_of_clear
    (nonempty : needle ≠ "")
    (clear : d.Clear needle) :
    d.Resolves needle := by
  have absentOf : ∀ {ids}, d.ids = .ok ids → needle ∉ ids →
      d.stateExists needle = false := by
    intro ids listed notId
    by_contra present
    obtain ⟨all, allListed, isId⟩ := clear.inside (by simpa using present)
    obtain rfl := Except.ok.inj (allListed.symm.trans listed)
    exact notId isId
  refine ⟨?_, ?_, ?_, ?_⟩
  · intro id answer
    by_cases present : d.stateExists needle = true
    · rw [resolve_present nonempty present] at answer
      obtain rfl := Except.ok.inj answer
      exact clear.inside present
    · have absent : d.stateExists needle = false := by
        simpa using present
      cases listed : d.ids with
      | error e =>
          have filled : needle.isEmpty = false := by
            simpa [String.isEmpty_iff] using nonempty
          simp [resolve, filled, absent, listed] at answer
      | ok ids =>
          rw [resolve_absent nonempty absent listed] at answer
          refine ⟨ids, rfl, ?_⟩
          split at answer
          · rename_i found isFound
            obtain rfl := Except.ok.inj answer
            exact List.mem_of_find?_eq_some isFound
          · exact ((filter_eq_singleton (ids_nodup listed)).mp
              (decideMatches_eq_ok.mp answer)).1
  · intro ids listed isId
    exact resolve_present nonempty (stateExists_of_mem_ids listed isId)
  · intro ids listed notId id member named
    have ⟨sameName, sameLeading⟩ :=
      clear.unshared ids listed notId id member named
    rw [resolve_absent nonempty (absentOf listed notId) listed]
    split
    · rename_i found isFound
      have conditions := List.find?_some isFound
      simp only [Bool.and_eq_true] at conditions
      rw [sameName found (List.mem_of_find?_eq_some isFound) conditions.2]
    · -- no other id has the name, so this one starts with the needle
      rename_i nothing
      have passed := List.find?_eq_none.mp nothing id member
      have leads : startsWith needle id = true := by
        simpa [named] using passed
      exact decideMatches_eq_ok.mpr
        ((filter_eq_singleton (ids_nodup listed)).mpr
          ⟨member, leads, sameLeading leads⟩)
  · intro ids listed notId unnamed id
    have nothing :
        (ids.find? fun id => !startsWith needle id && d.hasName needle id) =
          none := by
      apply List.find?_eq_none.mpr
      intro other otherMember
      simp [unnamed other otherMember]
    rw [resolve_absent nonempty (absentOf listed notId) listed, nothing]
    exact decideMatches_eq_ok.trans (filter_eq_singleton (ids_nodup listed))

/--
`resolve` keeps its promise on exactly the needles that are clear: as a path
they lead to no state file but a listed one, and where one is the name of a
container, no other container has that name, and none has an id that also
starts with it if the container's own id does.
-/
theorem resolves_iff_clear
    (nonempty : needle ≠ "") :
    d.Resolves needle ↔ d.Clear needle :=
  ⟨clear_of_resolves nonempty, resolves_of_clear nonempty⟩

end Resolving

/-! ## Some stores -/

/-- The name of the state file. -/
def stateJson : FileName :=
  ⟨"state.json", by decide, by decide, by decide, by decide, by decide⟩

/-- The name of the containers directory. -/
def containersName : FileName :=
  ⟨"containers", by decide, by decide, by decide, by decide, by decide⟩

/-- A store with the given containers and the texts of their state files. -/
def ofContainers (names : List FileName) (distinct : names.Nodup)
    (text : FileName → String) : StoreDisk where
  root :=
    .dir [containersName] (by simp) fun _ =>
      .dir names distinct fun name =>
        .dir [stateJson] (by simp) fun _ => .file (text name)
  containers := [containersName.text]

private theorem at?_ofContainers
    {names : List FileName}
    (distinct : names.Nodup)
    (text : FileName → String)
    (name : FileName) :
    (ofContainers names distinct text).at?
        ((ofContainers names distinct text).statePath name.text) =
      if name ∈ names then some (.file (text name)) else none := by
  have entry :
      names.find? (·.text = name.text) =
        if name ∈ names then some name else none := by
    by_cases member : name ∈ names
    · rw [if_pos member]
      cases found : names.find? (·.text = name.text) with
      | none =>
          have missing := List.find?_eq_none.mp found name member
          simp at missing
      | some other =>
          have sameText : other.text = name.text := by
            simpa using List.find?_some found
          rw [FileName.ext_text sameText]
    · rw [if_neg member]
      apply List.find?_eq_none.mpr
      intro other otherMember
      simp only [decide_eq_true_eq]
      intro sameText
      exact member (FileName.ext_text sameText ▸ otherMember)
  have stateFile : (["state.json"] : List String) = [stateJson.text] := rfl
  rw [statePath_name, at?, Node.walk_append, stateFile]
  simp only [ofContainers, Node.walk_name, Node.child?, List.find?_cons,
    decide_true, Option.map_some, Option.bind_some]
  rw [Node.walk_append, Node.walk_name]
  simp only [Node.child?, entry]
  split
  · simp [Node.walk_name, Node.child?]
  · rfl

/-- One container, `abc`. -/
def single : StoreDisk :=
  ofContainers
    [⟨"abc", by decide, by decide, by decide, by decide, by decide⟩] (by simp)
    fun _ => "{}"

/-- A container id. -/
def web1 : FileName :=
  ⟨"web1", by decide, by decide, by decide, by decide, by decide⟩

/-- Another id that starts in the same way. -/
def web2 : FileName :=
  ⟨"web2", by decide, by decide, by decide, by decide, by decide⟩

/-- The common beginning. -/
def web : FileName :=
  ⟨"web", by decide, by decide, by decide, by decide, by decide⟩

/-- An id that starts in another way. -/
def db1 : FileName :=
  ⟨"db1", by decide, by decide, by decide, by decide, by decide⟩

/-- The state of a created container. -/
def createdState (id : FileName) (name : Option String) : ContainerState :=
  { ContainerState.new 0 { id := id.text, name } with status := .created }

/-- A store with `web1`, called `web`, and `web2`. -/
def webs [F64Ops] : StoreDisk :=
  ofContainers [web1, web2] (by decide) fun _ =>
    (createdState web1 (some "web")).toJson.toStringPretty

/-- A store with `web1`, called `web`, and `db1`, which has no name. -/
def webAndDb [F64Ops] : StoreDisk :=
  ofContainers [web1, db1] (by decide) fun id =>
    (createdState id (if id = web1 then some "web" else none)).toJson.toStringPretty

private theorem createdState_reads
    (id : FileName)
    (name : Option String) :
    let _ := unitOps
    ContainerState.ofText (createdState id name).toJson.toStringPretty =
      .ok (createdState id name) := by
  let _ := unitOps
  have survives : handOver (createdState id name).config =
      .ok (createdState id name).config := by
    rw [handOver_eq envBuilt_default (by simp [createdState, ContainerState.new])
      (by simp [createdState, ContainerState.new])]
    rfl
  have zero : (0 : UInt64).toNat < 2 ^ 63 := by decide
  exact ContainerState.ofText_toStringPretty unitOps_readable zero zero zero zero
    survives

private theorem hasName_of_reads [F64Ops]
    {d : StoreDisk}
    {needle id text : String}
    {st : ContainerState}
    (present : d.at? (d.statePath id) = some (.file text))
    (read : ContainerState.ofText text = .ok st) :
    d.hasName needle id = decide (st.name = some needle) := by
  obtain ⟨j, parsed, decoded⟩ := Result.bind_eq_ok.mp read
  simp only [hasName, load, present, parsed, decoded]

private theorem stateExists_ofContainers
    {names : List FileName}
    (distinct : names.Nodup)
    (text : FileName → String)
    (name : FileName) :
    (ofContainers names distinct text).stateExists name.text =
      decide (name ∈ names) := by
  rw [stateExists, at?_ofContainers]
  by_cases member : name ∈ names
  · rw [if_pos member, decide_eq_true member]
    rfl
  · rw [if_neg member, decide_eq_false member]
    rfl

/-- The ids of such a store. -/
theorem mem_of_mem_ids
    {names : List FileName}
    {distinct : names.Nodup}
    {text : FileName → String}
    {ids : List String}
    (listed : (ofContainers names distinct text).ids = .ok ids)
    {id : String}
    (member : id ∈ ids) :
    ∃ name ∈ names, name.text = id := by
  obtain ⟨name, rfl⟩ := exists_name_of_mem_ids listed member
  have present := stateExists_of_mem_ids listed member
  rw [stateExists_ofContainers] at present
  exact ⟨name, of_decide_eq_true present, rfl⟩

/-- A name that is also the beginning of the container's id is resolved when no
other id begins with it. -/
theorem webAndDb_resolves :
    let _ := unitOps
    webAndDb.Resolves "web" := by
  let _ := unitOps
  have notNamed : webAndDb.hasName "web" db1.text = false := by
    have present : webAndDb.at? (webAndDb.statePath db1.text) =
        some (.file (createdState db1 none).toJson.toStringPretty) :=
      (at?_ofContainers _ _ db1).trans (by rw [if_pos (by simp), if_neg (by decide)])
    rw [hasName_of_reads present (createdState_reads db1 none)]
    rfl
  refine (resolves_iff_clear (by decide)).mpr ⟨?_, ?_⟩
  · intro present
    have absent : webAndDb.stateExists web.text = decide (web ∈ [web1, db1]) :=
      stateExists_ofContainers _ _ web
    rw [show "web" = web.text from rfl, absent] at present
    exact absurd present (by decide)
  · intro ids listed _ id member named
    have onlyWeb : ∀ other ∈ ids, other = web1.text ∨ other = db1.text := by
      intro other isOther
      obtain ⟨name, among, rfl⟩ := mem_of_mem_ids listed isOther
      have either : name = web1 ∨ name = db1 := by simpa using among
      exact either.imp (congrArg FileName.text) (congrArg FileName.text)
    have isWeb : id = web1.text := by
      rcases onlyWeb id member with isWeb | rfl
      · exact isWeb
      · rw [notNamed] at named
        cases named
    subst isWeb
    refine ⟨?_, ?_⟩
    · intro other isOther isNamed
      rcases onlyWeb other isOther with same | rfl
      · exact same
      · rw [notNamed] at isNamed
        cases isNamed
    · intro _ other isOther leads
      rcases onlyWeb other isOther with same | rfl
      · exact same
      · exact absurd leads (by decide)

private theorem webs_not_clear [F64Ops]
    (reads : ContainerState.ofText
      (createdState web1 (some "web")).toJson.toStringPretty =
        .ok (createdState web1 (some "web"))) :
    ¬ webs.Clear web.text := by
  intro clear
  have present : ∀ name ∈ [web1, web2],
      webs.stateExists name.text = true := by
    intro name member
    rw [webs, stateExists_ofContainers, decide_eq_true member]
  have named : webs.hasName web.text web1.text = true := by
    have stored : webs.at? (webs.statePath web1.text) = some (.file
        (createdState web1 (some "web")).toJson.toStringPretty) :=
      (at?_ofContainers _ _ web1).trans (if_pos (by simp))
    rw [hasName_of_reads stored reads]
    rfl
  obtain ⟨ids, listed, first⟩ :=
    mem_ids_of_plain web1 (present web1 (by simp))
  obtain ⟨all, allListed, second⟩ :=
    mem_ids_of_plain web2 (present web2 (by simp))
  obtain rfl := Except.ok.inj (allListed.symm.trans listed)
  have notId : web.text ∉ all := by
    intro member
    obtain ⟨name, among, same⟩ := mem_of_mem_ids listed member
    obtain rfl : name = web := FileName.ext_text same
    exact absurd among (by decide)
  have same := (clear.unshared all listed notId web1.text first named).2
    (by decide) web2.text second (by decide)
  exact absurd same (by decide)

/--
A path to a state file is returned as if it were an id, and a name is refused
as an ambiguous prefix when the container's id starts with it.
-/
theorem paths_and_shared_names_misresolved :
    let _ := unitOps
    ¬ single.Resolves "abc/" ∧ ¬ webs.Resolves "web" := by
  let _ := unitOps
  constructor
  · intro resolves
    have clear := clear_of_resolves (by decide) resolves
    obtain ⟨ids, listed, member⟩ := clear.inside (by decide +kernel)
    obtain ⟨name, sameText⟩ := exists_name_of_mem_ids listed member
    apply name.noSlash
    rw [sameText]
    decide
  · intro resolves
    exact webs_not_clear (createdState_reads web1 (some "web"))
      (clear_of_resolves (by decide) resolves)

end StoreDisk

end Myrun
