import Myrun.Address
import Myrun.Config
import Myrun.LexicalPath
import Myrun.Prog

namespace Myrun

/-!
# Where volumes are mounted

`join` and `mount_volumes` of `src/runtime/filesystem.rs` and `mkdir_p` of
`src/sys/mount.rs`. Everything is created and mounted before the pivot, on
paths of the host: the destination of a volume is appended to the rootfs and
the kernel walks the result, steps up included.
-/

open LexicalPath

/-! ## Paths -/

/-- `PathBuf::push` as a function. -/
def pushPath (path more : String) : String :=
  if startsWithChar '/' more then more
  else if path.toList = [] ∨ path.toList.getLast? = some '/' then path ++ more
  else path ++ "/" ++ more

/-- `str::trim_start_matches` for one character. -/
def trimStartMatches (c : Char) (s : String) : String :=
  String.ofList (s.toList.dropWhile (· = c))

/-- `join`. -/
def join (root rel : String) : String :=
  pushPath root (trimStartMatches '/' rel)

/-- The components of `Path::components`, as strings. -/
def pathComponents (path : String) : List String :=
  let pieces := split '/' path
  (if startsWithChar '/' path then ["/"]
    else if pieces.head? = some "." then ["."]
    else []) ++
  pieces.filter fun piece => piece ≠ "" ∧ piece ≠ "."

/-! ## Mounting -/

/-- The operations of `mount_volumes`. -/
inductive VolumeOp where
  | metadata (source : String)
  | mkdir (path : String) (mode : UInt32)
  | touch (path : String)
  | mount (source : Option String) (target : String) (fstype : Option String)
      (flags : UInt64)

/-- The answers; `metadata` says whether the source is a directory. -/
abbrev VolumeAns : VolumeOp → Type
  | .metadata _ => Except String Bool
  | .mkdir _ _ => Result Unit
  | .touch _ => Result Unit
  | .mount _ _ _ _ => Result Unit

abbrev VolumeAct := Fallible VolumeOp VolumeAns Error

namespace Volumes

/-- One operation. -/
abbrev askVolume (op : VolumeOp) : Prog VolumeOp VolumeAns (VolumeAns op) :=
  Prog.perform op

/-- `MS_RDONLY`, `MS_NOSUID`, `MS_NODEV`, `MS_REMOUNT`, `MS_BIND`, `MS_REC`. -/
def msRdonly : UInt64 := 1
def msNosuid : UInt64 := 2
def msNodev : UInt64 := 4
def msRemount : UInt64 := 32
def msBind : UInt64 := 4096
def msRec : UInt64 := 16384

/-- The directories `mkdir_p` makes, each from the one before. -/
def mkdirPaths : String → List String → List String
  | _, [] => []
  | cur, comp :: rest =>
      let next := pushPath cur comp
      if next = "" ∨ next = "/" then mkdirPaths next rest
      else next :: mkdirPaths next rest

/-- The loop of `mkdir_p`. -/
def mkdirAll (mode : UInt32) : List String → VolumeAct Unit
  | [] => pure ()
  | path :: rest => do
      Fallible.of (askVolume (.mkdir path mode))
      mkdirAll mode rest

/-- `mkdir_p`, for the components of a path. -/
def mkdirP (components : List String) (mode : UInt32) : VolumeAct Unit :=
  mkdirAll mode (mkdirPaths "" components)

/-- `bind`, recursive. -/
def bind (source target : String) : VolumeAct Unit :=
  Fallible.of (askVolume (.mount (some source) target none (msBind ||| msRec)))

/-- `remount_ro`. -/
def remountRo (target : String) (extra : UInt64) : VolumeAct Unit :=
  Fallible.of (askVolume
    (.mount none target none (msRemount ||| msBind ||| msRdonly ||| extra)))

/-- The directory of a path: all of its components but the last. -/
def parentComponents (path : String) : List String :=
  let components := pathComponents path
  if components.getLast? = some "/" then [] else components.dropLast

/-- A directory or an empty file to mount on. -/
def makeTarget (target : String) (isDir : Bool) : VolumeAct Unit :=
  if isDir then mkdirP (pathComponents target) 0o755
  else do
    mkdirP (parentComponents target) 0o755
    Fallible.of (askVolume (.touch target))

/-- `metadata` of the source of a bind mount. -/
def sourceIsDir (source : String) : VolumeAct Bool :=
  Fallible.of ((askVolume (.metadata source)).bind fun
    | .ok isDir => .ret (.ok isDir)
    | .error e =>
        .ret (.error (.config ("bind mount source " ++ source ++ ": " ++ e))))

/-- The file system of one volume, on its target. -/
def placeVolume (spec : MountSpec) (target : String) : VolumeAct Unit :=
  if spec.fstype = "tmpfs" then do
    mkdirP (pathComponents target) 0o755
    Fallible.of (askVolume (.mount (some "tmpfs") target (some "tmpfs")
      (msNosuid ||| msNodev)))
  else do
    let isDir ← sourceIsDir spec.source
    makeTarget target isDir
    bind spec.source target

/-- The mount of one volume. -/
def mountVolume (root : String) (spec : MountSpec) : VolumeAct Unit := do
  placeVolume spec (join root spec.destination)
  if spec.readonly then remountRo (join root spec.destination) msRec
  else pure ()

/-- `mount_volumes`. -/
def mountVolumes (root : String) : List MountSpec → VolumeAct Unit
  | [] => pure ()
  | spec :: rest => do
      mountVolume root spec
      mountVolumes root rest

/-! ## What mounting touches -/

/-- An operation is about a volume: its source, or its joined path. -/
def Serves (root : String) (spec : MountSpec) : VolumeOp → Prop
  | .metadata source => source = spec.source
  | .mkdir path _ =>
      path ∈ mkdirPaths "" (pathComponents (join root spec.destination))
  | .touch path => path = join root spec.destination
  | .mount _ target _ _ => target = join root spec.destination

private theorem mkdirPaths_mono
    {cur path : String}
    {components : List String}
    (more : List String)
    (member : path ∈ mkdirPaths cur components) :
    path ∈ mkdirPaths cur (components ++ more) := by
  induction components generalizing cur with
  | nil => cases member
  | cons comp rest inductionHypothesis =>
      simp only [mkdirPaths, List.cons_append] at member ⊢
      by_cases skip : pushPath cur comp = "" ∨ pushPath cur comp = "/"
      · rw [if_pos skip] at member ⊢
        exact inductionHypothesis member
      · rw [if_neg skip] at member ⊢
        rcases List.mem_cons.mp member with rfl | later
        · exact List.mem_cons_self
        · exact List.mem_cons_of_mem _ (inductionHypothesis later)

private theorem mem_mkdirPaths_parent
    {path target : String}
    (member : path ∈ mkdirPaths "" (parentComponents target)) :
    path ∈ mkdirPaths "" (pathComponents target) := by
  unfold parentComponents at member
  dsimp only at member
  split at member
  · cases member
  · rcases List.eq_nil_or_concat (pathComponents target) with
      empty | ⟨front, last, shape⟩
    · rw [empty] at member
      cases member
    · rw [List.concat_eq_append] at shape
      rw [shape, List.dropLast_concat] at member
      rw [shape]
      exact mkdirPaths_mono [last] member

theorem mkdirAll_uses
    {P : VolumeOp → Prop}
    {mode : UInt32}
    {paths : List String}
    (each : ∀ path ∈ paths, P (.mkdir path mode)) :
    Prog.OnlyUses P (mkdirAll mode paths).run := by
  induction paths with
  | nil => exact .ret _
  | cons path rest inductionHypothesis =>
      apply Fallible.uses_bind
      · exact .perform (each path List.mem_cons_self)
      · intro _
        exact inductionHypothesis
          fun other member => each other (List.mem_cons_of_mem _ member)

theorem sourceIsDir_uses
    {P : VolumeOp → Prop}
    {source : String}
    (allowed : P (.metadata source)) :
    Prog.OnlyUses P (sourceIsDir source).run := by
  refine .call allowed fun answer => ?_
  cases answer with
  | ok isDir => exact .ret _
  | error e => exact .ret _

/-- One volume: only its source and its joined path. -/
theorem mountVolume_serves (root : String) (spec : MountSpec) :
    Prog.OnlyUses (Serves root spec) (mountVolume root spec).run := by
  have whole :
      Prog.OnlyUses (Serves root spec)
        (mkdirP (pathComponents (join root spec.destination)) 0o755).run :=
    mkdirAll_uses fun path member => member
  have parent :
      Prog.OnlyUses (Serves root spec)
        (mkdirP (parentComponents (join root spec.destination)) 0o755).run :=
    mkdirAll_uses fun path member => mem_mkdirPaths_parent member
  have made :
      ∀ isDir,
        Prog.OnlyUses (Serves root spec)
          (makeTarget (join root spec.destination) isDir).run := by
    intro isDir
    unfold makeTarget
    split
    · exact whole
    · exact Fallible.uses_bind parent fun _ => .call rfl fun answer => .ret answer
  have mounts :
      ∀ source fstype flags,
        Prog.OnlyUses (Serves root spec)
          (Fallible.of (askVolume (.mount source (join root spec.destination)
            fstype flags)) : VolumeAct Unit).run :=
    fun source fstype flags => .call rfl fun answer => .ret answer
  apply Fallible.uses_bind
  · unfold placeVolume
    split
    · exact Fallible.uses_bind whole fun _ => mounts _ _ _
    · have looked : Serves root spec (.metadata spec.source) := rfl
      apply Fallible.uses_bind (sourceIsDir_uses looked)
      intro isDir
      exact Fallible.uses_bind (made isDir) fun _ => mounts _ _ _
  · intro _
    split
    · exact mounts _ _ _
    · exact .ret _

/-- All volumes: each operation is about one of them. -/
theorem mountVolumes_serves (root : String) (mounts : List MountSpec) :
    Prog.OnlyUses (fun op => ∃ spec ∈ mounts, Serves root spec op)
      (mountVolumes root mounts).run := by
  induction mounts with
  | nil => exact .ret _
  | cons spec rest inductionHypothesis =>
      apply Fallible.uses_bind
      · apply (mountVolume_serves root spec).mono
        intro op serves
        exact ⟨spec, List.mem_cons_self, serves⟩
      · intro _
        apply inductionHypothesis.mono
        rintro op ⟨other, member, serves⟩
        exact ⟨other, List.mem_cons_of_mem _ member, serves⟩

end Volumes

/-! ## Inside the rootfs -/

/-- A component of a path: `..` is a step up, other pieces are names. -/
def component (piece : List Char) : Component (List Char) :=
  if piece = ['.', '.'] then .up else .name piece

/-- The components of a path that mean something. -/
def components (cs : List Char) : List (Component (List Char)) :=
  ((splitChars '/' cs).filter fun piece => piece ≠ [] ∧ piece ≠ ['.']).map
    component

/-- The lexically normalised path. -/
def placeOf (path : String) : Place (List Char) :=
  (⟨startsWithChar '/' path, 0, []⟩ : Place (List Char)).walk
    (components path.toList)

/-- A volume is mounted at the rootfs or below it. -/
def StaysInside (root destination : String) : Prop :=
  (placeOf (join root destination)).Inside (placeOf root)

/--
The destination goes up no more levels than it comes down again, through the
same names: the last components of the rootfs, or all of an absolute rootfs.
-/
def ComesBack (root destination : String) : Prop :=
  let ups := (relative (components destination.toList)).ups
  let names := (placeOf root).names
  ((placeOf root).absolute = true ∨ ups ≤ names.length) ∧
    names.drop (names.length - ups) <+:
      (relative (components destination.toList)).names

private theorem components_cut (cs rest : List Char) :
    components (cs ++ '/' :: rest) = components cs ++ components rest := by
  simp [components, splitChars_cut]

@[simp] theorem components_nil : components [] = [] :=
  rfl

private theorem components_trim (cs : List Char) :
    components (cs.dropWhile (· = '/')) = components cs := by
  induction cs with
  | nil => rfl
  | cons c cs inductionHypothesis =>
      by_cases slash : c = '/'
      · have cut := components_cut [] cs
        simp only [List.nil_append, components_nil] at cut
        simp [slash, inductionHypothesis, cut]
      · simp [slash]

private theorem dropWhile_head (cs : List Char) :
    (cs.dropWhile (· = '/')).head? ≠ some '/' := by
  induction cs with
  | nil => simp
  | cons c cs inductionHypothesis =>
      by_cases slash : c = '/'
      · simpa [slash] using inductionHypothesis
      · simp [slash]

/-- Appending a relative path appends its components. -/
theorem pushPath_relative
    {root more : String}
    (tail : startsWithChar '/' more = false) :
    components (pushPath root more).toList =
        components root.toList ++ components more.toList ∧
      startsWithChar '/' (pushPath root more) = startsWithChar '/' root := by
  unfold pushPath
  rw [if_neg (by simp [tail])]
  by_cases empty : root.toList = []
  · rw [if_pos (Or.inl empty)]
    constructor
    · simp [empty]
    · unfold startsWithChar at tail ⊢
      simp [empty] at tail ⊢
      exact tail
  · have first :
        ∀ rest : List Char, (root.toList ++ rest).head? = root.toList.head? :=
      fun rest => List.head?_append_of_ne_nil _ empty
    by_cases slash : root.toList.getLast? = some '/'
    · rw [if_pos (Or.inr slash)]
      obtain ⟨front, shape⟩ := List.getLast?_eq_some_iff.mp slash
      constructor
      · rw [String.toList_append, shape, List.append_assoc,
          List.singleton_append, components_cut, components_cut]
        simp
      · unfold startsWithChar
        rw [String.toList_append, first]
    · rw [if_neg (by simp [empty, slash])]
      constructor
      · rw [String.toList_append, String.toList_append, List.append_assoc]
        exact components_cut _ _
      · unfold startsWithChar
        rw [String.toList_append, String.toList_append, List.append_assoc,
          first]

/-- The joined path is walked from the rootfs. -/
theorem placeOf_join (root destination : String) :
    placeOf (join root destination) =
      (placeOf root).walk (components destination.toList) := by
  have tail :
      startsWithChar '/' (trimStartMatches '/' destination) = false := by
    have head := dropWhile_head destination.toList
    simp [startsWithChar, trimStartMatches, head]
  obtain ⟨appended, absolute⟩ := @pushPath_relative root _ tail
  have trimmed :
      components (trimStartMatches '/' destination).toList =
        components destination.toList := by
    rw [← components_trim destination.toList]
    simp [trimStartMatches]
  unfold placeOf join
  rw [appended, absolute, trimmed, walk_append]

/--
A volume stays inside its rootfs exactly when its destination comes back from
where its steps up lead.
-/
theorem staysInside_iff (root destination : String) :
    StaysInside root destination ↔ ComesBack root destination := by
  unfold StaysInside
  rw [placeOf_join]
  exact inside_walk_iff _ _

/-- A destination without steps up stays inside. -/
theorem staysInside_of_plain
    {root destination : String}
    (plain :
      ∀ piece ∈ splitChars '/' destination.toList, piece ≠ ['.', '.']) :
    StaysInside root destination := by
  rw [staysInside_iff]
  have level : (relative (components destination.toList)).ups = 0 := by
    apply relative_ups_of_names
    intro step member
    obtain ⟨piece, kept, rfl⟩ := List.mem_map.mp member
    have different := plain piece (List.mem_filter.mp kept).1
    exact ⟨piece, if_neg different⟩
  refine ⟨Or.inr ?_, ?_⟩
  · rw [level]
    exact Nat.zero_le _
  · rw [level, Nat.sub_zero, List.drop_length]
    exact List.nil_prefix

instance (root destination : String) :
    Decidable (ComesBack root destination) :=
  inferInstanceAs (Decidable ((_ ∨ _) ∧ _ <+: _))

/-- An accepted destination that leaves the rootfs. -/
theorem escaping_destination_is_accepted :
    ∃ spec,
      MountSpec.parse "/srv:/../../etc" = .ok spec ∧
        ¬ StaysInside "/run/box" spec.destination := by
  refine ⟨⟨"/srv", "/../../etc", "bind", false⟩, by decide +kernel, ?_⟩
  rw [staysInside_iff]
  decide +kernel

end Myrun
