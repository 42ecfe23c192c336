import Myrun.RootSetup

namespace Myrun

/-!
# Runs of the root setup with its host

The setup goes through stages, each with the operations that are possible in it.
Other processes mount and unmount at any time, and any operation may fail.
-/

namespace RootSetup

open Prog Volumes

/-! ## The stages -/

/-- How far `setup` is. -/
inductive Stage where
  /-- as it was found, with the propagation of the host -/
  | shared
  | isolated
  /-- the rootfs is a mount -/
  | bound
  | atRoot
  | pivoted
  | detached
  deriving Repr, DecidableEq

/-- After an operation. -/
def Stage.after : Stage → (op : RootOp) → RootAns op → Stage
  | .shared, .mount _ _ _ _ _, .ok () => .isolated
  | .isolated, .volume (.mount _ _ _ _), .ok () => .bound
  | .bound, .chdir _, .ok () => .atRoot
  | .atRoot, .pivotRoot _ _, .ok () => .pivoted
  | .pivoted, .umount _ _, .ok () => .detached
  | stage, _, _ => stage

/-- The file systems of `mount_standard`, `mount_volumes` and `mask_paths`. -/
def fileSystems : List String :=
  ["proc", "sysfs", "tmpfs", "devpts", "mqueue"]

/-- What is bound before the pivot. -/
def boundBefore (cfg : ContainerConfig) : List String :=
  cfg.rootfs :: "/sys" :: devices.map (fun device => pushPath "/dev" device.1) ++
    (cfg.mounts.filter fun spec => spec.fstype ≠ "tmpfs").map MountSpec.source

/-- What is bound after it. -/
def boundAfter (cfg : ContainerConfig) : List String :=
  "/dev/null" :: cfg.security.readonlyPaths

/-- A new file system, or a bind of one of these paths. -/
def Makes (paths : List String) (made : MountCall) : Prop :=
  made.flags &&& msRemount = 0 ∧ made.flags &&& msPrivate = 0 ∧
    (made.flags &&& msBind = 0 ∧ (∃ fs ∈ fileSystems, made.fstype = some fs) ∨
      made.flags &&& msBind ≠ 0 ∧ ∃ path ∈ paths, made.source = some path)

/-- What is bound in a stage, apart from the rootfs itself. -/
def Stage.binds (cfg : ContainerConfig) : Stage → List String
  | .bound => boundBefore cfg
  | .detached => boundAfter cfg
  | _ => []

/-- The stages in which file systems are mounted. -/
def Stage.Furnishes (stage : Stage) : Prop :=
  stage = .bound ∨ stage = .detached

/-- The mounts of each stage. -/
def Stage.Mounts (cfg : ContainerConfig) :
    Stage → MountCall → String → Prop
  | .shared, made, target => target = "/" ∧ made.flags = msRec ||| msPrivate
  | .isolated, made, target =>
      target = cfg.rootfs ∧ made = ⟨some cfg.rootfs, none, msBind ||| msRec⟩
  | stage, made, _ =>
      stage.Furnishes ∧
        (Makes (stage.binds cfg) made ∨ made.flags &&& msRemount ≠ 0)

/-- The operations of each stage. -/
def Stage.Allows (cfg : ContainerConfig) (stage : Stage) : RootOp → Prop
  | .volume (.mount source target fstype flags) =>
      stage ≠ .shared ∧ stage.Mounts cfg ⟨source, fstype, flags⟩ target
  | .mount source target fstype flags _ =>
      stage ≠ .isolated ∧ stage.Mounts cfg ⟨source, fstype, flags⟩ target
  | .chdir path => stage = .bound ∧ path = cfg.rootfs ∨ stage = .detached
  | .pivotRoot _ _ => stage = .atRoot
  | .umount _ _ => stage = .pivoted
  | _ => True

/-- The conduct of `setup`. -/
def conduct (cfg : ContainerConfig) : Discipline RootOp RootAns Stage where
  requires stage op := stage.Allows cfg op
  credible _ _ := True
  after stage op answer := stage.after op answer

/-- An operation that is possible in a stage and does not end it. -/
def Stage.Steady (cfg : ContainerConfig) (stage : Stage) (op : RootOp) : Prop :=
  stage.Allows cfg op ∧ ∀ answer, stage.after op answer = stage

/-! ## What the parts of `setup` do -/

section Steady

variable {cfg : ContainerConfig} {stage : Stage} {α : Type}

private theorem Stage.Furnishes.steady
    (furnishes : stage.Furnishes)
    {source : Option String}
    {target : String}
    {fstype : Option String}
    {flags : UInt64}
    (mounts : Makes (stage.binds cfg) ⟨source, fstype, flags⟩ ∨
      flags &&& msRemount ≠ 0) :
    (∀ data, stage.Steady cfg (.mount source target fstype flags data)) ∧
      stage.Steady cfg (.volume (.mount source target fstype flags)) := by
  have furnished := furnishes
  rcases furnishes with rfl | rfl
  · exact ⟨fun _ => ⟨⟨by decide, furnished, mounts⟩, fun _ => rfl⟩,
      ⟨by decide, furnished, mounts⟩, fun _ => rfl⟩
  · exact ⟨fun _ => ⟨⟨by decide, furnished, mounts⟩, fun _ => rfl⟩,
      ⟨by decide, furnished, mounts⟩, fun _ => rfl⟩

/-- A new file system. -/
theorem Stage.Furnishes.fresh
    (furnishes : stage.Furnishes)
    {source : Option String}
    {target fs : String}
    {flags : UInt64}
    {data : Option String}
    (known : fs ∈ fileSystems)
    (plain : flags &&& msRemount = 0 ∧ flags &&& msPrivate = 0 ∧
      flags &&& msBind = 0) :
    (mountCall source target (some fs) flags data).run.OnlyUses
      (stage.Steady cfg) := by
  have makes : Makes (stage.binds cfg) ⟨source, some fs, flags⟩ :=
    ⟨plain.1, plain.2.1, .inl ⟨plain.2.2, fs, known, rfl⟩⟩
  exact .perform ((furnishes.steady (.inl makes)).1 data)

/-- The bind of one of the paths of the stage. -/
theorem Stage.makes_bind
    {path : String}
    {fstype : Option String}
    {flags : UInt64}
    (known : path ∈ stage.binds cfg)
    (binds : flags = msBind ∨ flags = msBind ||| msRec) :
    Makes (stage.binds cfg) ⟨some path, fstype, flags⟩ := by
  have plain : flags &&& msRemount = 0 ∧ flags &&& msPrivate = 0 ∧
      flags &&& msBind ≠ 0 := by
    rcases binds with rfl | rfl
    · decide
    · decide
  exact ⟨plain.1, plain.2.1, .inr ⟨plain.2.2, path, known, rfl⟩⟩

/-- What a part does with volumes. -/
theorem uses_fromVolume
    {P : VolumeOp → Prop}
    {p : VolumeAct α}
    (uses : p.run.OnlyUses P)
    (steady : ∀ op, P op → stage.Steady cfg (.volume op)) :
    (fromVolume p).run.OnlyUses (stage.Steady cfg) :=
  uses.embed steady _

/-- An operation that mounts nothing. -/
def Idle : VolumeOp → Prop
  | .mount _ _ _ _ => False
  | _ => True

private theorem steady_of_idle
    {op : VolumeOp}
    (idle : Idle op) :
    stage.Steady cfg (.volume op) := by
  cases op with
  | mount => exact idle.elim
  | metadata | mkdir | touch =>
      refine ⟨trivial, fun _ => ?_⟩
      cases stage <;> rfl

private theorem uses_mkdirP
    {components : List String}
    {mode : UInt32} :
    (mkdirP components mode).run.OnlyUses Idle :=
  mkdirAll_uses fun _ _ => trivial

private theorem uses_volumeBind
    (furnishes : stage.Furnishes)
    {source target : String}
    (known : source ∈ stage.binds cfg) :
    (fromVolume (bind source target)).run.OnlyUses (stage.Steady cfg) := by
  refine uses_fromVolume (P := fun op => op =
    .mount (some source) target none (msBind ||| msRec)) (.perform rfl) ?_
  rintro op rfl
  exact (furnishes.steady (.inl (Stage.makes_bind known (.inr rfl)))).2

private theorem uses_remountRo
    (furnishes : stage.Furnishes)
    {target : String}
    {extra : UInt64}
    (remounts : (msRemount ||| msBind ||| msRdonly ||| extra) &&& msRemount ≠ 0) :
    (fromVolume (remountRo target extra)).run.OnlyUses (stage.Steady cfg) := by
  refine uses_fromVolume (P := fun op => op =
    .mount none target none (msRemount ||| msBind ||| msRdonly ||| extra))
    (.perform rfl) ?_
  rintro op rfl
  exact (furnishes.steady (.inr remounts)).2

/-- An operation that has nothing to do with mounts. -/
def Still : RootOp → Prop
  | .mknod _ _ _ _ => True
  | .pathExists _ => True
  | .isDirectory _ => True
  | .removeFile _ => True
  | .symlink _ _ => True
  | .fault _ => True
  | _ => False

private theorem steady_of_still
    {op : RootOp}
    (still : Still op) :
    stage.Steady cfg op := by
  cases op with
  | volume | mount | chdir | pivotRoot | umount => exact still.elim
  | _ =>
      refine ⟨trivial, fun _ => ?_⟩
      cases stage <;> rfl

/-- Asking for such an operation. -/
theorem uses_still
    {op : RootOp}
    (still : Still op) :
    (Fallible.lift (askRoot op) : RootAct (RootAns op)).run.OnlyUses
      (stage.Steady cfg) :=
  (OnlyUses.perform (steady_of_still still)).bind fun _ => .ret _

private theorem makeNodes_uses
    {devDir : String}
    {nodes : List (String × UInt64 × UInt64 × UInt32)}
    (known : ∀ node ∈ nodes, node ∈ devices) :
    (makeNodes devDir nodes).run.OnlyUses (Stage.Steady cfg .bound) := by
  induction nodes with
  | nil => exact .ret _
  | cons node rest inductionHypothesis =>
      obtain ⟨name, major, minor, mode⟩ := node
      have later := inductionHypothesis fun node member =>
        known node (List.mem_cons_of_mem _ member)
      have isDevice : pushPath "/dev" name ∈ Stage.binds cfg .bound := by
        have inside := List.mem_map_of_mem (f := fun device => pushPath "/dev" device.1)
          (known _ List.mem_cons_self)
        exact List.mem_append_left _
          (List.mem_cons_of_mem _ (List.mem_cons_of_mem _ inside))
      refine Fallible.uses_bind
        (Fallible.uses_attempt (.perform (steady_of_still trivial))) ?_
      intro result
      cases result with
      | ok _ => exact later
      | error e =>
          refine Fallible.uses_bind (uses_still trivial) ?_
          intro present
          split
          · refine Fallible.uses_bind (uses_fromVolume (P := Idle)
              (.perform trivial) fun _ => steady_of_idle) fun _ => ?_
            refine Fallible.uses_bind (Fallible.uses_mapErr (.perform ?_))
              fun _ => later
            exact (Stage.Furnishes.steady (.inl rfl)
              (.inl (Stage.makes_bind isDevice (.inl rfl)))).1 none
          · exact later

private theorem makeLinks_uses
    {devDir : String}
    (links : List (String × String)) :
    (makeLinks devDir links).run.OnlyUses (stage.Steady cfg) := by
  induction links with
  | nil => exact .ret _
  | cons link rest inductionHypothesis =>
      refine Fallible.uses_bind (uses_still trivial) ?_
      intro present
      split
      · exact inductionHypothesis
      · exact Fallible.uses_bind (uses_still trivial) fun _ =>
          inductionHypothesis

private theorem makeDevices_uses
    {devDir : String} :
    (makeDevices devDir).run.OnlyUses (Stage.Steady cfg .bound) := by
  refine Fallible.uses_bind (makeNodes_uses fun _ member => member) fun _ => ?_
  refine Fallible.uses_bind (uses_still trivial) fun _ => ?_
  refine Fallible.uses_bind (uses_still trivial) fun _ => ?_
  exact makeLinks_uses devSymlinks

/-- What `mount_volumes` asks for. -/
def OfVolume (mounts : List MountSpec) : VolumeOp → Prop
  | .mount source _ fstype flags =>
      fstype = some "tmpfs" ∧ flags = msNosuid ||| msNodev ∨
      (∃ spec ∈ mounts, spec.fstype ≠ "tmpfs" ∧ source = some spec.source) ∧
        flags = msBind ||| msRec ∨
      flags = msRemount ||| msBind ||| msRdonly ||| msRec
  | _ => True

private theorem mountVolume_asks
    {root : String}
    {spec : MountSpec}
    {mounts : List MountSpec}
    (member : spec ∈ mounts) :
    (mountVolume root spec).run.OnlyUses (OfVolume mounts) := by
  have made : ∀ components mode,
      (mkdirP components mode).run.OnlyUses (OfVolume mounts) :=
    fun _ _ => mkdirAll_uses fun _ _ => trivial
  refine Fallible.uses_bind ?_ fun _ => ?_
  · unfold placeVolume
    split
    · exact Fallible.uses_bind (made _ _) fun _ =>
        .perform (.inl ⟨rfl, rfl⟩)
    · rename_i notTmpfs
      refine Fallible.uses_bind (sourceIsDir_uses trivial) fun isDir => ?_
      refine Fallible.uses_bind ?_ fun _ =>
        .perform (.inr (.inl ⟨⟨spec, member, notTmpfs, rfl⟩, rfl⟩))
      unfold makeTarget
      split
      · exact made _ _
      · exact Fallible.uses_bind (made _ _) fun _ => .perform trivial
  · split
    · exact .perform (.inr (.inr rfl))
    · exact .ret _

private theorem mountVolumes_asks
    {root : String}
    {all mounts : List MountSpec}
    (members : ∀ spec ∈ mounts, spec ∈ all) :
    (mountVolumes root mounts).run.OnlyUses (OfVolume all) := by
  induction mounts with
  | nil => exact .ret _
  | cons spec rest inductionHypothesis =>
      refine Fallible.uses_bind
        (mountVolume_asks (members spec List.mem_cons_self)) fun _ => ?_
      exact inductionHypothesis fun other member =>
        members other (List.mem_cons_of_mem _ member)

private theorem steady_of_volume
    {op : VolumeOp}
    (ofVolume : OfVolume cfg.mounts op) :
    Stage.Steady cfg .bound (.volume op) := by
  cases op with
  | metadata | mkdir | touch => exact steady_of_idle trivial
  | mount source target fstype flags =>
      refine (Stage.Furnishes.steady (.inl rfl) ?_).2
      rcases ofVolume with ⟨rfl, rfl⟩ | ⟨⟨spec, member, notTmpfs, rfl⟩, rfl⟩ | rfl
      · exact .inl ⟨by simp only; decide, by simp only; decide,
          .inl ⟨by simp only; decide, "tmpfs", by decide, rfl⟩⟩
      · refine .inl (Stage.makes_bind ?_ (.inr rfl))
        refine List.mem_append_right _ (List.mem_map_of_mem ?_)
        exact List.mem_filter.mpr ⟨member, by simpa using notTmpfs⟩
      · exact .inr (by decide)

private theorem mountSys_uses
    {sysDir : String} :
    (mountSys sysDir).run.OnlyUses (Stage.Steady cfg .bound) := by
  refine Fallible.uses_bind (Fallible.uses_attempt
    (Stage.Furnishes.fresh (.inl rfl) (by decide) (by decide))) ?_
  intro mounted
  cases mounted with
  | ok _ => exact .ret _
  | error e =>
      refine Fallible.uses_bind (uses_volumeBind (.inl rfl) ?_) fun _ => ?_
      · exact List.mem_append_left _ (List.mem_cons_of_mem _ List.mem_cons_self)
      · exact uses_remountRo (.inl rfl) (by decide)

/-- A directory, and then the rest. -/
theorem uses_mkdir_bind
    {components : List String}
    {mode : UInt32}
    {rest : RootAct α}
    (uses : rest.run.OnlyUses (stage.Steady cfg)) :
    (fromVolume (mkdirP components mode) >>= fun _ => rest).run.OnlyUses
      (stage.Steady cfg) :=
  Fallible.uses_bind (uses_fromVolume uses_mkdirP fun _ => steady_of_idle)
    fun _ => uses

private theorem mountStandard_uses
    {root : String} :
    (mountStandard root cfg).run.OnlyUses (Stage.Steady cfg .bound) := by
  have fresh : ∀ {source : Option String} {target fs : String} {flags : UInt64}
      {data : Option String}, fs ∈ fileSystems →
      (flags &&& msRemount = 0 ∧ flags &&& msPrivate = 0 ∧
        flags &&& msBind = 0) →
      (mountCall source target (some fs) flags data).run.OnlyUses
        (Stage.Steady cfg .bound) :=
    fun known plain => Stage.Furnishes.fresh (.inl rfl) known plain
  refine uses_mkdir_bind ?_
  refine Fallible.uses_bind (fresh (by decide) (by decide)) fun _ => ?_
  refine uses_mkdir_bind ?_
  refine Fallible.uses_bind mountSys_uses fun _ => ?_
  refine uses_mkdir_bind ?_
  refine Fallible.uses_bind (fresh (by decide) (by decide)) fun _ => ?_
  refine uses_mkdir_bind ?_
  refine Fallible.uses_bind
    (Fallible.uses_attempt (fresh (by decide) (by decide))) fun _ => ?_
  refine uses_mkdir_bind ?_
  refine Fallible.uses_bind (fresh (by decide) (by decide)) fun _ => ?_
  refine uses_mkdir_bind ?_
  refine Fallible.uses_bind
    (Fallible.uses_attempt (fresh (by decide) (by decide))) fun _ => ?_
  refine uses_mkdir_bind ?_
  refine Fallible.uses_bind (fresh (by decide) (by decide)) fun _ => ?_
  refine Fallible.uses_bind makeDevices_uses fun _ => ?_
  exact uses_fromVolume (mountVolumes_asks fun _ member => member)
    fun _ => steady_of_volume

private theorem maskPaths_uses
    (paths : List String) :
    (maskPaths paths).run.OnlyUses (Stage.Steady cfg .detached) := by
  induction paths with
  | nil => exact .ret _
  | cons path rest inductionHypothesis =>
      refine Fallible.uses_bind (uses_still trivial) ?_
      intro found
      cases found with
      | none => exact inductionHypothesis
      | some isDir =>
          refine Fallible.uses_bind (Fallible.uses_attempt ?_) fun _ =>
            inductionHypothesis
          split
          · exact Stage.Furnishes.fresh (.inr rfl) (by decide) (by decide)
          · exact .perform ((Stage.Furnishes.steady (.inr rfl)
              (.inl (Stage.makes_bind List.mem_cons_self (.inl rfl)))).1 none)

private theorem readonlyPaths_uses
    {paths : List String}
    (known : ∀ path ∈ paths, path ∈ cfg.security.readonlyPaths) :
    (readonlyPaths paths).run.OnlyUses (Stage.Steady cfg .detached) := by
  induction paths with
  | nil => exact .ret _
  | cons path rest inductionHypothesis =>
      have later := inductionHypothesis fun other member =>
        known other (List.mem_cons_of_mem _ member)
      refine Fallible.uses_bind (uses_still trivial) ?_
      intro present
      split
      · refine Fallible.uses_bind (Fallible.uses_attempt (uses_volumeBind
          (.inr rfl) (List.mem_cons_of_mem _ (known path List.mem_cons_self)))) ?_
        intro bound
        cases bound with
        | error e => exact later
        | ok _ =>
            exact Fallible.uses_bind (Fallible.uses_attempt
              (uses_remountRo (.inr rfl) (by decide))) fun _ => later
      · exact later

end Steady

/-! ## The whole of `setup` -/

section Conduct

variable {cfg : ContainerConfig} {stage : Stage} {α : Type}

/-- A part of one stage. -/
theorem wp_steady
    {p : RootAct α}
    {ok : α → Stage → Prop}
    {err : Error → Stage → Prop}
    (uses : p.run.OnlyUses (stage.Steady cfg))
    (fine : ∀ value, ok value stage)
    (failed : ∀ e, err e stage) :
    p.wp (conduct cfg).contract stage ok err := by
  refine Discipline.wp_still uses ?_
  intro result
  cases result with
  | ok value => exact fine value
  | error e => exact failed e

/-- An operation that starts the next stage, or fails. -/
theorem wp_advance
    {p : RootAct Unit}
    {op : RootOp}
    {cont : RootAns op → Prog RootOp RootAns (Result Unit)}
    {ok : Unit → Stage → Prop}
    (next : Stage)
    (isOp : p.run = .call op cont)
    (allowed : stage.Allows cfg op)
    (moves : ∀ answer, (∃ e, cont answer = .ret (.error e)) ∨
      cont answer = .ret (.ok ()) ∧ stage.after op answer = next)
    (holds : ok () next) :
    p.wp (conduct cfg).contract stage ok fun _ _ => True := by
  unfold Fallible.wp
  rw [isOp]
  refine ⟨allowed, ?_⟩
  intro answer _
  rcases moves answer with ⟨e, failed⟩ | ⟨fine, same⟩
  · rw [failed]
    trivial
  · have reached : (conduct cfg).after stage op answer = next := same
    rw [fine, reached]
    exact holds

/-- The answers of an operation that moves on when it succeeds. -/
theorem fails_or_moves
    {cont : Result Unit → Prog RootOp RootAns (Result Unit)}
    {after : Result Unit → Stage}
    {next : Stage}
    (told : ∀ answer, cont answer = .ret answer)
    (moves : after (.ok ()) = next)
    (answer : Result Unit) :
    (∃ e, cont answer = .ret (.error e)) ∨
      cont answer = .ret (.ok ()) ∧ after answer = next := by
  cases answer with
  | error e => exact .inl ⟨e, told _⟩
  | ok _ => exact .inr ⟨told _, moves⟩

private theorem wp_makeRprivate
    {ok : Unit → Stage → Prop}
    (holds : ok () .isolated) :
    (makeRprivate "/").wp (conduct cfg).contract .shared ok fun _ _ => True :=
  wp_advance .isolated rfl ⟨by decide, rfl, rfl⟩
    (fails_or_moves (fun _ => rfl) rfl) holds

private theorem wp_enterRoot :
    (enterRoot cfg.rootfs).wp (conduct cfg).contract .bound
      (fun _ stage => stage = .detached) fun _ _ => True := by
  unfold enterRoot
  simp only [Fallible.wp_bind]
  refine wp_advance .atRoot rfl (.inl ⟨rfl, rfl⟩)
    (fails_or_moves (fun _ => rfl) rfl) ?_
  refine wp_advance .pivoted rfl rfl
    (fails_or_moves (fun _ => rfl) rfl) ?_
  refine wp_advance .detached rfl rfl
    (fails_or_moves (fun _ => rfl) rfl) ?_
  exact wp_steady (.perform ⟨.inr rfl, fun _ => rfl⟩) (fun _ => rfl)
    fun _ => trivial

/-- When `setup` succeeds, it has come to the last stage. -/
theorem wp_setup :
    (setup cfg).wp (conduct cfg).contract .shared
      (fun _ stage => stage = .detached) fun _ _ => True := by
  have sealed : (do
      faultCheck "after_pivot_root"
      if cfg.security.privileged then return ()
      else do
        maskPaths cfg.security.maskedPaths
        readonlyPaths cfg.security.readonlyPaths : RootAct Unit).wp
        (conduct cfg).contract .detached
        (fun _ stage => stage = .detached) fun _ _ => True := by
    refine wp_steady ?_ (fun _ => rfl) fun _ => trivial
    refine Fallible.uses_bind (.perform (steady_of_still trivial)) fun _ => ?_
    split
    · exact .ret _
    · exact Fallible.uses_bind (maskPaths_uses _) fun _ =>
        readonlyPaths_uses fun _ member => member
  have last : (do
      faultCheck "before_pivot_root"
      enterRoot cfg.rootfs
      faultCheck "after_pivot_root"
      if cfg.security.privileged then return ()
      else do
        maskPaths cfg.security.maskedPaths
        readonlyPaths cfg.security.readonlyPaths : RootAct Unit).wp
        (conduct cfg).contract .bound
        (fun _ stage => stage = .detached) fun _ _ => True := by
    rw [Fallible.wp_bind]
    refine wp_steady (.perform (steady_of_still trivial)) (fun _ => ?_)
      fun _ => trivial
    rw [Fallible.wp_bind]
    refine Fallible.wp_consequence ?_ (fun _ _ => id) wp_enterRoot
    rintro _ stage rfl
    exact sealed
  unfold setup
  simp only [Fallible.wp_bind]
  refine wp_makeRprivate ?_
  refine wp_advance .bound rfl ⟨by decide, rfl, rfl⟩
    (fails_or_moves (fun _ => rfl) rfl) ?_
  refine wp_steady mountStandard_uses (fun _ => ?_) fun _ => trivial
  split
  · rw [Fallible.wp_bind]
    exact wp_steady (uses_remountRo (.inl rfl) (by decide)) (fun _ => last)
      fun _ => trivial
  · exact last

end Conduct

end RootSetup

/-! ## Mounting in a private namespace -/

namespace MountTable

/-- One of the process's own mounts that it made itself. -/
def Tagged (t : MountTable MountCall) (space id : Nat) : Prop :=
  ∃ m ∈ t.mounts, m.id = id ∧ m.space = space ∧ m.tag ≠ none

/-- More mounts of one making, and nothing else. -/
structure Extends (space : Nat) (made : MountCall)
    (t t' : MountTable MountCall) : Prop where
  sound : t'.Sound
  isPrivate : t'.Private space
  others : t'.others space = t.others space
  kept : ∀ m ∈ t.mounts, m ∈ t'.mounts
  new : ∀ m ∈ t'.mounts, m ∈ t.mounts ∨ m.tag = some made ∧ t.next ≤ m.id
  next : t.next ≤ t'.next
  hangs : ∀ root, t.Hangs space root → t'.Hangs space root

variable {t t' t'' : MountTable MountCall} {space id : Nat} {made : MountCall}

private theorem Extends.refl
    (sound : t.Sound)
    (isPrivate : t.Private space) :
    Extends space made t t where
  sound
  isPrivate
  others := rfl
  kept _ inside := inside
  new _ inside := .inl inside
  next := Nat.le_refl _
  hangs _ hangs := hangs

private theorem Extends.trans
    (first : Extends space made t t')
    (second : Extends space made t' t'') :
    Extends space made t t'' where
  sound := second.sound
  isPrivate := second.isPrivate
  others := second.others.trans first.others
  kept m inside := second.kept m (first.kept m inside)
  new m inside := by
    rcases second.new m inside with before | ⟨tagged, late⟩
    · exact first.new m before
    · exact .inr ⟨tagged, Nat.le_trans first.next late⟩
  next := Nat.le_trans first.next second.next
  hangs root hangs := second.hangs root (first.hangs root hangs)

/-- A mount on one of its own. -/
theorem Extends.attach
    {d : Mount MountCall}
    {shared : Option Nat}
    (sound : t.Sound)
    (isPrivate : t.Private space)
    (inside : d ∈ t.mounts)
    (own : d.space = space)
    (unshared : shared = none) :
    Extends space made t (t.attach d shared (some made)) where
  sound := sound.attach inside
  isPrivate := isPrivate.attach inside fun _ => unshared
  others := others_attach isPrivate inside own
  kept _ known := List.mem_append_left _ known
  new m known := (mem_attach known).imp id fun copied =>
    ⟨copied.2.2.1, copied.2.2.2.1⟩
  next := Nat.le_add_right _ _
  hangs _ hangs := hangs.attach sound inside fun never => by cases never

private theorem Extends.graft
    {top : Nat}
    (sound : t.Sound)
    (isPrivate : t.Private space) :
    Extends space made t (RootWorld.graft space top made t id) := by
  unfold RootWorld.graft
  split
  · rename_i source on isSource isTop
    split
    · rename_i own
      obtain ⟨inside, _⟩ := find_eq_some isSource
      obtain ⟨inside', _⟩ := find_eq_some isTop
      exact .attach sound isPrivate inside' own.2
        (isPrivate source inside own.1)
    · exact .refl sound isPrivate
  · exact .refl sound isPrivate

private theorem Extends.grafts
    {top : Nat}
    (ids : List Nat) :
    ∀ {t : MountTable MountCall}, t.Sound → t.Private space →
      Extends space made t (ids.foldl (RootWorld.graft space top made) t) := by
  induction ids with
  | nil => exact fun sound isPrivate => .refl sound isPrivate
  | cons id ids inductionHypothesis =>
      intro t sound isPrivate
      have one : Extends space made t (RootWorld.graft space top made t id) :=
        .graft sound isPrivate
      exact one.trans (inductionHypothesis one.sound one.isPrivate)

private theorem Tagged.extend
    (tagged : t.Tagged space id)
    (extended : Extends space made t t') :
    t'.Tagged space id := by
  obtain ⟨m, inside, isMade⟩ := tagged
  exact ⟨m, extended.kept m inside, isMade⟩

end MountTable

/-! ## What holds in each stage -/

namespace RootWorld

open MountTable RootSetup Volumes

/-- The mounts of the namespaces, as far as `setup` is. -/
structure Held (cfg : ContainerConfig) (stage : Stage) (w : RootWorld) : Prop where
  sound : w.table.Sound
  made : ∀ m ∈ w.table.mounts, ∀ made, m.tag = some made →
    Makes (boundBefore cfg ++ boundAfter cfg) made
  untouched : stage = .shared → w.settled = [] ∧
    ∀ m ∈ w.table.mounts, m.space = w.space → m.tag = none
  isPrivate : stage ≠ .shared → w.table.Private w.space
  hangs : stage ≠ .detached → w.table.Hangs w.space (w.stacked.getD w.root)
  oldRoot : stage ≠ .detached → w.stacked.getD w.root < w.table.next ∧
    ∀ m ∈ w.table.mounts, m.id = w.stacked.getD w.root → m.space = w.space
  stacked : w.stacked = none ↔ stage ≠ .pivoted
  settled : stage = .isolated ∨ stage = .bound →
    ∀ path ∈ w.settled, w.table.Tagged w.space (w.names path)
  bound : stage = .bound → cfg.rootfs ∈ w.settled
  atRoot : stage = .atRoot →
    w.cwd = w.root ∨ w.table.Tagged w.space w.cwd
  detached : stage = .detached →
    ∀ m ∈ w.table.mounts, m.space = w.space → m.tag ≠ none

variable {cfg : ContainerConfig} {stage : Stage} {w w' : RootWorld}

private theorem own_eq_some
    {id : Nat}
    {m : Mount MountCall}
    (found : w.own id = some m) :
    m ∈ w.table.mounts ∧ m.id = id ∧ m.space = w.space := by
  obtain ⟨isMount, own⟩ := Option.filter_eq_some_iff.mp found
  obtain ⟨inside, same⟩ := find_eq_some isMount
  exact ⟨inside, same, of_decide_eq_true own⟩

private theorem makes_mono
    {paths paths' : List String}
    {made : MountCall}
    (more : ∀ path ∈ paths, path ∈ paths')
    (makes : Makes paths made) :
    Makes paths' made := by
  obtain ⟨notRemount, notPrivate, how⟩ := makes
  refine ⟨notRemount, notPrivate, how.imp id ?_⟩
  rintro ⟨binds, path, known, same⟩
  exact ⟨binds, path, more path known, same⟩

/-- A successful call that is no remount and no change of propagation. -/
theorem mounted_extends
    {paths : List String}
    {made : MountCall}
    {target : String}
    (sound : w.table.Sound)
    (isPrivate : w.table.Private w.space)
    (makes : Makes paths made)
    (answered : w.mounted made target = some w') :
    ∃ t', w' = w.settle target t' ∧ Extends w.space made w.table t' ∧
      t'.Tagged w.space w.table.next := by
  obtain ⟨notRemount, notPrivate, _⟩ := makes
  unfold mounted at answered
  split at answered
  · cases answered
  · rename_i d isOwn
    obtain ⟨inside, _, own⟩ := own_eq_some isOwn
    have alone := isPrivate d inside own
    have onTop : ∀ shared : Option Nat,
        (w.table.attach d shared (some made)).Tagged w.space w.table.next := by
      intro shared
      obtain ⟨m, isNew, number, place, tag⟩ :
          ∃ m ∈ (w.table.attach d shared (some made)).mounts,
            m.id = w.table.next ∧ m.space = d.space ∧ m.tag = some made :=
        exists_attach alone
      exact ⟨m, isNew, number, place.trans own, by simp [tag]⟩
    rw [if_neg (not_not_intro notRemount), if_neg (not_not_intro notPrivate)]
      at answered
    split at answered
    · split at answered
      · cases answered
      · rename_i path isPath
        split at answered
        · cases answered
        · rename_i source isSource
          obtain ⟨inside', _, own'⟩ := own_eq_some isSource
          have unshared := isPrivate source inside' own'
          have top : Extends w.space made w.table
              (w.table.attach d source.shared (some made)) :=
            .attach sound isPrivate inside own unshared
          cases answered
          split
          · have more : Extends w.space made _
                ((w.below path).foldl (graft w.space w.table.next made) _) :=
              .grafts (w.below path) top.sound top.isPrivate
            exact ⟨_, rfl, top.trans more, (onTop _).extend more⟩
          · exact ⟨_, rfl, top, onTop _⟩
    · cases answered
      exact ⟨_, rfl, .attach sound isPrivate inside own rfl, onTop _⟩

namespace Held

/-- A mount on a path. -/
theorem settle
    {made : MountCall}
    {target : String}
    {t' : MountTable MountCall}
    (held : Held cfg stage w)
    (inStage : stage = .isolated ∨ stage.Furnishes)
    (makes : Makes (boundBefore cfg ++ boundAfter cfg) made)
    (extended : Extends w.space made w.table t')
    (top : t'.Tagged w.space w.table.next) :
    Held cfg stage (w.settle target t') where
  sound := extended.sound
  made m inside made' tagged := by
    rcases extended.new m inside with before | ⟨tagged', _⟩
    · exact held.made m before made' tagged
    · obtain rfl := Option.some.inj (tagged'.symm.trans tagged)
      exact makes
  untouched isShared := by
    subst isShared
    rcases inStage with never | never | never <;> cases never
  isPrivate _ := extended.isPrivate
  hangs inside := extended.hangs _ (held.hangs inside)
  oldRoot inside := by
    obtain ⟨known, own⟩ := held.oldRoot inside
    refine ⟨Nat.lt_of_lt_of_le known extended.next, ?_⟩
    intro m isMount same
    rcases extended.new m isMount with before | ⟨_, late⟩
    · exact own m before same
    · have number : m.id = w.stacked.getD w.root := same
      omega
  stacked := held.stacked
  settled early path member := by
    by_cases same : path = target
    · rw [same]
      simpa [RootWorld.settle] using top
    · have known : path ∈ w.settled := by
        simpa [RootWorld.settle, same] using member
      have tagged := (held.settled early path known).extend extended
      simpa [RootWorld.settle, Function.update_of_ne same] using tagged
  bound isBound := List.mem_cons_of_mem _ (held.bound isBound)
  atRoot isAtRoot := by
    subst isAtRoot
    rcases inStage with never | never | never <;> cases never
  detached isDetached m inside own := by
    rcases extended.new m inside with before | ⟨tagged, _⟩
    · exact held.detached isDetached m before own
    · simp [tagged]

/-- The end of the propagation. -/
theorem privatise
    (held : Held cfg .shared w) :
    Held cfg .isolated { w with table := w.table.privatise w.space } where
  sound := held.sound.privatise
  made m inside := by
    obtain ⟨m', isMount, _, _, _, sameTag⟩ := mem_privatise inside
    exact sameTag ▸ held.made m' isMount
  untouched never := by cases never
  isPrivate _ := private_privatise
  hangs _ := (held.hangs (by decide)).privatise
  oldRoot _ := by
    obtain ⟨known, own⟩ := held.oldRoot (by decide)
    refine ⟨known, ?_⟩
    intro m inside same
    obtain ⟨m', isMount, sameId, sameSpace, _⟩ := mem_privatise inside
    exact sameSpace.trans (own m' isMount (sameId.symm.trans same))
  stacked := by simp [held.stacked.mpr (by decide)]
  settled _ path member := by
    rw [(held.untouched rfl).1] at member
    cases member
  bound never := by cases never
  atRoot never := by cases never
  detached never := by cases never

/-- The rootfs is a mount. -/
theorem bind
    (held : Held cfg .isolated w)
    (settled : cfg.rootfs ∈ w.settled) :
    Held cfg .bound w where
  sound := held.sound
  made := held.made
  untouched never := by cases never
  isPrivate _ := held.isPrivate (by decide)
  hangs _ := held.hangs (by decide)
  oldRoot _ := held.oldRoot (by decide)
  stacked := by simp [held.stacked.mpr (by decide)]
  settled _ := held.settled (.inl rfl)
  bound _ := settled
  atRoot never := by cases never
  detached never := by cases never

/-- The working directory is the rootfs. -/
theorem enter
    {id : Nat}
    (held : Held cfg .bound w)
    (there : id = w.root ∨ w.table.Tagged w.space id) :
    Held cfg .atRoot { w with cwd := id } where
  sound := held.sound
  made := held.made
  untouched never := by cases never
  isPrivate _ := held.isPrivate (by decide)
  hangs _ := held.hangs (by decide)
  oldRoot _ := held.oldRoot (by decide)
  stacked := by simp [held.stacked.mpr (by decide)]
  settled never := by rcases never with never | never <;> cases never
  bound never := by cases never
  atRoot _ := there
  detached never := by cases never

/-- Changing to the rootfs. -/
theorem changeTo
    {told : RootAns (.chdir cfg.rootfs)}
    (held : Held cfg .bound w)
    (fine : told = .ok ())
    (answered : w.answer (.chdir cfg.rootfs) told = some w') :
    Held cfg .atRoot w' ∧
      w'.table.others w.space = w.table.others w.space := by
  subst fine
  simp only [RootWorld.answer] at answered
  split at answered
  · cases answered
    exact ⟨held.enter (.inl rfl), rfl⟩
  · obtain ⟨m, isOwn, rfl⟩ := Option.map_eq_some_iff.mp answered
    obtain ⟨_, number, _⟩ := own_eq_some isOwn
    have tagged := held.settled (.inr rfl) cfg.rootfs (held.bound rfl)
    exact ⟨held.enter (.inr (number ▸ tagged)), rfl⟩

/-- A mount that is allowed. -/
theorem mounted
    {made : MountCall}
    {target : String}
    (held : Held cfg stage w)
    (allowed : stage.Mounts cfg made target)
    (answered : w.mounted made target = some w') :
    (stage = .shared ∧ Held cfg .isolated w' ∨
      stage = .isolated ∧ Held cfg .bound w' ∨
      stage.Furnishes ∧ Held cfg stage w') ∧
      w'.table.others w.space = w.table.others w.space := by
  have furnished : stage.Furnishes →
      Makes (stage.binds cfg) made ∨ made.flags &&& msRemount ≠ 0 →
      Held cfg stage w' ∧
        w'.table.others w.space = w.table.others w.space := by
    intro furnishes allowed
    rcases allowed with makes | remount
    · have notShared : stage ≠ .shared := by
        rcases furnishes with rfl | rfl <;> decide
      have among : Makes (boundBefore cfg ++ boundAfter cfg) made := by
        refine makes_mono (fun path known => ?_) makes
        rcases furnishes with rfl | rfl
        · exact List.mem_append_left _ known
        · exact List.mem_append_right _ known
      obtain ⟨t', rfl, extended, top⟩ :=
        mounted_extends held.sound (held.isPrivate notShared) among answered
      exact ⟨held.settle (.inr furnishes) among extended top, extended.others⟩
    · unfold RootWorld.mounted at answered
      split at answered
      · cases answered
      · rw [if_pos remount] at answered
        cases answered
        exact ⟨held, rfl⟩
  cases stage with
  | shared =>
      obtain ⟨rfl, isRprivate⟩ := allowed
      unfold RootWorld.mounted at answered
      split at answered
      · cases answered
      · simp only [isRprivate] at answered
        rw [if_neg (by decide), if_pos (by decide), if_pos (by decide)] at answered
        cases answered
        exact ⟨.inl ⟨rfl, held.privatise⟩, others_privatise⟩
  | isolated =>
      obtain ⟨rfl, rfl⟩ := allowed
      have known : cfg.rootfs ∈ Stage.binds cfg .bound := List.mem_cons_self
      have among : Makes (boundBefore cfg ++ boundAfter cfg)
          ⟨some cfg.rootfs, none, msBind ||| msRec⟩ :=
        makes_mono (fun _ known => List.mem_append_left _ known)
          (Stage.makes_bind known (.inr rfl))
      obtain ⟨t', rfl, extended, top⟩ :=
        mounted_extends held.sound (held.isPrivate (by decide)) among answered
      have settled : Held cfg .isolated (w.settle cfg.rootfs t') :=
        held.settle (.inl rfl) among extended top
      exact ⟨.inr (.inl ⟨rfl, settled.bind List.mem_cons_self⟩), extended.others⟩
  | bound =>
      have after := furnished allowed.1 allowed.2
      exact ⟨.inr (.inr ⟨allowed.1, after.1⟩), after.2⟩
  | detached =>
      have after := furnished allowed.1 allowed.2
      exact ⟨.inr (.inr ⟨allowed.1, after.1⟩), after.2⟩
  | atRoot =>
      rcases allowed.1 with never | never <;> cases never
  | pivoted =>
      rcases allowed.1 with never | never <;> cases never

/-- The pivot. -/
theorem pivot
    (held : Held cfg .atRoot w)
    (answered : w.pivoted = some w') :
    Held cfg .pivoted w' ∧
      w'.table.others w.space = w.table.others w.space := by
  unfold RootWorld.pivoted at answered
  split at answered
  · rename_i new old isNew isOld
    split at answered
    · rename_i possible
      obtain ⟨insideNew, numberNew, ownNew⟩ := own_eq_some isNew
      obtain ⟨insideOld, numberOld, ownOld⟩ := own_eq_some isOld
      obtain ⟨m, isMount, number, place, tagged⟩ :=
        (held.atRoot rfl).resolve_left fun same =>
          possible.1 (by rw [numberNew, numberOld, same])
      obtain rfl := held.sound.eq_of_id isMount insideNew
        (number.trans numberNew.symm)
      have unstacked := held.stacked.mpr (by decide)
      have roots : w.table.Roots w.space old.id m.id := {
        root := fun m inside same =>
          held.sound.eq_of_id inside insideOld same ▸ ownOld
        new := ⟨m, isMount, rfl, place, tagged⟩ }
      have hangs := held.hangs (by decide)
      rw [unstacked, Option.getD_none, ← numberOld] at hangs
      cases answered
      exact ⟨{
        sound := held.sound.pivot roots
        made := by
          intro m inside
          obtain ⟨m', isMount, _, _, sameTag⟩ := mem_pivot inside
          exact sameTag ▸ held.made m' isMount
        untouched := fun never => by cases never
        isPrivate := fun _ => (held.isPrivate (by decide)).pivot
        hangs := fun _ => hangs.pivot held.sound roots
        oldRoot := fun _ => by
          refine ⟨held.sound.fresh old insideOld, ?_⟩
          intro m inside same
          obtain ⟨m', isMount, sameId, sameSpace, _⟩ := mem_pivot inside
          exact sameSpace.trans
            (roots.root m' isMount (sameId.symm.trans same))
        stacked := by simp
        settled := fun never => by rcases never with never | never <;> cases never
        bound := fun never => by cases never
        atRoot := fun never => by cases never
        detached := fun never => by cases never },
        others_pivot held.sound roots⟩
    · cases answered
  · cases answered

/-- The end of the old root. -/
theorem unmount
    (held : Held cfg .pivoted w)
    {m : Mount MountCall}
    (isOld : w.own (w.stacked.getD w.cwd) = some m) :
    Held cfg .detached
        { w with
          table := w.table.detach (w.table.victims m)
          stacked := none } ∧
      (w.table.detach (w.table.victims m)).others w.space =
        w.table.others w.space := by
  obtain ⟨inside, number, own⟩ := own_eq_some isOld
  have isPrivate := held.isPrivate (by decide)
  obtain ⟨old, isStacked⟩ :=
    Option.ne_none_iff_exists'.mp fun none => held.stacked.mp none rfl
  have alone := victims_of_private held.sound isPrivate inside own
  have hangs := held.hangs (by decide)
  rw [isStacked, Option.getD_some] at number hangs
  refine ⟨?_, others_detach held.sound ?_⟩
  · exact {
      sound := held.sound.detach
      made := fun m inside => held.made m (mem_detach.mp inside).1
      untouched := fun never => by cases never
      isPrivate := fun _ => isPrivate.detach
      hangs := fun never => absurd rfl never
      oldRoot := fun never => absurd rfl never
      stacked := by simp
      settled := fun never => by rcases never with never | never <;> cases never
      bound := fun never => by cases never
      atRoot := fun never => by cases never
      detached := fun _ m' left own' =>
        hangs.tagged_of_detach held.sound (by simp [alone, number]) left own' }
  · intro m' inside' isVictim
    rw [alone, List.mem_singleton] at isVictim
    exact held.sound.eq_of_id inside' inside isVictim ▸ own

/-- An operation of `setup`. -/
theorem answer
    {op : RootOp}
    {told : RootAns op}
    (held : Held cfg stage w)
    (allowed : stage.Allows cfg op)
    (answered : w.answer op told = some w') :
    Held cfg (stage.after op told) w' ∧
      w'.table.others w.space = w.table.others w.space := by
  have same : ∀ {op : RootOp} {told : RootAns op}, stage.after op told = stage →
      some w = some w' →
      Held cfg (stage.after op told) w' ∧
        w'.table.others w.space = w.table.others w.space := by
    intro op told still kept
    cases kept
    rw [still]
    exact ⟨held, rfl⟩
  cases op with
  | volume op =>
      cases op with
      | mount source target fstype flags =>
          cases told with
          | error e => exact same (by cases stage <;> rfl) answered
          | ok _ =>
              obtain ⟨whichever, others⟩ := held.mounted allowed.2 answered
              refine ⟨?_, others⟩
              rcases whichever with ⟨isShared, _⟩ | ⟨rfl, after⟩ | ⟨rfl | rfl, after⟩
              · exact absurd isShared allowed.1
              · exact after
              · exact after
              · exact after
      | metadata | mkdir | touch =>
          exact same (by cases stage <;> rfl) answered
  | mount source target fstype flags data =>
      cases told with
      | error e => exact same (by cases stage <;> rfl) answered
      | ok _ =>
          obtain ⟨whichever, others⟩ := held.mounted allowed.2 answered
          refine ⟨?_, others⟩
          rcases whichever with ⟨rfl, after⟩ | ⟨isIsolated, _⟩ | ⟨rfl | rfl, after⟩
          · exact after
          · exact absurd isIsolated allowed.1
          · exact after
          · exact after
  | chdir path =>
      cases told with
      | error e => exact same (by cases stage <;> rfl) answered
      | ok _ =>
          rcases allowed with ⟨rfl, rfl⟩ | rfl
          · exact held.changeTo rfl answered
          · obtain ⟨id, rfl⟩ : ∃ id, { w with cwd := id } = w' := by
              simp only [RootWorld.answer] at answered
              split at answered
              · exact ⟨_, Option.some.inj answered⟩
              · obtain ⟨m, _, rfl⟩ := Option.map_eq_some_iff.mp answered
                exact ⟨_, rfl⟩
            exact ⟨{ held with atRoot := fun never => by cases never }, rfl⟩
  | pivotRoot new old =>
      cases told with
      | error e => exact same (by cases stage <;> rfl) answered
      | ok _ =>
          cases (allowed : stage = .atRoot)
          exact held.pivot answered
  | umount target flags =>
      cases told with
      | error e => exact same (by cases stage <;> rfl) answered
      | ok _ =>
          cases (allowed : stage = .pivoted)
          obtain ⟨m, isOld, rfl⟩ := Option.map_eq_some_iff.mp answered
          exact held.unmount isOld
  | mknod | pathExists | isDirectory | removeFile | symlink | fault =>
      exact same (by cases stage <;> rfl) answered

/-- Mounts that others change, when none of them is in a private namespace. -/
theorem elsewhere
    {t' : MountTable MountCall}
    (held : Held cfg stage w)
    (sound : t'.Sound)
    (next : w.table.next ≤ t'.next)
    (known : ∀ m ∈ t'.mounts, m ∈ w.table.mounts ∨
      m.tag = none ∧ w.table.next ≤ m.id ∧ (stage ≠ .shared → m.space ≠ w.space))
    (kept : stage ≠ .shared → ∀ m ∈ w.table.mounts, m.space = w.space →
      m ∈ t'.mounts)
    (hangs : ∀ root, w.table.Hangs w.space root → t'.Hangs w.space root) :
    Held cfg stage { w with table := t' } := by
  have tagged : stage ≠ .shared → ∀ {id}, w.table.Tagged w.space id →
      t'.Tagged w.space id := by
    rintro late id ⟨m, inside, number, own, isMade⟩
    exact ⟨m, kept late m inside own, number, own, isMade⟩
  exact {
    sound
    made := by
      intro m inside made isMade
      rcases known m inside with before | ⟨untagged, _⟩
      · exact held.made m before made isMade
      · cases untagged.symm.trans isMade
    untouched := by
      intro isShared
      obtain ⟨unsettled, found⟩ := held.untouched isShared
      refine ⟨unsettled, fun m inside own => ?_⟩
      rcases known m inside with before | ⟨untagged, _⟩
      · exact found m before own
      · exact untagged
    isPrivate := by
      intro late m inside own
      rcases known m inside with before | ⟨_, _, other⟩
      · exact held.isPrivate late m before own
      · exact absurd own (other late)
    hangs := fun early => hangs _ (held.hangs early)
    oldRoot := by
      intro early
      obtain ⟨older, own⟩ := held.oldRoot early
      refine ⟨Nat.lt_of_lt_of_le older next, fun m inside same => ?_⟩
      rcases known m inside with before | ⟨_, late, _⟩
      · exact own m before same
      · have number : m.id = w.stacked.getD w.root := same
        omega
    stacked := held.stacked
    settled := by
      intro early path member
      refine tagged ?_ (held.settled early path member)
      rintro rfl
      rcases early with never | never <;> cases never
    bound := held.bound
    atRoot := by
      intro isAtRoot
      refine (held.atRoot isAtRoot).imp id (tagged ?_)
      rw [isAtRoot]
      decide
    detached := by
      intro isDetached m inside own
      rcases known m inside with before | ⟨_, _, other⟩
      · exact held.detached isDetached m before own
      · exact absurd own (other (by rw [isDetached]; decide)) }

/-- What others do. -/
theorem happen
    {what : RootHappening}
    (held : Held cfg stage w)
    (happened : w.happen what = some w') :
    Held cfg stage w' := by
  cases what with
  | mount on shared =>
      obtain ⟨d, isMount, happened⟩ := Option.bind_eq_some_iff.mp happened
      obtain ⟨inside, _⟩ := find_eq_some isMount
      split at happened
      · rename_i other
        cases happened
        have apart : stage ≠ .shared →
            ∀ r ∈ w.table.receivers d, r.space ≠ w.space :=
          fun late => receivers_apart (held.isPrivate late) inside other
        refine held.elsewhere (held.sound.attach inside) (Nat.le_add_right _ _)
          ?_ (fun _ m known _ => List.mem_append_left _ known) ?_
        · intro m known
          refine (mem_attach known).imp id ?_
          rintro ⟨⟨r, received, place, _⟩, _, untagged, late, _⟩
          exact ⟨untagged, late, fun isLate => place ▸ apart isLate r received⟩
        · intro root hangs
          refine hangs.attach held.sound inside fun _ r received own => ?_
          by_cases isShared : stage = .shared
          · exact (held.untouched isShared).2 r
              (receivers_subset inside r received) own
          · exact absurd own (apart isShared r received)
      · cases happened
  | umount id =>
      obtain ⟨d, isMount, happened⟩ := Option.bind_eq_some_iff.mp happened
      obtain ⟨inside, _⟩ := find_eq_some isMount
      split at happened
      · rename_i other
        cases happened
        refine held.elsewhere held.sound.detach (Nat.le_refl _)
          (fun m left => .inl (mem_detach.mp left).1) ?_
          fun root hangs => hangs.detach held.sound
        intro late m inside' own
        exact mem_detach_of_apart (P := fun space => space ≠ w.space) held.sound
          (fun m' isMount' isVictim => victims_apart held.sound
            (held.isPrivate late) inside other isMount' isVictim)
          inside' (not_not_intro own)
      · cases happened
  | rename path id below =>
      simp only [RootWorld.happen] at happened
      split at happened
      · rename_i safe
        cases happened
        refine { held with settled := ?_ }
        intro early path' member
        by_cases same : path' = path
        · subst same
          obtain ⟨m, isOwn, isMade⟩ :=
            (Option.any_eq_true _ _).mp (safe member)
          obtain ⟨inside, number, own⟩ := own_eq_some isOwn
          refine ⟨m, inside, ?_, own, by simpa [Option.isSome_iff_ne_none] using isMade⟩
          simpa using number
        · simpa [Function.update_of_ne same] using
            held.settled early path' member
      · cases happened

end Held

end RootWorld

/-! ## Runs -/

namespace RootSetup

open Prog MountTable RootWorld

/-- The process has the mounts that it was cloned with, below its root, and has
made none. -/
structure Begins (cfg : ContainerConfig) (start : rootSystem.Config) : Prop where
  process : start.process () = some (setup cfg).run
  sound : start.world.table.Sound
  untagged : ∀ m ∈ start.world.table.mounts, m.tag = none
  root : ∃ m ∈ start.world.table.mounts,
    m.id = start.world.root ∧ m.space = start.world.space
  hangs : start.world.table.Hangs start.world.space start.world.root
  stacked : start.world.stacked = none
  settled : start.world.settled = []

variable {cfg : ContainerConfig} {start c c' : rootSystem.Config}
  {past : List rootSystem.Event}

private theorem Begins.held
    (begins : Begins cfg start) :
    Held cfg .shared start.world where
  sound := begins.sound
  made m inside made tagged := by
    cases (begins.untagged m inside).symm.trans tagged
  untouched _ := ⟨begins.settled, fun m inside _ => begins.untagged m inside⟩
  isPrivate never := absurd rfl never
  hangs _ := by
    rw [begins.stacked]
    exact begins.hangs
  oldRoot _ := by
    obtain ⟨root, inside, number, own⟩ := begins.root
    rw [begins.stacked, Option.getD_none, ← number]
    refine ⟨begins.sound.fresh root inside, fun m inside' same => ?_⟩
    exact begins.sound.eq_of_id inside' inside same ▸ own
  stacked := by simp [begins.stacked]
  settled never := by rcases never with never | never <;> cases never
  bound never := by cases never
  atRoot never := by cases never
  detached never := by cases never

/-- How far `setup` is after a run. -/
def stageOf (cfg : ContainerConfig) (past : List rootSystem.Event) : Stage :=
  System.views (conduct cfg) (fun _ _ => .shared) (fun _ => .shared) past ()

private theorem Begins.disciplined
    (begins : Begins cfg start) :
    System.Disciplined (conduct cfg) (fun _ _ => .shared) (fun _ => .shared)
      (fun _ _ _ => True) start where
  initially pid p running := by
    obtain rfl := Option.some.inj (begins.process.symm.trans running)
    have follows : (setup cfg).wp (conduct cfg).contract .shared
        (fun _ stage => stage = .detached) fun _ _ => True := wp_setup
    exact wp_mono (fun _ _ _ => trivial) follows
  started _ _ _ _ never := by cases never
  answers _ _ _ _ _ _ _ _ := trivial

/-- In every run, the mounts are as the stage of `setup` has them. -/
theorem run_held
    (begins : Begins cfg start)
    (run : System.Run (fun _ _ _ => True) start past c) :
    Held cfg (stageOf cfg past) c.world := by
  refine @System.Run.invariant _ _ _ _ _
    (fun past c => Held cfg (stageOf cfg past) c.world) begins.held ?_ _ _ run
  intro past c c' event run held step _
  cases step with
  | call ready answered unused =>
      have allowed := run.requires begins.disciplined (.call ready answered unused)
      exact (held.answer allowed answered).1
  | happen happened => exact held.happen happened
  | kill alive => exact held

/-! ## A run -/

/-- A container on a host with one mount, which propagates. -/
def small : ContainerConfig :=
  { rootfs := "/box" }

def cloned : rootSystem.Config :=
  System.Config.solo
    { table := {
        mounts := [⟨0, 0, none, some 0, 0, none⟩, ⟨1, 1, none, some 0, 0, none⟩]
        next := 2 }
      space := 1
      root := 1
      cwd := 1
      stacked := none
      names := fun _ => 1
      below := fun _ => []
      settled := [] }
    () (setup small).run

private theorem cloned_begins : Begins small cloned where
  process := by simp [cloned, System.Config.solo]
  sound := {
    ordered := by decide
    fresh := by decide
    parents := by decide
    spaces := by decide }
  untagged := by decide
  root := by decide
  hangs := by simp [Hangs, cloned, System.Config.solo]
  stacked := rfl
  settled := rfl

/-- The answers when nothing fails and the paths to seal are missing. -/
def usual (_ : RootWorld) : (op : RootOp) → Option (RootAns op)
  | .volume (.metadata _) => some (.ok true)
  | .volume (.mkdir _ _) => some (.ok ())
  | .volume (.touch _) => some (.ok ())
  | .volume (.mount _ _ _ _) => some (.ok ())
  | .mount _ _ _ _ _ => some (.ok ())
  | .mknod _ _ _ _ => some (.ok ())
  | .pathExists _ => some false
  | .isDirectory _ => some none
  | .removeFile _ => some (.ok ())
  | .symlink _ _ => some (.ok ())
  | .chdir _ => some (.ok ())
  | .pivotRoot _ _ => some (.ok ())
  | .umount _ _ => some (.ok ())
  | .fault _ => some (.ok ())

/-- The rootfs is mounted, after the host has mounted something. -/
def opening : List (System.Turn rootSystem) :=
  .happen (.mount 0 none) :: List.replicate 2 (.go () usual)

/-- The rest: what is below a mount leads to it. -/
def closing : List (System.Turn rootSystem) :=
  (["proc", "sys", "dev", "tmp"].map fun name =>
    .happen (.rename ("/box/" ++ name) 4 [])) ++
  List.replicate 9 (.go () usual) ++
  (["pts", "shm", "mqueue"].map fun name =>
    .happen (.rename ("/box/dev/" ++ name) 7 [])) ++
  List.replicate 53 (.go () usual) ++ [.happen (.mount 0 none)]

/-- The process has returned without an error. -/
def Returned (c : rootSystem.Config) : Bool :=
  (c.process ()).any fun
    | .ret (.ok ()) => true
    | _ => false

/--
`setup` changes no mount of another namespace, in no run and by no operation: not
before its own mounts are private, and whatever fails.
-/
theorem others_are_unaffected
    (begins : Begins cfg start)
    (run : System.Run (fun _ _ _ => True) start past c)
    {op : RootOp}
    {answer : RootAns op}
    (step : System.Step c (.call () op answer) c') :
    c'.world.table.others c.world.space =
      c.world.table.others c.world.space := by
  have allowed := run.requires begins.disciplined step
  exact ((run_held begins run).answer allowed step.call_inv.2.1).2

/-- The mount of the rootfs is not seen on the host. -/
theorem rootfs_is_unseen :
    ∃ past c op answer c',
      System.Run (fun _ _ _ => True) cloned past c ∧
        System.Step c (.call () op answer) c' ∧
        c'.world.table.next ≠ c.world.table.next ∧
        c'.world.table.others c.world.space =
          c.world.table.others c.world.space := by
  have replayed : ((cloned.play [] opening.dropLast).any fun reached =>
      (reached.2.turn (.go () usual)).any fun taken =>
        taken.2.world.table.next ≠ reached.2.world.table.next) = true := by
    decide +kernel
  obtain ⟨⟨past, c⟩, played, next⟩ := (Option.any_eq_true _ _).mp replayed
  obtain ⟨⟨event, c'⟩, taken, more⟩ := (Option.any_eq_true _ _).mp next
  have run := System.Config.run_of_play_start played
  obtain ⟨op, answer, step⟩ := System.Config.call_of_turn taken
  exact ⟨past, c, op, answer, c', run, step, of_decide_eq_true more,
    others_are_unaffected cloned_begins run step⟩

/--
When `setup` has succeeded, every mount of its namespace is one that it made: a
new file system, or a bind of the rootfs, of `/sys`, of a device, of a volume or
of a sealed path. Nothing that was there before, or that others have mounted
since, is left.
-/
theorem only_made_is_left
    (begins : Begins cfg start)
    (run : System.Run (fun _ _ _ => True) start past c)
    (done : c.process () = some (.ret (.ok ()))) :
    ∀ m ∈ c.world.table.mounts, m.space = c.world.space →
      ∃ made, m.tag = some made ∧
        Makes (boundBefore cfg ++ boundAfter cfg) made := by
  have initially : ∀ p, start.process () = some p →
      p.wp (conduct cfg).contract .shared
        (Fallible.onResult (fun _ stage => stage = .detached) fun _ _ => True) := by
    intro p running
    obtain rfl := Option.some.inj (begins.process.symm.trans running)
    exact wp_setup
  have isDetached : stageOf cfg past = .detached :=
    run.establishes (conduct cfg) (fun _ _ => .shared) (fun _ => .shared)
      (fun _ _ _ never => by cases never) (fun _ _ _ _ _ _ _ => trivial)
      initially _ done
  have held := run_held begins run
  intro m inside own
  obtain ⟨made, tagged⟩ :=
    Option.ne_none_iff_exists'.mp (held.detached isDetached m inside own)
  exact ⟨made, tagged, held.made m inside made tagged⟩

/-- All eight mounts that are left are `setup`'s. -/
theorem eight_are_left :
    ∃ past c, System.Run (fun _ _ _ => True) cloned past c ∧
      (c.world.table.mounts.filter fun m => m.space = c.world.space).length = 8 ∧
      ∀ m ∈ c.world.table.mounts, m.space = c.world.space →
        ∃ made, m.tag = some made ∧
          Makes (boundBefore small ++ boundAfter small) made := by
  have replayed : ((cloned.play [] (opening ++ closing)).any fun reached =>
      Returned reached.2 &&
        (reached.2.world.table.mounts.filter fun m =>
          m.space = reached.2.world.space).length = 8) = true := by
    decide +kernel
  obtain ⟨⟨past, c⟩, played, ends⟩ := (Option.any_eq_true _ _).mp replayed
  obtain ⟨returned, count⟩ := (Bool.and_eq_true _ _).mp ends
  have run := System.Config.run_of_play_start played
  refine ⟨past, c, run, of_decide_eq_true count,
    only_made_is_left cloned_begins run ?_⟩
  obtain ⟨p, running, isReturn⟩ := (Option.any_eq_true _ _).mp returned
  split at isReturn
  · exact running
  · cases isReturn

end RootSetup

end Myrun
