import Mathlib.Data.List.Induction
import Mathlib.Data.List.Nodup
import Mathlib.Order.Basic

namespace Myrun

/-!
# Mounts of several namespaces

Mounts form one tree for each namespace. Mounts that share a peer group receive
what is mounted on one of them, so a change in one namespace can appear in
others; private mounts keep it to themselves. This module is independent of any
particular program.

Identifiers count up, and the table is in their order.
-/

/-- A mount, with what its maker says of it; mounts that were found there have
no tag. -/
structure Mount (Tag : Type) where
  id : Nat
  space : Nat
  parent : Option Nat
  /-- its peer group -/
  shared : Option Nat
  /-- copies of one mounting have one number -/
  copy : Nat
  tag : Option Tag

/-- The mounts of all namespaces, oldest first. -/
structure MountTable (Tag : Type) where
  mounts : List (Mount Tag)
  next : Nat

namespace MountTable

variable {Tag : Type}

/-- The mount with an identifier. -/
def find (t : MountTable Tag) (id : Nat) : Option (Mount Tag) :=
  t.mounts.find? fun m => m.id = id

/-- Where a mount on `d` appears: there, and on the other peers of `d`. -/
def receivers (t : MountTable Tag) (d : Mount Tag) : List (Mount Tag) :=
  match d.shared with
  | none => [d]
  | some group =>
      d :: t.mounts.filter fun m => m.shared = some group ∧ m.id ≠ d.id

/-- One mount on each of these, with identifiers from `id` on. -/
def copies (copy : Nat) (shared : Option Nat) (tag : Option Tag) :
    Nat → List (Mount Tag) → List (Mount Tag)
  | _, [] => []
  | id, r :: rest =>
      { id, space := r.space, parent := some r.id, shared, copy, tag } ::
        copies copy shared tag (id + 1) rest

/-- The peer group of what is mounted on `d`, given the group it is from. What is
mounted on a shared mount is shared: with what it is from, or in a new group. -/
def joined (t : MountTable Tag) (d : Mount Tag) (shared : Option Nat) :
    Option Nat :=
  if d.shared.isSome then some (shared.getD t.next) else shared

/-- Mount on `d`. The new mount on `d` itself has the next identifier. -/
def attach (t : MountTable Tag) (d : Mount Tag) (shared : Option Nat)
    (tag : Option Tag) : MountTable Tag where
  mounts := t.mounts ++
    copies t.next (t.joined d shared) tag t.next (t.receivers d)
  next := t.next + (t.receivers d).length

/-- The mounts that go with the victims: those below them. -/
def gone (victims : List Nat) (mounts : List (Mount Tag)) : List Nat :=
  mounts.foldl
    (fun below m =>
      if m.id ∈ victims ∨ ∃ p ∈ below, m.parent = some p then m.id :: below
      else below)
    []

/-- Remove the victims and all below them. -/
def detach (t : MountTable Tag) (victims : List Nat) : MountTable Tag :=
  { t with mounts := t.mounts.filter fun m => m.id ∉ gone victims t.mounts }

/-- The group of the mount that a mount is on. -/
def parentGroup (t : MountTable Tag) (m : Mount Tag) : Option Nat :=
  (m.parent.bind t.find).bind Mount.shared

/-- What an unmount of `m` takes: `m`, and its copies on the peers of the mount
it is on. -/
def victims (t : MountTable Tag) (m : Mount Tag) : List Nat :=
  match t.parentGroup m with
  | none => [m.id]
  | some group =>
      m.id :: (t.mounts.filter fun other =>
        other.copy = m.copy ∧ t.parentGroup other = some group).map Mount.id

/-- Leave all peer groups. -/
def privatise (t : MountTable Tag) (space : Nat) : MountTable Tag :=
  { t with mounts := t.mounts.map fun m =>
      if m.space = space then { m with shared := none } else m }

/-- `new` becomes the root, and the old root is put on it. -/
def pivot (t : MountTable Tag) (root new : Nat) : MountTable Tag :=
  { t with mounts := t.mounts.map fun m =>
      if m.id = new then { m with parent := none }
      else if m.id = root then { m with parent := some new }
      else m }

/-- The mounts of the other namespaces. -/
def others (t : MountTable Tag) (space : Nat) : List (Mount Tag) :=
  t.mounts.filter fun m => m.space ≠ space

/-! ## What tables are like -/

/-- Identifiers count up, and a mount is in the namespace of the one it is on. -/
structure Sound (t : MountTable Tag) : Prop where
  ordered : t.mounts.Pairwise fun m m' => m.id < m'.id
  fresh : ∀ m ∈ t.mounts, m.id < t.next
  parents : ∀ m ∈ t.mounts, ∀ p, m.parent = some p → p < t.next
  spaces : ∀ m ∈ t.mounts, ∀ p ∈ t.mounts, m.parent = some p.id →
    p.space = m.space

/-- A namespace without peers. -/
def Private (t : MountTable Tag) (space : Nat) : Prop :=
  ∀ m ∈ t.mounts, m.space = space → m.shared = none

/-- The mounts that were found in a namespace hang below one root by mounts
that were found. -/
def Hangs (t : MountTable Tag) (space root : Nat) : Prop :=
  ∀ m ∈ t.mounts, m.space = space → m.tag = none →
    m.id = root ∨
      ∃ p ∈ t.mounts, m.parent = some p.id ∧ p.id < m.id ∧ p.tag = none

theorem find_eq_some
    {t : MountTable Tag}
    {id : Nat}
    {m : Mount Tag}
    (found : t.find id = some m) :
    m ∈ t.mounts ∧ m.id = id :=
  ⟨List.mem_of_find?_eq_some found, by
    simpa using List.find?_some found⟩

namespace Sound

variable {t : MountTable Tag} {m m' : Mount Tag}

/-- Mounts with one identifier are one. -/
theorem eq_of_id
    (sound : t.Sound)
    (inside : m ∈ t.mounts)
    (inside' : m' ∈ t.mounts)
    (same : m.id = m'.id) :
    m = m' := by
  have distinct : (t.mounts.map Mount.id).Nodup :=
    List.pairwise_map.mpr (sound.ordered.imp fun earlier => Nat.ne_of_lt earlier)
  exact List.inj_on_of_nodup_map distinct inside inside' same

end Sound

/-! ## Mounting -/

section Attach

variable {t : MountTable Tag} {d m : Mount Tag} {shared : Option Nat}
  {tag : Option Tag} {space root : Nat}

theorem receivers_subset
    (inside : d ∈ t.mounts) :
    ∀ r ∈ t.receivers d, r ∈ t.mounts := by
  intro r received
  unfold receivers at received
  split at received
  · rw [List.mem_singleton] at received
    exact received ▸ inside
  · rcases List.mem_cons.mp received with rfl | peer
    · exact inside
    · exact List.mem_of_mem_filter peer

/-- A private mount receives alone. -/
theorem receivers_of_private
    (alone : d.shared = none) :
    t.receivers d = [d] := by
  unfold receivers
  rw [alone]

/-- What is mounted elsewhere is not received in a private namespace. -/
theorem receivers_apart
    (isPrivate : t.Private space)
    (inside : d ∈ t.mounts)
    (other : d.space ≠ space) :
    ∀ r ∈ t.receivers d, r.space ≠ space := by
  intro r received own
  have alone := isPrivate r (receivers_subset inside r received) own
  unfold receivers at received
  split at received
  · rw [List.mem_singleton] at received
    exact other (received ▸ own)
  · rcases List.mem_cons.mp received with rfl | peer
    · exact other own
    · have isPeer := (List.mem_filter.mp peer).2
      simp [alone] at isPeer

/-- A copy is a mount on one of the receivers. -/
theorem mem_copies
    {copy id : Nat}
    {on : List (Mount Tag)}
    (inside : m ∈ copies copy shared tag id on) :
    (∃ r ∈ on, m.space = r.space ∧ m.parent = some r.id) ∧
      m.shared = shared ∧ m.tag = tag ∧ id ≤ m.id ∧ m.id < id + on.length := by
  induction on generalizing id with
  | nil => cases inside
  | cons r rest inductionHypothesis =>
      rcases List.mem_cons.mp inside with rfl | later
      · refine ⟨⟨r, List.mem_cons_self, rfl, rfl⟩, rfl, rfl, Nat.le_refl _, ?_⟩
        simp
      · obtain ⟨⟨r', received, on⟩, isShared, isTag, least, most⟩ :=
          inductionHypothesis later
        refine ⟨⟨r', List.mem_cons_of_mem _ received, on⟩, isShared, isTag, ?_, ?_⟩
        · exact Nat.le_of_succ_le least
        · simp only [List.length_cons]
          omega

theorem copies_ordered
    {copy id : Nat}
    {on : List (Mount Tag)} :
    (copies copy shared tag id on).Pairwise fun m m' => m.id < m'.id := by
  induction on generalizing id with
  | nil => exact .nil
  | cons r rest inductionHypothesis =>
      refine .cons ?_ inductionHypothesis
      intro m later
      exact (mem_copies later).2.2.2.1

/-- What a table has after a mounting. -/
theorem mem_attach
    (inside : m ∈ (t.attach d shared tag).mounts) :
    m ∈ t.mounts ∨
      (∃ r ∈ t.receivers d, m.space = r.space ∧ m.parent = some r.id) ∧
        m.shared = t.joined d shared ∧
        m.tag = tag ∧ t.next ≤ m.id ∧
        m.id < t.next + (t.receivers d).length :=
  (List.mem_append.mp inside).imp id mem_copies

theorem Sound.attach
    (sound : t.Sound)
    (inside : d ∈ t.mounts) :
    (t.attach d shared tag).Sound where
  ordered := by
    refine List.pairwise_append.mpr ⟨sound.ordered, copies_ordered, ?_⟩
    intro m old m' new
    exact Nat.lt_of_lt_of_le (sound.fresh m old) (mem_copies new).2.2.2.1
  fresh m known := by
    rcases mem_attach known with old | ⟨_, _, _, _, most⟩
    · exact Nat.lt_add_right _ (sound.fresh m old)
    · exact most
  parents m known p on := by
    rcases mem_attach known with old | ⟨⟨r, received, _, parent⟩, _⟩
    · exact Nat.lt_add_right _ (sound.parents m old p on)
    · rw [parent] at on
      rw [← Option.some.inj on]
      exact Nat.lt_add_right _ (sound.fresh r (receivers_subset inside r received))
  spaces m known p known' on := by
    have older : p.id < t.next := by
      rcases mem_attach known with old | ⟨⟨r, received, _, parent⟩, _⟩
      · exact sound.parents m old p.id on
      · rw [parent] at on
        rw [← Option.some.inj on]
        exact sound.fresh r (receivers_subset inside r received)
    have old' : p ∈ t.mounts := by
      rcases mem_attach known' with old' | ⟨_, _, _, least, _⟩
      · exact old'
      · omega
    rcases mem_attach known with old | ⟨⟨r, received, sameSpace, parent⟩, _⟩
    · exact sound.spaces m old p old' on
    · have same : r = p :=
        sound.eq_of_id (receivers_subset inside r received) old'
          (Option.some.inj (parent.symm.trans on))
      rw [sameSpace, same]

/-- Mounting a private tree in a private namespace keeps it private. -/
theorem Private.attach
    (isPrivate : t.Private space)
    (inside : d ∈ t.mounts)
    (unshared : d.space = space → shared = none) :
    (t.attach d shared tag).Private space := by
  intro m known own
  rcases mem_attach known with old | ⟨⟨r, received, sameSpace, _⟩, isShared, _⟩
  · exact isPrivate m old own
  · have alone := isPrivate r (receivers_subset inside r received)
      (sameSpace.symm.trans own)
    unfold receivers at received
    split at received
    · rename_i isAlone
      rw [List.mem_singleton] at received
      subst received
      simp only [isShared, joined, isAlone]
      exact unshared (sameSpace.symm.trans own)
    · rename_i group isGroup
      rcases List.mem_cons.mp received with rfl | peer
      · cases isGroup.symm.trans alone
      · have isPeer := (List.mem_filter.mp peer).2
        simp [alone] at isPeer

/-- The mount on `d` itself. -/
theorem exists_attach
    (alone : d.shared = none) :
    ∃ m ∈ (t.attach d shared tag).mounts,
      m.id = t.next ∧ m.space = d.space ∧ m.tag = tag := by
  simp only [MountTable.attach, receivers_of_private alone, copies,
    List.mem_append, List.mem_singleton]
  exact ⟨_, .inr rfl, rfl, rfl, rfl⟩

/-- What is mounted in a private namespace is seen nowhere else. -/
theorem others_attach
    (isPrivate : t.Private space)
    (inside : d ∈ t.mounts)
    (own : d.space = space) :
    (t.attach d shared tag).others space = t.others space := by
  have alone := receivers_of_private (t := t) (isPrivate d inside own)
  simp [others, MountTable.attach, alone, copies, own]

/-- What is mounted is tagged, or found on what was found. -/
theorem Hangs.attach
    (hangs : t.Hangs space root)
    (sound : t.Sound)
    (inside : d ∈ t.mounts)
    (known : tag = none →
      ∀ r ∈ t.receivers d, r.space = space → r.tag = none) :
    (t.attach d shared tag).Hangs space root := by
  intro m isMount own untagged
  rcases mem_attach isMount with
    old | ⟨⟨r, received, sameSpace, parent⟩, _, isTag, least, _⟩
  · refine (hangs m old own untagged).imp id ?_
    rintro ⟨p, isParent, on, earlier, found⟩
    exact ⟨p, List.mem_append_left _ isParent, on, earlier, found⟩
  · have isOld := receivers_subset inside r received
    refine .inr ⟨r, List.mem_append_left _ isOld, parent,
      Nat.lt_of_lt_of_le (sound.fresh r isOld) least, ?_⟩
    exact known (isTag.symm.trans untagged) r received (sameSpace.symm.trans own)

end Attach

/-! ## Unmounting -/

section Gone

variable {victims : List Nat} {mounts : List (Mount Tag)} {m p : Mount Tag}

theorem gone_append
    (x : Mount Tag) :
    gone victims (mounts ++ [x]) =
      if x.id ∈ victims ∨ ∃ p ∈ gone victims mounts, x.parent = some p then
        x.id :: gone victims mounts
      else gone victims mounts := by
  rw [gone, List.foldl_append]
  rfl

theorem gone_grows
    (x : Mount Tag) :
    gone victims mounts ⊆ gone victims (mounts ++ [x]) := by
  rw [gone_append]
  split
  · exact List.subset_cons_self _ _
  · exact List.Subset.refl _

/-- What holds of victims and is handed down holds of all that is gone. -/
theorem holds_of_gone
    {K : Nat → Prop}
    (victim : ∀ m ∈ mounts, m.id ∈ victims → K m.id)
    (below : ∀ m ∈ mounts, ∀ p, m.parent = some p → K p → K m.id) :
    ∀ id ∈ gone victims mounts, K id := by
  induction mounts using List.reverseRecOn with
  | nil =>
      intro id isGone
      cases isGone
  | append_singleton mounts x inductionHypothesis =>
      have earlier := inductionHypothesis
        (fun m known => victim m (List.mem_append_left _ known))
        (fun m known => below m (List.mem_append_left _ known))
      intro id isGone
      rw [gone_append] at isGone
      split at isGone
      · rename_i why
        rcases List.mem_cons.mp isGone with rfl | before
        · rcases why with isVictim | ⟨p, parentGone, on⟩
          · exact victim x (by simp) isVictim
          · exact below x (by simp) p on (earlier p parentGone)
        · exact earlier id before
      · exact earlier id isGone

/-- Everything with a property that victims have, and that mounts hand down,
is gone; here each mount is after the one it is on. -/
theorem mem_gone
    {H : Mount Tag → Prop}
    (ordered : mounts.Pairwise fun m m' => m.id < m'.id)
    (why : ∀ m ∈ mounts, H m →
      m.id ∈ victims ∨ ∃ p ∈ mounts, m.parent = some p.id ∧ p.id < m.id ∧ H p)
    (inside : m ∈ mounts)
    (holds : H m) :
    m.id ∈ gone victims mounts := by
  induction mounts using List.reverseRecOn generalizing m with
  | nil => cases inside
  | append_singleton mounts x inductionHypothesis =>
      obtain ⟨before, _, last⟩ := List.pairwise_append.mp ordered
      have older : ∀ m ∈ mounts, ∀ p ∈ mounts ++ [x], p.id < m.id → p ∈ mounts := by
        intro m known p isMount less
        rcases List.mem_append.mp isMount with old | isLast
        · exact old
        · rw [List.mem_singleton] at isLast
          have := last m known x List.mem_cons_self
          subst isLast
          omega
      have inherited : ∀ m ∈ mounts, H m → m.id ∈ gone victims mounts := by
        intro m known holds
        refine inductionHypothesis before ?_ known holds
        intro m known holds
        refine (why m (List.mem_append_left _ known) holds).imp id ?_
        rintro ⟨p, isMount, on, less, holds⟩
        exact ⟨p, older m known p isMount less, on, less, holds⟩
      rcases List.mem_append.mp inside with old | isLast
      · exact gone_grows x (inherited m old holds)
      · rw [List.mem_singleton] at isLast
        subst isLast
        have goes : m.id ∈ victims ∨
            ∃ p ∈ gone victims mounts, m.parent = some p := by
          refine (why m (by simp) holds).imp id ?_
          rintro ⟨p, isMount, on, less, holds⟩
          rcases List.mem_append.mp isMount with old | isLast
          · exact ⟨p.id, inherited p old holds, on⟩
          · rw [List.mem_singleton] at isLast
            subst isLast
            omega
        rw [gone_append, if_pos goes]
        exact List.mem_cons_self

/-- What is on something gone is gone. -/
theorem gone_below
    (ordered : mounts.Pairwise fun m m' => m.id < m'.id)
    (isParent : p ∈ mounts)
    (inside : m ∈ mounts)
    (on : m.parent = some p.id)
    (less : p.id < m.id)
    (isGone : p.id ∈ gone victims mounts) :
    m.id ∈ gone victims mounts := by
  induction mounts using List.reverseRecOn with
  | nil => cases inside
  | append_singleton mounts x inductionHypothesis =>
      obtain ⟨before, _, last⟩ := List.pairwise_append.mp ordered
      have lastIs : ∀ {m}, m ∈ mounts → m.id < x.id :=
        fun known => last _ known x List.mem_cons_self
      have oldParent : p ∈ mounts := by
        rcases List.mem_append.mp isParent with old | isLast
        · exact old
        · rw [List.mem_singleton] at isLast
          subst isLast
          rcases List.mem_append.mp inside with old | isLast
          · have := lastIs old
            omega
          · rw [List.mem_singleton] at isLast
            subst isLast
            omega
      have parentGone : p.id ∈ gone victims mounts := by
        rw [gone_append] at isGone
        split at isGone
        · rcases List.mem_cons.mp isGone with same | earlier
          · have := lastIs oldParent
            omega
          · exact earlier
        · exact isGone
      rcases List.mem_append.mp inside with old | isLast
      · exact gone_grows x (inductionHypothesis before oldParent old parentGone)
      · rw [List.mem_singleton] at isLast
        subst isLast
        rw [gone_append, if_pos (.inr ⟨p.id, parentGone, on⟩)]
        exact List.mem_cons_self

end Gone

section Detach

variable {t : MountTable Tag} {m : Mount Tag} {victims : List Nat}
  {space root : Nat}

theorem mem_detach :
    m ∈ (t.detach victims).mounts ↔
      m ∈ t.mounts ∧ m.id ∉ gone victims t.mounts := by
  simp [detach]

theorem Sound.detach
    (sound : t.Sound) :
    (t.detach victims).Sound where
  ordered := sound.ordered.sublist List.filter_sublist
  fresh m known := sound.fresh m (mem_detach.mp known).1
  parents m known := sound.parents m (mem_detach.mp known).1
  spaces m known p known' :=
    sound.spaces m (mem_detach.mp known).1 p (mem_detach.mp known').1

theorem Private.detach
    (isPrivate : t.Private space) :
    (t.detach victims).Private space :=
  fun m known => isPrivate m (mem_detach.mp known).1

theorem Hangs.detach
    (hangs : t.Hangs space root)
    (sound : t.Sound) :
    (t.detach victims).Hangs space root := by
  intro m known own untagged
  obtain ⟨inside, stays⟩ := mem_detach.mp known
  refine (hangs m inside own untagged).imp id ?_
  rintro ⟨p, isParent, on, less, found⟩
  refine ⟨p, mem_detach.mpr ⟨isParent, fun isGone => stays ?_⟩, on, less, found⟩
  exact gone_below sound.ordered isParent inside on less isGone

/-- Nothing found is left when the root is unmounted. -/
theorem Hangs.tagged_of_detach
    (hangs : t.Hangs space root)
    (sound : t.Sound)
    (isVictim : root ∈ victims)
    (known : m ∈ (t.detach victims).mounts)
    (own : m.space = space) :
    m.tag ≠ none := by
  intro untagged
  obtain ⟨inside, stays⟩ := mem_detach.mp known
  refine stays (mem_gone (H := fun m => m.space = space ∧ m.tag = none)
    sound.ordered ?_ inside ⟨own, untagged⟩)
  rintro m inside ⟨own, untagged⟩
  rcases hangs m inside own untagged with rfl | ⟨p, isParent, on, less, found⟩
  · exact .inl isVictim
  · exact .inr ⟨p, isParent, on, less,
      (sound.spaces m inside p isParent on).trans own, found⟩

/-- Victims in some namespaces take nothing of the others. -/
theorem mem_detach_of_apart
    {P : Nat → Prop}
    (sound : t.Sound)
    (among : ∀ m ∈ t.mounts, m.id ∈ victims → P m.space)
    (inside : m ∈ t.mounts)
    (apart : ¬ P m.space) :
    m ∈ (t.detach victims).mounts := by
  refine mem_detach.mpr ⟨inside, fun isGone => ?_⟩
  obtain ⟨m', inside', same, taken⟩ := holds_of_gone
    (K := fun id => ∃ m ∈ t.mounts, m.id = id ∧ P m.space)
    (fun m inside isVictim => ⟨m, inside, rfl, among m inside isVictim⟩)
    (by
      rintro m inside p on ⟨pm, isParent, rfl, holds⟩
      exact ⟨m, inside, rfl, sound.spaces m inside pm isParent on ▸ holds⟩)
    m.id isGone
  exact apart (sound.eq_of_id inside' inside same ▸ taken)

theorem others_detach
    (sound : t.Sound)
    (own : ∀ m ∈ t.mounts, m.id ∈ victims → m.space = space) :
    (t.detach victims).others space = t.others space := by
  simp only [others, detach, List.filter_filter]
  refine List.filter_congr fun m inside => ?_
  by_cases isOwn : m.space = space
  · simp [isOwn]
  · have stays := mem_detach.mp
      (mem_detach_of_apart (P := fun s => s = space) sound own inside isOwn)
    simp [isOwn, stays.2]

/-- What is on a private mount has no copies. -/
theorem parentGroup_of_private
    (sound : t.Sound)
    (isPrivate : t.Private space)
    (inside : m ∈ t.mounts)
    (own : m.space = space) :
    t.parentGroup m = none := by
  unfold parentGroup
  cases on : m.parent with
  | none => rfl
  | some p =>
      cases found : t.find p with
      | none => simp [found]
      | some pm =>
          obtain ⟨isMount, rfl⟩ := find_eq_some found
          simp only [Option.bind_some, found]
          exact isPrivate pm isMount
            ((sound.spaces m inside pm isMount on).trans own)

theorem victims_of_private
    (sound : t.Sound)
    (isPrivate : t.Private space)
    (inside : m ∈ t.mounts)
    (own : m.space = space) :
    t.victims m = [m.id] := by
  unfold MountTable.victims
  rw [parentGroup_of_private sound isPrivate inside own]

/-- An unmount elsewhere has no victim in a private namespace. -/
theorem victims_apart
    {m' : Mount Tag}
    (sound : t.Sound)
    (isPrivate : t.Private space)
    (inside : m ∈ t.mounts)
    (other : m.space ≠ space)
    (inside' : m' ∈ t.mounts)
    (isVictim : m'.id ∈ t.victims m) :
    m'.space ≠ space := by
  intro own
  have isSelf : m'.id = m.id → False := fun same =>
    other (sound.eq_of_id inside' inside same ▸ own)
  unfold MountTable.victims at isVictim
  split at isVictim
  · exact isSelf (List.mem_singleton.mp isVictim)
  · rename_i group _
    rcases List.mem_cons.mp isVictim with same | isCopy
    · exact isSelf same
    · obtain ⟨copy, known, same⟩ := List.mem_map.mp isCopy
      obtain ⟨isMount, isPeer⟩ := List.mem_filter.mp known
      obtain rfl := sound.eq_of_id isMount inside' same
      rw [parentGroup_of_private sound isPrivate isMount own] at isPeer
      simp at isPeer

end Detach

/-! ## Changes of single mounts -/

section Change

variable {t : MountTable Tag} {space root new : Nat}

theorem others_map
    {f : Mount Tag → Mount Tag}
    (sameSpace : ∀ m, (f m).space = m.space)
    (same : ∀ m ∈ t.mounts, m.space ≠ space → f m = m) :
    ({ t with mounts := t.mounts.map f } : MountTable Tag).others space =
      t.others space := by
  simp only [others, List.filter_map]
  have kept : (t.mounts.filter
      ((fun m => decide (m.space ≠ space)) ∘ f)) = t.others space :=
    List.filter_congr fun m _ => by simp [sameSpace]
  rw [kept]
  refine (List.map_congr_left fun m known => ?_).trans (List.map_id _)
  obtain ⟨inside, other⟩ := List.mem_filter.mp known
  exact same m inside (by simpa using other)

/-- What a mount was before it left its group. -/
theorem mem_privatise
    {m : Mount Tag}
    (inside : m ∈ (t.privatise space).mounts) :
    ∃ m' ∈ t.mounts, m.id = m'.id ∧ m.space = m'.space ∧
      m.parent = m'.parent ∧ m.tag = m'.tag := by
  obtain ⟨m', isMount, rfl⟩ := List.mem_map.mp inside
  refine ⟨m', isMount, ?_, ?_, ?_, ?_⟩ <;> split <;> rfl

theorem Sound.privatise
    (sound : t.Sound) :
    (t.privatise space).Sound := by
  refine ⟨?_, ?_, ?_, ?_⟩
  · refine List.pairwise_map.mpr (sound.ordered.imp fun {m m'} earlier => ?_)
    have ids : ∀ m : Mount Tag,
        (if m.space = space then { m with shared := none } else m).id = m.id := by
      intro m
      split <;> rfl
    simpa only [ids] using earlier
  · intro m inside
    obtain ⟨m', isMount, same, _⟩ := mem_privatise inside
    exact same ▸ sound.fresh m' isMount
  · intro m inside p on
    obtain ⟨m', isMount, _, _, same, _⟩ := mem_privatise inside
    exact sound.parents m' isMount p (same ▸ on)
  · intro m inside p inside' on
    obtain ⟨m', isMount, _, sameSpace, same, _⟩ := mem_privatise inside
    obtain ⟨p', isParent, sameId, sameSpace', _⟩ := mem_privatise inside'
    rw [sameSpace, sameSpace']
    exact sound.spaces m' isMount p' isParent (by rw [← same, on, sameId])

theorem private_privatise :
    (t.privatise space).Private space := by
  intro m inside own
  obtain ⟨m', isMount, rfl⟩ := List.mem_map.mp inside
  split
  · rfl
  · rename_i other
    rw [if_neg other] at own
    exact absurd own other

theorem others_privatise :
    (t.privatise space).others space = t.others space := by
  refine others_map (fun m => ?_) fun m _ other => if_neg other
  split <;> rfl

theorem Hangs.privatise
    (hangs : t.Hangs space root) :
    (t.privatise space).Hangs space root := by
  have kept : ∀ m : Mount Tag,
      ∃ m', (if m.space = space then { m with shared := none } else m) = m' ∧
        m'.id = m.id ∧ m'.space = m.space ∧ m'.parent = m.parent ∧
        m'.tag = m.tag := by
    intro m
    refine ⟨_, rfl, ?_, ?_, ?_, ?_⟩ <;> split <;> rfl
  intro m inside own untagged
  obtain ⟨m', isMount, rfl⟩ := List.mem_map.mp inside
  obtain ⟨_, rfl, sameId, sameSpace, sameParent, sameTag⟩ := kept m'
  rw [sameId, sameParent]
  refine (hangs m' isMount (sameSpace ▸ own) (sameTag ▸ untagged)).imp id ?_
  rintro ⟨p, isParent, on, less, found⟩
  obtain ⟨_, rfl, sameId', _, _, sameTag'⟩ := kept p
  exact ⟨_, List.mem_map_of_mem isParent, by rw [sameId', on],
    by rw [sameId']; exact less, sameTag'.trans found⟩

/-- What a pivot changes is the parents of the two roots. -/
theorem pivot_cases
    (root new : Nat)
    (m : Mount Tag) :
    ∃ m', (if m.id = new then { m with parent := none }
        else if m.id = root then { m with parent := some new } else m) = m' ∧
      m'.id = m.id ∧ m'.space = m.space ∧ m'.shared = m.shared ∧
      m'.tag = m.tag ∧
      (m'.parent = none ∨ m.id = root ∧ m'.parent = some new ∨
        m.id ≠ new ∧ m.id ≠ root ∧ m'.parent = m.parent) := by
  by_cases isNew : m.id = new
  · exact ⟨_, if_pos isNew, rfl, rfl, rfl, rfl, .inl rfl⟩
  · by_cases isRoot : m.id = root
    · exact ⟨_, (if_neg isNew).trans (if_pos isRoot), rfl, rfl, rfl, rfl,
        .inr (.inl ⟨isRoot, rfl⟩)⟩
    · exact ⟨_, (if_neg isNew).trans (if_neg isRoot), rfl, rfl, rfl, rfl,
        .inr (.inr ⟨isNew, isRoot, rfl⟩)⟩

theorem mem_pivot
    {m : Mount Tag} :
    m ∈ (t.pivot root new).mounts →
      ∃ m' ∈ t.mounts, m.id = m'.id ∧ m.space = m'.space ∧ m.tag = m'.tag := by
  intro inside
  obtain ⟨m', isMount, rfl⟩ := List.mem_map.mp inside
  obtain ⟨_, rfl, sameId, sameSpace, _, sameTag, _⟩ := pivot_cases root new m'
  exact ⟨m', isMount, sameId, sameSpace, sameTag⟩

/-- The two roots are mounts of the namespace. -/
structure Roots (t : MountTable Tag) (space root new : Nat) : Prop where
  root : ∀ m ∈ t.mounts, m.id = root → m.space = space
  new : ∃ m ∈ t.mounts, m.id = new ∧ m.space = space ∧ m.tag ≠ none

theorem Sound.pivot
    (sound : t.Sound)
    (roots : t.Roots space root new) :
    (t.pivot root new).Sound := by
  obtain ⟨n, isNew, rfl, ownNew, _⟩ := roots.new
  refine ⟨?_, ?_, ?_, ?_⟩
  · refine List.pairwise_map.mpr (sound.ordered.imp fun {m m'} earlier => ?_)
    obtain ⟨_, rfl, same, _⟩ := pivot_cases root n.id m
    obtain ⟨_, rfl, same', _⟩ := pivot_cases root n.id m'
    rwa [same, same']
  · intro m inside
    obtain ⟨m', isMount, rfl⟩ := List.mem_map.mp inside
    obtain ⟨_, rfl, same, _⟩ := pivot_cases root n.id m'
    rw [same]
    exact sound.fresh m' isMount
  · intro m inside p on
    obtain ⟨m', isMount, rfl⟩ := List.mem_map.mp inside
    obtain ⟨_, rfl, _, _, _, _, isParent⟩ := pivot_cases root n.id m'
    rcases isParent with isNone | ⟨_, isNew'⟩ | ⟨_, _, same⟩
    · cases isNone.symm.trans on
    · rw [← Option.some.inj (isNew'.symm.trans on)]
      exact sound.fresh n isNew
    · exact sound.parents m' isMount p (same.symm.trans on)
  · intro m inside p inside' on
    obtain ⟨m', isMount, rfl⟩ := List.mem_map.mp inside
    obtain ⟨p', isMount', rfl⟩ := List.mem_map.mp inside'
    obtain ⟨_, rfl, _, sameSpace, _, _, isParent⟩ := pivot_cases root n.id m'
    obtain ⟨_, rfl, sameId', sameSpace', _⟩ := pivot_cases root n.id p'
    rw [sameSpace, sameSpace']
    rw [sameId'] at on
    rcases isParent with isNone | ⟨isRoot, isNew'⟩ | ⟨_, _, same⟩
    · cases isNone.symm.trans on
    · have sameNew := Option.some.inj (isNew'.symm.trans on)
      rw [← sound.eq_of_id isNew isMount' sameNew, ownNew]
      exact (roots.root m' isMount isRoot).symm
    · exact sound.spaces m' isMount p' isMount' (same.symm.trans on)

theorem Private.pivot
    (isPrivate : t.Private space) :
    (t.pivot root new).Private space := by
  intro m inside own
  obtain ⟨m', isMount, rfl⟩ := List.mem_map.mp inside
  obtain ⟨_, rfl, _, sameSpace, same, _⟩ := pivot_cases root new m'
  rw [same]
  exact isPrivate m' isMount (sameSpace.symm.trans own)

theorem others_pivot
    (sound : t.Sound)
    (roots : t.Roots space root new) :
    (t.pivot root new).others space = t.others space := by
  obtain ⟨n, isNew, rfl, ownNew, _⟩ := roots.new
  refine others_map (fun m => ?_) fun m inside other => ?_
  · obtain ⟨_, rfl, _, same, _⟩ := pivot_cases root n.id m
    exact same
  · have notNew : m.id ≠ n.id := fun same =>
      other (sound.eq_of_id inside isNew same ▸ ownNew)
    have notRoot : m.id ≠ root := fun same => other (roots.root m inside same)
    rw [if_neg notNew, if_neg notRoot]

theorem Hangs.pivot
    (hangs : t.Hangs space root)
    (sound : t.Sound)
    (roots : t.Roots space root new) :
    (t.pivot root new).Hangs space root := by
  obtain ⟨n, isNew, rfl, ownNew, tagged⟩ := roots.new
  intro m inside own untagged
  obtain ⟨m', isMount, rfl⟩ := List.mem_map.mp inside
  obtain ⟨_, rfl, sameId, sameSpace, _, sameTag, isParent⟩ :=
    pivot_cases root n.id m'
  rw [sameId]
  have notNew : m'.id ≠ n.id := fun same =>
    tagged (sound.eq_of_id isMount isNew same ▸ sameTag.symm.trans untagged)
  by_cases isRoot : m'.id = root
  · exact .inl isRoot
  · refine .inr ?_
    obtain ⟨p, isParent', on, less, found⟩ :=
      (hangs m' isMount (sameSpace ▸ own) (sameTag ▸ untagged)).resolve_left
        isRoot
    obtain ⟨_, rfl, sameId', _, _, sameTag', _⟩ := pivot_cases root n.id p
    refine ⟨_, List.mem_map_of_mem isParent', ?_, by rw [sameId']; exact less,
      sameTag'.trans found⟩
    rw [sameId', if_neg notNew, if_neg isRoot, on]

end Change

end MountTable

end Myrun
