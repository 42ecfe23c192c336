import Myrun.Config
import Myrun.Credentials
import Myrun.Seccomp

namespace Myrun

/-!
# What the workload is left with

`caps::apply` and `caps::switch_user` of `src/sys/caps.rs`,
`src/runtime/security.rs`, and the child of `spawn_workload` in
`src/runtime/init.rs`, over a kernel. The capabilities the workload may have
are those of the resolved keep set; `cap_mask` adds two more for the switch of
the user and leaves it to the kernel to take them away again.
-/

namespace Caps

/-- `last_cap`, for what `/proc/sys/kernel/cap_last_cap` reads as. -/
def lastCap (file : Option String) : UInt8 :=
  (file.bind fun s => parseU8 (trim s)).getD 40

/-- `cap_name`. -/
def capName (v : Nat) : String :=
  match capNames[v]? with
  | some name => "CAP_" ++ name
  | none => "CAP_" ++ toString v

section Apply

variable {Image : Type} (kernel : Kernel Image)

/-- The loop of `apply` over the capabilities of the bounding set. -/
def dropBounding (keepMask : UInt64) : List Nat → Creds → Result Creds
  | [], c => .ok c
  | cap :: rest, c =>
      if keepMask &&& capBit (UInt64.ofNat cap) ≠ 0 then
        dropBounding keepMask rest c
      else
        match kernel.dropBounding cap c with
        | .ok c' => dropBounding keepMask rest c'
        | .error e =>
            if e = einval then dropBounding keepMask rest c
            else
              .error (.syscall "prctl" e ("PR_CAPBSET_DROP " ++ capName cap))

/-- `set_caps`. -/
def setCaps (effective permitted inheritable : UInt64) (c : Creds) :
    Result Creds :=
  (kernel.capset effective permitted inheritable c).mapError fun e =>
    .syscall "capset" e
      ("keep mask 0x" ++ String.ofList (Nat.toDigits 16 permitted.toNat))

/-- The first step of `apply`: an old kernel has no ambient set. -/
def clearAmbient (c : Creds) : Result Creds :=
  match kernel.clearAmbient c with
  | .ok c' => .ok c'
  | .error e =>
      if e = einval then .ok c
      else .error (.syscall "prctl" e "PR_CAP_AMBIENT_CLEAR_ALL")

/-- `apply`. -/
def apply (keepMask : UInt64) (c : Creds) : Result Creds := do
  let last := lastCap kernel.capLastCap
  let c ← clearAmbient kernel c
  let c ← dropBounding kernel keepMask (List.range (last.toNat + 1)) c
  setCaps kernel keepMask keepMask 0 c

/-- `switch_user`. -/
def switchUser (uid gid : UInt32) (c : Creds) : Result Creds := do
  let c ← (kernel.setgroups c).mapError fun e =>
    Error.syscall "setgroups" e "clearing supplementary groups"
  let c ← (kernel.setgid gid c).mapError fun e =>
    Error.syscall "setgid" e ("gid " ++ toString gid)
  (kernel.setuid uid c).mapError fun e =>
    Error.syscall "setuid" e ("uid " ++ toString uid)

end Apply

end Caps

namespace Security

/-- `precheck`. -/
def precheck (sec : SecurityConfig) : Result Unit :=
  if sec.privileged then .ok ()
  else do
    let _ ← sec.capMask
    if !sec.noNewPrivs ∧ sec.seccomp ≠ .unconfined then
      .error (.config ("--no-new-privs=false cannot be combined with seccomp; " ++
        "the kernel requires PR_SET_NO_NEW_PRIVS or CAP_SYS_ADMIN to install " ++
        "a filter"))
    else .ok ()

section Apply

variable {Image : Type} (kernel : Kernel Image) (arch : Seccomp.Arch)

/-- `seccomp::install`. -/
def install (mode : SeccompMode) (c : Creds) : Result Creds :=
  if mode = .unconfined then .ok c
  else do
    let prog ← Seccomp.buildFilter arch mode
    (kernel.installFilter prog c).mapError fun e =>
      Error.syscall "seccomp" e ("mode " ++ mode.asStr)

/-- `set_no_new_privs`. -/
def setNoNewPrivs (c : Creds) : Result Creds :=
  (kernel.setNoNewPrivs c).mapError fun e =>
    Error.syscall "prctl" e "PR_SET_NO_NEW_PRIVS"

/-- `apply`. -/
def apply (sec : SecurityConfig) (c : Creds) : Result Creds := do
  precheck sec
  if sec.privileged then .ok c
  else do
    let keep ← sec.capMask
    let c ← Caps.apply kernel keep c
    let c ← if sec.noNewPrivs then setNoNewPrivs kernel c else .ok c
    install kernel arch sec.seccomp c

end Apply

end Security

section Workload

variable {Image : Type} (kernel : Kernel Image)

/-- The child of `spawn_workload`: its credentials, or its exit status. -/
def workloadChild (user : Option (UInt32 × UInt32)) (image : Image)
    (c : Creds) : Except Int32 Creds := do
  let c ←
    match user with
    | some (uid, gid) => (Caps.switchUser kernel uid gid c).mapError fun _ => 126
    | none => .ok c
  (kernel.execve image c).mapError fun _ => 127

/-- The workload runs with `final` when init started with `start`. -/
def Runs (arch : Seccomp.Arch) (sec : SecurityConfig) (start : Creds)
    (image : Image) (final : Creds) : Prop :=
  ∃ c,
    Security.apply kernel arch sec start = .ok c ∧
      workloadChild kernel sec.user image c = .ok final

/-- One program after another is executed in the place of the one before. -/
inductive Executes : Creds → Creds → Prop where
  | refl (c : Creds) : Executes c c
  | step {c next later : Creds} (image : Image)
      (executed : kernel.execve image c = .ok next)
      (rest : Executes next later) : Executes c later

/-- Init is run by root, with capabilities the kernel knows. -/
structure Start (start : Creds) : Prop where
  root : start.uid = 0
  known : ∀ v, holds start.bounding v = true → v ≤ kernel.lastCap

end Workload

/--
What is asked of the capabilities of a workload: those it runs with are in the
resolved keep set and, without `no_new_privs`, so are those it obtains by
executing programs.
-/
structure Confined (arch : Seccomp.Arch) (sec : SecurityConfig) : Prop where
  workload :
    ∀ (Image : Type) (kernel : Kernel Image), kernel.Lawful →
      ∀ start, Start kernel start → ∀ image final,
        Runs kernel arch sec start image final →
          ∀ keep,
            resolveKeepSet defaultKeep sec.capAdd sec.capDrop = .ok keep →
              Within final.permitted keep ∧ Within final.effective keep
  obtained :
    sec.noNewPrivs = false →
      ∀ (Image : Type) (kernel : Kernel Image), kernel.Lawful →
        ∀ start, Start kernel start → ∀ image final,
          Runs kernel arch sec start image final →
            ∀ later, Executes kernel final later →
              ∀ keep,
                resolveKeepSet defaultKeep sec.capAdd sec.capDrop = .ok keep →
                  Within later.permitted keep ∧ Within later.effective keep

/-! ## The mask -/

private theorem mapError_eq_ok
    {α ε δ : Type}
    {result : Except ε α}
    {f : ε → δ}
    {value : α} :
    result.mapError f = .ok value ↔ result = .ok value := by
  cases result <;> simp [Except.mapError]

private theorem childBind_eq_ok
    {α β : Type}
    {first : Except Int32 α}
    {next : α → Except Int32 β}
    {value : β} :
    (first >>= next) = .ok value ↔
      ∃ middle, first = .ok middle ∧ next middle = .ok value := by
  cases first <;> simp [bind, Except.bind]

/-- The capabilities `cap_mask` adds for the switch of the user. -/
def switchCaps (v : Nat) : Prop :=
  v = capSetgid ∨ v = capSetuid

/-- The mask of an unprivileged container: its keep set, and what `--user` needs. -/
theorem capMask_eq_ok_iff
    {sec : SecurityConfig}
    {mask : UInt64}
    (unprivileged : sec.privileged = false) :
    sec.capMask = .ok mask ↔
      ∃ keep,
        resolveKeepSet defaultKeep sec.capAdd sec.capDrop = .ok keep ∧
          mask =
            if sec.user.isSome then
              keep ||| capBit (UInt64.ofNat capSetuid) |||
                capBit (UInt64.ofNat capSetgid)
            else keep := by
  have setuid : parseCap "SETUID" = .ok (UInt64.ofNat capSetuid) :=
    parseCap_eq_ok_iff.mpr
      ⟨capSetuid, ⟨"SETUID", rfl, Or.inl (by decide +kernel)⟩, rfl⟩
  have setgid : parseCap "SETGID" = .ok (UInt64.ofNat capSetgid) :=
    parseCap_eq_ok_iff.mpr
      ⟨capSetgid, ⟨"SETGID", rfl, Or.inl (by decide +kernel)⟩, rfl⟩
  unfold SecurityConfig.capMask
  rw [if_neg (by simp [unprivileged])]
  cases resolveKeepSet defaultKeep sec.capAdd sec.capDrop with
  | error e => simp
  | ok keep =>
      cases sec.user.isSome <;> simp [setuid, setgid, eq_comm]

/-- The bits of that mask. -/
theorem holds_capMask
    {sec : SecurityConfig}
    {mask keep : UInt64}
    (unprivileged : sec.privileged = false)
    (masked : sec.capMask = .ok mask)
    (resolved :
      resolveKeepSet defaultKeep sec.capAdd sec.capDrop = .ok keep)
    (v : Nat) :
    holds mask v = true ↔
      holds keep v = true ∨ sec.user.isSome = true ∧ switchCaps v := by
  obtain ⟨keep', resolved', rfl⟩ := (capMask_eq_ok_iff unprivileged).mp masked
  rw [resolved] at resolved'
  injection resolved' with same
  subst same
  cases sec.user.isSome with
  | false => simp
  | true =>
      simp only [if_true, holds_or, Bool.or_eq_true,
        holds_capBit (show capSetuid < 64 by decide),
        holds_capBit (show capSetgid < 64 by decide), decide_eq_true_eq,
        switchCaps, true_and]
      rw [or_assoc, or_comm (a := v = capSetuid)]

/-- A resolved keep set holds capabilities of the table only. -/
theorem keep_lt
    {base add drop : List String}
    {keep : UInt64}
    (resolved : resolveKeepSet base add drop = .ok keep)
    {v : Nat}
    (held : holds keep v = true) :
    v < capNames.length := by
  rcases resolveKeepSet_spec base add drop with
    ⟨_, e, failed⟩ | ⟨_, mask, hmask, bits⟩
  · rw [resolved] at failed
    cases failed
  · rw [resolved] at hmask
    injection hmask with same
    subst same
    rcases (bits v).mp held with
      ⟨s, _, named | ⟨_, inside⟩⟩ | ⟨_, ⟨s, _, named⟩, _⟩
    · exact named.lt
    · exact inside
    · exact named.lt

/-! ## What the system calls leave -/

/-- The loop over the bounding set reaches the kernel's last capability. -/
theorem lastCap_bounds
    {Image : Type}
    {kernel : Kernel Image}
    (lawful : kernel.Lawful) :
    kernel.lastCap ≤ (Caps.lastCap kernel.capLastCap).toNat ∧
      (Caps.lastCap kernel.capLastCap).toNat < 64 := by
  rcases lawful.lastCap_file with file | ⟨file, small⟩
  · have every :
        ∀ n < 64,
          (Caps.lastCap (some (toString n ++ "\n"))).toNat = n := by
      decide +kernel
    rw [file, every _ lawful.lastCap_lt]
    exact ⟨Nat.le_refl _, lawful.lastCap_lt⟩
  · rw [file]
    exact ⟨small, by decide⟩

private theorem and_capBit_ne_zero_iff
    {mask : UInt64}
    {v : Nat}
    (small : v < 64) :
    mask &&& capBit (UInt64.ofNat v) ≠ 0 ↔ holds mask v = true := by
  have bits :
      ∀ w, holds (mask &&& capBit (UInt64.ofNat v)) w =
        (holds mask w && decide (w = v)) := by
    intro w
    rw [← holds_capBit small w]
    simp [holds]
  constructor
  · intro some
    by_contra clear
    apply some
    apply eq_of_holds_eq
    intro w
    rw [bits w, holds_zero]
    by_cases same : w = v
    · subst same
      simpa using clear
    · simp [same]
  · intro held zero
    have bit := bits v
    rw [zero, holds_zero, held] at bit
    simp at bit

section Effects

variable {Image : Type} {kernel : Kernel Image} {c c' : Creds}

/-- The loop over the bounding set changes nothing else, and takes from it. -/
theorem dropBounding_spec
    (lawful : kernel.Lawful)
    {keepMask : UInt64}
    {caps : List Nat}
    (small : ∀ v ∈ caps, v < 64)
    (dropped : Caps.dropBounding kernel keepMask caps c = .ok c') :
    c' = { c with bounding := c'.bounding } ∧
      Within c'.bounding c.bounding ∧
        ∀ v ∈ caps, v ≤ kernel.lastCap →
          holds c'.bounding v = true → holds keepMask v = true := by
  induction caps generalizing c with
  | nil =>
      injection dropped with same
      subst same
      exact ⟨rfl, Within.refl _, by simp⟩
  | cons cap rest inductionHypothesis =>
      have capSmall := small cap List.mem_cons_self
      have restSmall : ∀ v ∈ rest, v < 64 :=
        fun v member => small v (List.mem_cons_of_mem _ member)
      unfold Caps.dropBounding at dropped
      split at dropped
      case isTrue kept =>
          obtain ⟨frame, less, left⟩ := inductionHypothesis restSmall dropped
          refine ⟨frame, less, List.forall_mem_cons.mpr ⟨?_, left⟩⟩
          exact fun _ _ => (and_capBit_ne_zero_iff capSmall).mp kept
      case isFalse =>
          split at dropped
          case h_1 next one =>
              have gone := lawful.dropBounding cap c next one
              subst gone
              obtain ⟨frame, less, left⟩ :=
                inductionHypothesis restSmall dropped
              refine ⟨by rw [frame], ?_, List.forall_mem_cons.mpr ⟨?_, left⟩⟩
              · exact less.trans (within_and_left _ _)
              · intro _ held
                have still := less cap held
                simp only [holds_andNot, holds_capBit capSmall, decide_true,
                  Bool.not_true, Bool.and_false, Bool.false_eq_true] at still
          case h_2 e failed =>
              split at dropped
              case isTrue unknown =>
                  subst unknown
                  have beyond := lawful.dropBounding_unknown cap c failed
                  obtain ⟨frame, less, left⟩ :=
                    inductionHypothesis restSmall dropped
                  refine ⟨frame, less, List.forall_mem_cons.mpr ⟨?_, left⟩⟩
                  intro known
                  omega
              case isFalse => cases dropped

/-- What `caps::apply` leaves when it succeeds. -/
theorem caps_apply_spec
    (lawful : kernel.Lawful)
    {keepMask : UInt64}
    (known : ∀ v, holds c.bounding v = true → v ≤ kernel.lastCap)
    (applied : Caps.apply kernel keepMask c = .ok c') :
    c'.uid = c.uid ∧ c'.noNewPrivs = c.noNewPrivs ∧
      c'.permitted = keepMask ∧ c'.effective = keepMask ∧
        Within c'.bounding keepMask := by
  unfold Caps.apply at applied
  obtain ⟨first, cleared, applied⟩ := Result.bind_eq_ok.mp applied
  obtain ⟨second, dropped, applied⟩ := Result.bind_eq_ok.mp applied
  have clear : first = { c with ambient := first.ambient } := by
    unfold Caps.clearAmbient at cleared
    split at cleared
    case h_1 next one =>
        rw [← Except.ok.inj cleared, lawful.clearAmbient c next one]
    case h_2 =>
        split at cleared
        · rw [← Except.ok.inj cleared]
        · cases cleared
  obtain ⟨reached, inside⟩ := lastCap_bounds lawful
  have small :
      ∀ v ∈ List.range ((Caps.lastCap kernel.capLastCap).toNat + 1),
        v < 64 := by
    intro v member
    have inRange := List.mem_range.mp member
    omega
  obtain ⟨frame, less, left⟩ := dropBounding_spec lawful small dropped
  have final := lawful.capset _ _ _ _ _ (mapError_eq_ok.mp applied)
  have bounded : Within second.bounding keepMask := by
    intro v held
    have before : holds c.bounding v = true := by
      have first_held := less v held
      rwa [clear] at first_held
    have low := known v before
    exact left v (List.mem_range.mpr (by omega)) low held
  rw [final, frame, clear]
  exact ⟨rfl, rfl, rfl, rfl, bounded⟩

/-- Installing the filter leaves the credentials alone. -/
theorem install_spec
    {arch : Seccomp.Arch}
    {mode : SeccompMode}
    (lawful : kernel.Lawful)
    (installed : Security.install kernel arch mode c = .ok c') :
    c' = c := by
  unfold Security.install at installed
  split at installed
  · exact (Except.ok.inj installed).symm
  · obtain ⟨prog, _, installed⟩ := Result.bind_eq_ok.mp installed
    exact lawful.installFilter _ _ _ (mapError_eq_ok.mp installed)

/-- What `security::apply` leaves of an unprivileged init. -/
theorem security_apply_spec
    {arch : Seccomp.Arch}
    {sec : SecurityConfig}
    (lawful : kernel.Lawful)
    (unprivileged : sec.privileged = false)
    (known : ∀ v, holds c.bounding v = true → v ≤ kernel.lastCap)
    (applied : Security.apply kernel arch sec c = .ok c') :
    ∃ mask,
      sec.capMask = .ok mask ∧ c'.uid = c.uid ∧
        (sec.noNewPrivs = true → c'.noNewPrivs = true) ∧
          c'.permitted = mask ∧ c'.effective = mask ∧
            Within c'.bounding mask := by
  unfold Security.apply at applied
  obtain ⟨_, _, applied⟩ := Result.bind_eq_ok.mp applied
  rw [if_neg (by simp [unprivileged])] at applied
  obtain ⟨mask, masked, applied⟩ := Result.bind_eq_ok.mp applied
  obtain ⟨dropped, narrowed, applied⟩ := Result.bind_eq_ok.mp applied
  obtain ⟨uid, _, permitted, effective, bounded⟩ :=
    caps_apply_spec lawful known narrowed
  cases wanted : sec.noNewPrivs with
  | true =>
      simp only [wanted, if_true] at applied
      obtain ⟨sealed, sealing, applied⟩ := Result.bind_eq_ok.mp applied
      rw [install_spec lawful applied,
        lawful.setNoNewPrivs _ _ (mapError_eq_ok.mp sealing)]
      exact ⟨mask, masked, uid, fun _ => rfl, permitted, effective, bounded⟩
  | false =>
      simp only [wanted, Bool.false_eq_true, if_false, Result.ok_bind]
        at applied
      rw [install_spec lawful applied]
      exact ⟨mask, masked, uid, by simp, permitted, effective, bounded⟩

/-- What `caps::switch_user` leaves of a process of root. -/
theorem switchUser_spec
    {uid gid : UInt32}
    (lawful : kernel.Lawful)
    (root : c.uid = 0)
    (switched : Caps.switchUser kernel uid gid c = .ok c') :
    c'.bounding = c.bounding ∧ c'.noNewPrivs = c.noNewPrivs ∧
      (uid ≠ 0 → c'.permitted = 0) := by
  unfold Caps.switchUser at switched
  obtain ⟨first, grouped, switched⟩ := Result.bind_eq_ok.mp switched
  obtain ⟨second, named, switched⟩ := Result.bind_eq_ok.mp switched
  have groups := lawful.setgroups _ _ (mapError_eq_ok.mp grouped)
  have group := lawful.setgid _ _ _ (mapError_eq_ok.mp named)
  obtain ⟨_, bounding, nnp, permitted, _⟩ :=
    lawful.setuid _ _ _ (mapError_eq_ok.mp switched)
  subst group groups
  refine ⟨bounding, nnp, ?_⟩
  intro other
  rw [permitted, if_pos ⟨root, other⟩]

/-- What the child of `spawn_workload` executes the workload with. -/
theorem workloadChild_spec
    {user : Option (UInt32 × UInt32)}
    {image : Image}
    (lawful : kernel.Lawful)
    (root : c.uid = 0)
    (started : workloadChild kernel user image c = .ok c') :
    c'.bounding = c.bounding ∧
      Within c'.permitted c.bounding ∧
        Within c'.effective c'.permitted ∧
          ∀ uid gid, user = some (uid, gid) → uid ≠ 0 →
            c.noNewPrivs = true → Within c'.permitted 0 := by
  unfold workloadChild at started
  cases user with
  | none =>
      obtain ⟨bounding, _, within, effective, _⟩ :=
        lawful.execve image c c' (mapError_eq_ok.mp started)
      exact ⟨bounding, within, effective, by simp⟩
  | some ids =>
      obtain ⟨uid, gid⟩ := ids
      obtain ⟨middle, switched, executed⟩ := childBind_eq_ok.mp started
      obtain ⟨sameBounding, sameNnp, cleared⟩ :=
        switchUser_spec lawful root (mapError_eq_ok.mp switched)
      obtain ⟨bounding, _, within, effective, sealed⟩ :=
        lawful.execve image middle c' (mapError_eq_ok.mp executed)
      rw [sameBounding] at bounding within
      refine ⟨bounding, within, effective, ?_⟩
      intro uid' gid' same other nnp
      injection same with same
      injection same with sameUid _
      subst sameUid
      rw [← cleared other]
      exact sealed (by rw [sameNnp, nnp])

/-- Executing one program after another stays within the bounding set. -/
theorem Executes.within
    {later : Creds}
    (lawful : kernel.Lawful)
    (executes : Executes kernel c later)
    {keep : UInt64}
    (bounding : Within c.bounding keep)
    (permitted : Within c.permitted keep)
    (effective : Within c.effective keep) :
    Within later.permitted keep ∧ Within later.effective keep := by
  induction executes with
  | refl c => exact ⟨permitted, effective⟩
  | step image executed _ inductionHypothesis =>
      obtain ⟨same, _, within, inner, _⟩ := lawful.execve image _ _ executed
      have nextPermitted := within.trans bounding
      exact inductionHypothesis (same ▸ bounding) nextPermitted
        (inner.trans nextPermitted)

end Effects

/-! ## When a workload is confined -/

/-- No `--user`, or one whose switch leaves nothing that was not kept. -/
def SwitchIsCovered (sec : SecurityConfig) : Prop :=
  sec.user = none ∨
    (∀ keep,
      resolveKeepSet defaultKeep sec.capAdd sec.capDrop = .ok keep →
        holds keep capSetuid = true ∧ holds keep capSetgid = true) ∨
    ∃ uid gid, sec.user = some (uid, gid) ∧ uid ≠ 0 ∧ sec.noNewPrivs = true

/-- Where the added capabilities are in the keep set, the mask is the keep set. -/
theorem mask_within_keep
    {sec : SecurityConfig}
    {mask keep : UInt64}
    (unprivileged : sec.privileged = false)
    (masked : sec.capMask = .ok mask)
    (resolved :
      resolveKeepSet defaultKeep sec.capAdd sec.capDrop = .ok keep)
    (plain :
      sec.user = none ∨
        holds keep capSetuid = true ∧ holds keep capSetgid = true) :
    Within mask keep := by
  intro v held
  rcases (holds_capMask unprivileged masked resolved v).mp held with
    kept | ⟨switching, added⟩
  · exact kept
  · rcases plain with none | ⟨setuid, setgid⟩
    · rw [none] at switching
      cases switching
    · rcases added with rfl | rfl
      · exact setgid
      · exact setuid

/-- Under the condition every workload is confined. -/
theorem confined_of_covered
    {arch : Seccomp.Arch}
    {sec : SecurityConfig}
    (unprivileged : sec.privileged = false)
    (covered : SwitchIsCovered sec) :
    Confined arch sec := by
  constructor
  · rintro Image kernel lawful start ⟨root, known⟩ image final
      ⟨c, applied, started⟩ keep resolved
    obtain ⟨mask, masked, uid, nnp, _, _, bounded⟩ :=
      security_apply_spec lawful unprivileged known applied
    obtain ⟨_, within, inner, sealed⟩ :=
      workloadChild_spec lawful (uid.trans root) started
    have permitted : Within final.permitted keep := by
      rcases covered with none | kept | ⟨user, group, named, other, wanted⟩
      · exact (within.trans bounded).trans
          (mask_within_keep unprivileged masked resolved (Or.inl none))
      · exact (within.trans bounded).trans
          (mask_within_keep unprivileged masked resolved
            (Or.inr (kept keep resolved)))
      · exact (sealed user group named other (nnp wanted)).trans
          (zero_within keep)
    exact ⟨permitted, inner.trans permitted⟩
  · rintro off Image kernel lawful start ⟨root, known⟩ image final
      ⟨c, applied, started⟩ later executes keep resolved
    obtain ⟨mask, masked, uid, _, _, _, bounded⟩ :=
      security_apply_spec lawful unprivileged known applied
    obtain ⟨same, within, inner, _⟩ :=
      workloadChild_spec lawful (uid.trans root) started
    have maskKept : Within mask keep := by
      apply mask_within_keep unprivileged masked resolved
      rcases covered with none | kept | ⟨_, _, _, _, on⟩
      · exact Or.inl none
      · exact Or.inr (kept keep resolved)
      · rw [off] at on
        cases on
    have boundingKept := bounded.trans maskKept
    have permitted := within.trans boundingKept
    exact executes.within lawful (same ▸ boundingKept) permitted
      (inner.trans permitted)

/-! ## Runs on the reference kernel -/

/-- Root with every capability of the table. -/
def fullCreds : Creds where
  uid := 0
  gid := 0
  permitted := allCaps
  effective := allCaps
  inheritable := 0
  bounding := allCaps
  ambient := 0
  noNewPrivs := false

private theorem fullCreds_start : Start linux fullCreds where
  root := rfl
  known v held := by
    have inside : holds allCaps v = true := held
    rw [holds_allCaps, decide_eq_true_eq] at inside
    have size : capNames.length = 41 := rfl
    have last : linux.lastCap = 40 := rfl
    omega

/-- The loop over the bounding set succeeds and keeps what the mask keeps. -/
theorem dropBounding_linux
    {keepMask : UInt64}
    {caps : List Nat}
    {c : Creds}
    (small : ∀ v ∈ caps, v ≤ 40)
    (able : holds c.effective capSetpcap = true) :
    ∃ c', Caps.dropBounding linux keepMask caps c = .ok c' ∧
      c' = { c with bounding := c'.bounding } ∧
        ∀ v, holds keepMask v = true → holds c.bounding v = true →
          holds c'.bounding v = true := by
  induction caps generalizing c with
  | nil => exact ⟨c, rfl, rfl, fun _ _ held => held⟩
  | cons cap rest inductionHypothesis =>
      have capSmall := small cap List.mem_cons_self
      have restSmall : ∀ v ∈ rest, v ≤ 40 :=
        fun v member => small v (List.mem_cons_of_mem _ member)
      unfold Caps.dropBounding
      split
      case isTrue => exact inductionHypothesis restSmall able
      case isFalse gone =>
          have dropped :
              linux.dropBounding cap c =
                .ok { c with
                  bounding :=
                    c.bounding &&& ~~~capBit (UInt64.ofNat cap) } := by
            simp [linux, needs, able, show ¬ 40 < cap by omega]
          rw [dropped]
          dsimp only
          obtain ⟨c', done, frame, kept⟩ :=
            inductionHypothesis
              (c := { c with
                bounding := c.bounding &&& ~~~capBit (UInt64.ofNat cap) })
              restSmall able
          refine ⟨c', done, by rw [frame], ?_⟩
          intro v wanted held
          apply kept v wanted
          have different : v ≠ cap := by
            rintro rfl
            exact gone ((and_capBit_ne_zero_iff (by omega)).mpr wanted)
          simp [holds_capBit (show cap < 64 by omega), held, different]

/-- A mask within another has nothing outside it. -/
theorem and_not_eq_zero
    {mask other : UInt64}
    (within : Within mask other) :
    mask &&& ~~~other = 0 := by
  apply eq_of_holds_eq
  intro v
  rw [holds_andNot, holds_zero]
  cases held : holds mask v with
  | false => rfl
  | true => simp [within v held]

/-- `caps::apply` succeeds for root, and the mask is what is left. -/
theorem caps_apply_linux
    {keepMask : UInt64}
    (within : Within keepMask allCaps) :
    ∃ c', Caps.apply linux keepMask fullCreds = .ok c' ∧
      c'.uid = 0 ∧ c'.noNewPrivs = false ∧
        c'.permitted = keepMask ∧ c'.effective = keepMask ∧
          Within keepMask c'.bounding := by
  have small :
      ∀ v ∈ List.range ((Caps.lastCap linux.capLastCap).toNat + 1),
        v ≤ 40 := by
    decide +kernel
  obtain ⟨c', done, frame, kept⟩ :=
    @dropBounding_linux keepMask _ fullCreds small (by decide +kernel)
  have permitted : c'.permitted = allCaps := by rw [frame]; rfl
  have uid : c'.uid = 0 := by rw [frame]; rfl
  have nnp : c'.noNewPrivs = false := by rw [frame]; rfl
  refine ⟨{ c' with
      effective := keepMask
      permitted := keepMask
      inheritable := 0
      ambient := c'.ambient &&& (keepMask &&& 0) },
    ?_, uid, nnp, rfl, rfl, fun v held => kept v held (within v held)⟩
  have cleared : linux.clearAmbient fullCreds = .ok fullCreds := rfl
  have nothing := and_not_eq_zero within
  unfold Caps.apply Caps.clearAmbient
  rw [cleared]
  simp only [Result.ok_bind, done, Caps.setCaps]
  simp [linux, permitted, nothing, Except.mapError]

/-- `security::apply` succeeds for root where `precheck` does. -/
theorem security_apply_linux
    {arch : Seccomp.Arch}
    {sec : SecurityConfig}
    {mask : UInt64}
    (unprivileged : sec.privileged = false)
    (checked : Security.precheck sec = .ok ())
    (masked : sec.capMask = .ok mask)
    (within : Within mask allCaps) :
    ∃ c', Security.apply linux arch sec fullCreds = .ok c' ∧
      c'.uid = 0 ∧ c'.noNewPrivs = sec.noNewPrivs ∧
        c'.permitted = mask ∧ c'.effective = mask ∧
          Within mask c'.bounding := by
  obtain ⟨c, narrowed, uid, nnp, permitted, effective, bounding⟩ :=
    caps_apply_linux within
  obtain ⟨prog, built⟩ : ∃ prog, Seccomp.buildFilter arch sec.seccomp = .ok prog :=
    ⟨_, Seccomp.assemble_eq_ok_iff.mpr
      ⟨Seccomp.resolvedDeny_small arch sec.seccomp, rfl⟩⟩
  cases wanted : sec.noNewPrivs with
  | true =>
      refine ⟨{ c with noNewPrivs := true }, ?_, uid, rfl, permitted,
        effective, bounding⟩
      have sealing :
          Security.setNoNewPrivs linux c =
            .ok { c with noNewPrivs := true } :=
        rfl
      have installed :
          Security.install linux arch sec.seccomp
              { c with noNewPrivs := true } =
            .ok { c with noNewPrivs := true } := by
        unfold Security.install
        split
        · rfl
        · rw [built]
          rfl
      unfold Security.apply
      simp only [checked, Result.ok_bind, unprivileged, Bool.false_eq_true,
        if_false, masked, narrowed, wanted, if_true, sealing, installed]
  | false =>
      have unconfined : sec.seccomp = .unconfined := by
        by_contra confined
        simp [Security.precheck, unprivileged, masked, wanted, confined]
          at checked
      refine ⟨c, ?_, uid, nnp, permitted, effective, bounding⟩
      unfold Security.apply
      simp only [checked, Result.ok_bind, unprivileged, Bool.false_eq_true,
        if_false, masked, narrowed, wanted, unconfined, Security.install,
        if_true]

/-- The credentials after the switch of the user on the reference kernel. -/
def switched (uid gid : UInt32) (c : Creds) : Creds :=
  { c with
    uid := uid
    gid := gid
    permitted := if c.uid = 0 ∧ uid ≠ 0 then 0 else c.permitted
    effective := if c.uid = 0 ∧ uid ≠ 0 then 0 else c.effective
    ambient := if c.uid = 0 ∧ uid ≠ 0 then 0 else c.ambient }

/-- With the two capabilities the child switches the user and executes. -/
theorem workloadChild_linux
    {uid gid : UInt32}
    {c : Creds}
    (setuid : holds c.effective capSetuid = true)
    (setgid : holds c.effective capSetgid = true)
    (program : Program) :
    workloadChild linux (some (uid, gid)) program c =
      .ok (linuxExecve program (switched uid gid c)) := by
  have groups : linux.setgroups c = .ok c := by
    simp [linux, needs, setgid]
  have group : linux.setgid gid c = .ok { c with gid := gid } := by
    simp [linux, needs, setgid]
  have user :
      linux.setuid uid { c with gid := gid } = .ok (switched uid gid c) := by
    simp [linux, needs, setuid, switched]
  unfold workloadChild Caps.switchUser
  simp only [groups, Except.mapError, Result.ok_bind, group, user]
  rfl

/-- Root executes with what its bounding set allows. -/
theorem linuxExecve_root_holds
    {c : Creds}
    {v : Nat}
    (root : c.uid = 0)
    (bounding : holds c.bounding v = true)
    (permitted : holds c.permitted v = true)
    (program : Program) :
    holds (linuxExecve program c).permitted v = true := by
  unfold linuxExecve
  cases c.noNewPrivs <;> simp_all [holds]

/-- A set-uid root program executes with the whole bounding set. -/
theorem linuxExecve_setuid_holds
    {c : Creds}
    {v : Nat}
    (off : c.noNewPrivs = false)
    (bounding : holds c.bounding v = true) :
    holds (linuxExecve ⟨true⟩ c).permitted v = true := by
  simp [linuxExecve, off, bounding]

private theorem linux_executes (program : Program) (c : Creds) :
    Executes linux c (linuxExecve program c) :=
  .step program rfl (.refl _)

/-- What `precheck` accepts has a mask. -/
theorem capMask_of_precheck
    {sec : SecurityConfig}
    (unprivileged : sec.privileged = false)
    (checked : Security.precheck sec = .ok ()) :
    ∃ mask, sec.capMask = .ok mask := by
  cases hmask : sec.capMask with
  | ok mask => exact ⟨mask, rfl⟩
  | error e =>
      unfold Security.precheck at checked
      rw [if_neg (by simp [unprivileged]), hmask, Result.error_bind] at checked
      cases checked

/--
A switch to another user of an unprivileged container runs on the reference
kernel, from a process of root that has the mask.
-/
theorem runs_linux
    {arch : Seccomp.Arch}
    {sec : SecurityConfig}
    {mask keep : UInt64}
    {uid gid : UInt32}
    (unprivileged : sec.privileged = false)
    (checked : Security.precheck sec = .ok ())
    (masked : sec.capMask = .ok mask)
    (resolved :
      resolveKeepSet defaultKeep sec.capAdd sec.capDrop = .ok keep)
    (named : sec.user = some (uid, gid)) :
    ∃ c,
      (∀ program,
        Runs linux arch sec fullCreds program
          (linuxExecve program (switched uid gid c))) ∧
        c.noNewPrivs = sec.noNewPrivs ∧
          c.permitted = mask ∧ Within mask c.bounding := by
  have bits := holds_capMask unprivileged masked resolved
  have switching : sec.user.isSome = true := by rw [named]; rfl
  have setuid : holds mask capSetuid = true :=
    (bits capSetuid).mpr (Or.inr ⟨switching, Or.inr rfl⟩)
  have setgid : holds mask capSetgid = true :=
    (bits capSetgid).mpr (Or.inr ⟨switching, Or.inl rfl⟩)
  have within : Within mask allCaps := by
    intro v held
    rw [holds_allCaps, decide_eq_true_eq]
    rcases (bits v).mp held with kept | ⟨_, rfl | rfl⟩
    · exact keep_lt resolved kept
    · decide
    · decide
  obtain ⟨c, applied, _, nnp, permitted, effective, bounding⟩ :=
    @security_apply_linux arch sec mask unprivileged checked masked within
  refine ⟨c, ?_, nnp, permitted, bounding⟩
  intro program
  refine ⟨c, applied, ?_⟩
  rw [named]
  exact workloadChild_linux (effective ▸ setuid) (effective ▸ setgid) program

/-- A switch that is confined adds nothing, or takes away what it added. -/
theorem added_kept_of_confined
    {arch : Seccomp.Arch}
    {sec : SecurityConfig}
    {mask keep : UInt64}
    {uid gid : UInt32}
    (unprivileged : sec.privileged = false)
    (checked : Security.precheck sec = .ok ())
    (masked : sec.capMask = .ok mask)
    (resolved :
      resolveKeepSet defaultKeep sec.capAdd sec.capDrop = .ok keep)
    (named : sec.user = some (uid, gid))
    (confined : Confined arch sec)
    (stays : uid = 0 ∨ sec.noNewPrivs = false) :
    Within mask keep := by
  obtain ⟨c, runs, nnp, permitted, bounding⟩ :=
    @runs_linux arch sec mask keep uid gid unprivileged checked masked
      resolved named
  intro v held
  rcases stays with rfl | off
  · have within :=
      (confined.workload Program linux linux_lawful fullCreds fullCreds_start
        ⟨false⟩ _ (runs ⟨false⟩) keep resolved).1
    apply within v
    have still : holds (switched 0 gid c).permitted v = true := by
      simp [switched, permitted, held]
    exact @linuxExecve_root_holds (switched 0 gid c) v rfl (bounding v held)
      still ⟨false⟩
  · have within :=
      (confined.obtained off Program linux linux_lawful fullCreds
        fullCreds_start ⟨false⟩ _ (runs ⟨false⟩) _
        (linux_executes ⟨true⟩ _) keep resolved).1
    apply within v
    exact linuxExecve_setuid_holds (nnp.trans off) (bounding v held)

/--
A workload is confined exactly when there is no switch of the user, the keep
set has the two capabilities the switch needs, or the switch goes to another
user than root under `no_new_privs`.
-/
theorem confined_iff
    (arch : Seccomp.Arch)
    (sec : SecurityConfig)
    (unprivileged : sec.privileged = false)
    (checked : Security.precheck sec = .ok ()) :
    Confined arch sec ↔ SwitchIsCovered sec := by
  refine ⟨?_, confined_of_covered unprivileged⟩
  intro confined
  obtain ⟨mask, masked⟩ := capMask_of_precheck unprivileged checked
  rcases named : sec.user with _ | ⟨uid, gid⟩
  · exact Or.inl named
  · by_cases stays : uid = 0 ∨ sec.noNewPrivs = false
    · refine Or.inr (Or.inl ?_)
      intro keep resolved
      have within :=
        added_kept_of_confined unprivileged checked masked resolved named
          confined stays
      have bits := holds_capMask unprivileged masked resolved
      have switching : sec.user.isSome = true := by rw [named]; rfl
      exact ⟨within _ ((bits capSetuid).mpr (Or.inr ⟨switching, Or.inr rfl⟩)),
        within _ ((bits capSetgid).mpr (Or.inr ⟨switching, Or.inl rfl⟩))⟩
    · rw [not_or] at stays
      exact Or.inr (Or.inr
        ⟨uid, gid, named, stays.1, by simpa using stays.2⟩)

/-- `--user 1000:1000` with all but one capability dropped. -/
def chownUser : SecurityConfig :=
  { capAdd := ["CHOWN"], capDrop := ["all"], user := some (1000, 1000) }

/-- The switch to another user without new privileges is confined. -/
theorem chownUser_confined :
    Security.precheck chownUser = .ok () ∧
      resolveKeepSet defaultKeep chownUser.capAdd chownUser.capDrop = .ok 1 ∧
        chownUser.capMask = .ok 193 ∧ Confined .x86_64 chownUser := by
  have checked : Security.precheck chownUser = .ok () := by
    decide +kernel
  have covered : SwitchIsCovered chownUser :=
    .inr (.inr ⟨1000, 1000, rfl, by decide, rfl⟩)
  exact ⟨checked, by decide +kernel, by decide +kernel,
    (confined_iff .x86_64 chownUser rfl checked).mpr covered⟩

/-- `--user 0:0` with every capability dropped. -/
def droppedRoot : SecurityConfig :=
  { capDrop := ["all"], user := some (0, 0) }

/-- Root without capabilities still has the two of the switch. -/
theorem dropped_root_is_not_confined :
    droppedRoot.privileged = false ∧
      Security.precheck droppedRoot = .ok () ∧
        ¬ Confined .x86_64 droppedRoot := by
  have checked : Security.precheck droppedRoot = .ok () := by
    decide +kernel
  have masked :
      droppedRoot.capMask =
        .ok (0 ||| capBit (UInt64.ofNat capSetuid) |||
          capBit (UInt64.ofNat capSetgid)) := by
    decide +kernel
  have resolved :
      resolveKeepSet defaultKeep droppedRoot.capAdd droppedRoot.capDrop =
        .ok 0 := by
    decide +kernel
  refine ⟨rfl, checked, fun confined => ?_⟩
  have within :=
    added_kept_of_confined rfl checked masked resolved rfl confined
      (Or.inl rfl)
  exact absurd (within capSetuid (by decide +kernel)) (by decide +kernel)

end Myrun
