import Myrun.ClassicBpf
import Myrun.KeepSet

namespace Myrun

/-!
# Credentials and the kernel that changes them

The five capability sets of a process, its user, and `no_new_privs`. The
system calls that change them are a parameter, `Kernel`; `Kernel.Lawful` is
what the manual pages say of a call that succeeds. `linux` is a kernel that
obeys them, with the privilege checks the real one makes.
-/

/-- The credentials of a process. -/
structure Creds where
  uid : UInt32
  gid : UInt32
  permitted : UInt64
  effective : UInt64
  inheritable : UInt64
  bounding : UInt64
  ambient : UInt64
  noNewPrivs : Bool
  deriving Repr, DecidableEq

/-- Every capability of one mask is in the other. -/
def Within (mask other : UInt64) : Prop :=
  ∀ v, holds mask v = true → holds other v = true

theorem Within.refl (mask : UInt64) : Within mask mask :=
  fun _ held => held

theorem Within.trans
    {mask other third : UInt64}
    (first : Within mask other)
    (second : Within other third) :
    Within mask third :=
  fun v held => second v (first v held)

@[simp] theorem zero_within (mask : UInt64) : Within 0 mask := by
  intro v held
  simp at held

/-- `EPERM`. -/
def eperm : Int32 := 1

/-- `EINVAL`. -/
def einval : Int32 := 22

/--
The system calls that read and change credentials, for images of a type, and
the text of `/proc/sys/kernel/cap_last_cap` where it can be read.
-/
structure Kernel (Image : Type) where
  lastCap : Nat
  capLastCap : Option String
  clearAmbient : Creds → Except Int32 Creds
  dropBounding : Nat → Creds → Except Int32 Creds
  capset : UInt64 → UInt64 → UInt64 → Creds → Except Int32 Creds
  setNoNewPrivs : Creds → Except Int32 Creds
  installFilter :
    List ClassicBpf.Instruction → Creds → Except Int32 Creds
  setgroups : Creds → Except Int32 Creds
  setgid : UInt32 → Creds → Except Int32 Creds
  setuid : UInt32 → Creds → Except Int32 Creds
  execve : Image → Creds → Except Int32 Creds

/--
What is documented of these calls. `setuid` clears the permitted and effective
sets exactly when the user changes from 0 to another; `execve` yields nothing
outside the bounding set, and under `no_new_privs` nothing that was not
permitted before.
-/
structure Kernel.Lawful {Image : Type} (kernel : Kernel Image) : Prop where
  lastCap_lt : kernel.lastCap < 64
  lastCap_file :
    kernel.capLastCap = some (toString kernel.lastCap ++ "\n") ∨
      kernel.capLastCap = none ∧ kernel.lastCap ≤ 40
  clearAmbient :
    ∀ c c', kernel.clearAmbient c = .ok c' → c' = { c with ambient := 0 }
  dropBounding :
    ∀ v c c', kernel.dropBounding v c = .ok c' →
      c' = { c with bounding := c.bounding &&& ~~~capBit (UInt64.ofNat v) }
  dropBounding_unknown :
    ∀ v c, kernel.dropBounding v c = .error einval → kernel.lastCap < v
  capset :
    ∀ effective permitted inheritable c c',
      kernel.capset effective permitted inheritable c = .ok c' →
        c' = { c with
          effective := effective
          permitted := permitted
          inheritable := inheritable
          ambient := c.ambient &&& (permitted &&& inheritable) }
  setNoNewPrivs :
    ∀ c c', kernel.setNoNewPrivs c = .ok c' → c' = { c with noNewPrivs := true }
  installFilter : ∀ prog c c', kernel.installFilter prog c = .ok c' → c' = c
  setgroups : ∀ c c', kernel.setgroups c = .ok c' → c' = c
  setgid : ∀ gid c c', kernel.setgid gid c = .ok c' → c' = { c with gid := gid }
  setuid :
    ∀ uid c c', kernel.setuid uid c = .ok c' →
      c'.uid = uid ∧ c'.bounding = c.bounding ∧
        c'.noNewPrivs = c.noNewPrivs ∧
        c'.permitted = (if c.uid = 0 ∧ uid ≠ 0 then 0 else c.permitted) ∧
        c'.effective = (if c.uid = 0 ∧ uid ≠ 0 then 0 else c.effective)
  execve :
    ∀ image c c', kernel.execve image c = .ok c' →
      c'.bounding = c.bounding ∧ c'.noNewPrivs = c.noNewPrivs ∧
        Within c'.permitted c.bounding ∧
        Within c'.effective c'.permitted ∧
        (c.noNewPrivs = true → Within c'.permitted c.permitted)

/-! ## A kernel that obeys them -/

/-- What `execve` looks at in a file: the set-uid bit of a file of root. -/
structure Program where
  setuidRoot : Bool
  deriving Repr, DecidableEq

/-- A check of an effective capability before a change. -/
def needs (v : Nat) (c : Creds) (changed : Creds) : Except Int32 Creds :=
  if holds c.effective v then .ok changed else .error eperm

/-- `CAP_SETGID`. -/
def capSetgid : Nat := 6

/-- `CAP_SETUID`. -/
def capSetuid : Nat := 7

/-- `CAP_SETPCAP`. -/
def capSetpcap : Nat := 8

/-- `CAP_SYS_ADMIN`. -/
def capSysAdmin : Nat := 21

/-- `execve` on Linux, for files without capabilities of their own. -/
def linuxExecve (program : Program) (c : Creds) : Creds :=
  -- `no_new_privs` takes the set-uid bit away.
  let root := c.uid = 0 ∨ (program.setuidRoot = true ∧ c.noNewPrivs = false)
  let gained := if root then c.bounding else 0
  let permitted := if c.noNewPrivs then gained &&& c.permitted else gained
  { c with
    permitted := permitted
    effective := permitted
    ambient := 0 }

/-- Linux with the capabilities of the table. -/
def linux : Kernel Program where
  lastCap := 40
  capLastCap := some "40\n"
  clearAmbient c := .ok { c with ambient := 0 }
  dropBounding v c :=
    if 40 < v then .error einval
    else
      needs capSetpcap c
        { c with bounding := c.bounding &&& ~~~capBit (UInt64.ofNat v) }
  capset effective permitted inheritable c :=
    if permitted &&& ~~~c.permitted ≠ 0 ∨ effective &&& ~~~permitted ≠ 0 then
      .error eperm
    else
      .ok { c with
        effective := effective
        permitted := permitted
        inheritable := inheritable
        ambient := c.ambient &&& (permitted &&& inheritable) }
  setNoNewPrivs c := .ok { c with noNewPrivs := true }
  installFilter _ c :=
    if c.noNewPrivs then .ok c else needs capSysAdmin c c
  setgroups c := needs capSetgid c c
  setgid gid c := needs capSetgid c { c with gid := gid }
  setuid uid c :=
    needs capSetuid c
      { c with
        uid := uid
        permitted := if c.uid = 0 ∧ uid ≠ 0 then 0 else c.permitted
        effective := if c.uid = 0 ∧ uid ≠ 0 then 0 else c.effective
        ambient := if c.uid = 0 ∧ uid ≠ 0 then 0 else c.ambient }
  execve program c := .ok (linuxExecve program c)

private theorem needs_eq_ok
    {v : Nat}
    {c changed c' : Creds}
    (done : needs v c changed = .ok c') :
    c' = changed := by
  unfold needs at done
  split at done
  · exact (Except.ok.inj done).symm
  · cases done

private theorem needs_ne_einval
    {v : Nat}
    {c changed : Creds} :
    needs v c changed ≠ .error einval := by
  unfold needs
  split
  · simp
  · decide

theorem within_and_left (mask other : UInt64) :
    Within (mask &&& other) mask := by
  intro v held
  simp only [holds, UInt64.toBitVec_and, BitVec.getLsbD_and,
    Bool.and_eq_true] at held
  exact held.1

private theorem within_and_right (mask other : UInt64) :
    Within (mask &&& other) other := by
  intro v held
  simp only [holds, UInt64.toBitVec_and, BitVec.getLsbD_and,
    Bool.and_eq_true] at held
  exact held.2

/-- The reference kernel is one of those the manual pages describe. -/
theorem linux_lawful : linux.Lawful where
  lastCap_lt := by decide
  lastCap_file := Or.inl (by decide +kernel)
  clearAmbient c c' done := (Except.ok.inj done).symm
  dropBounding v c c' done := by
    simp only [linux] at done
    split at done
    · cases done
    · exact needs_eq_ok done
  dropBounding_unknown v c failed := by
    simp only [linux] at failed
    split at failed
    case isTrue large => exact large
    case isFalse => exact absurd failed needs_ne_einval
  capset effective permitted inheritable c c' done := by
    simp only [linux] at done
    split at done
    · cases done
    · exact (Except.ok.inj done).symm
  setNoNewPrivs c c' done := (Except.ok.inj done).symm
  installFilter prog c c' done := by
    simp only [linux] at done
    split at done
    · exact (Except.ok.inj done).symm
    · exact needs_eq_ok done
  setgroups c c' done := needs_eq_ok done
  setgid gid c c' done := needs_eq_ok done
  setuid uid c c' done := by
    rw [needs_eq_ok done]
    exact ⟨rfl, rfl, rfl, rfl, rfl⟩
  execve program c c' done := by
    have same : c' = linuxExecve program c := (Except.ok.inj done).symm
    subst same
    have gained :
        Within
          (if c.uid = 0 ∨ (program.setuidRoot = true ∧ c.noNewPrivs = false)
            then c.bounding else 0)
          c.bounding := by
      split
      · exact Within.refl _
      · exact zero_within _
    refine ⟨rfl, rfl, ?_, Within.refl _, ?_⟩
    · unfold linuxExecve
      dsimp only
      split
      · exact (within_and_left _ _).trans gained
      · exact gained
    · intro sealed
      unfold linuxExecve
      dsimp only
      rw [if_pos sealed]
      exact within_and_right _ _

end Myrun
