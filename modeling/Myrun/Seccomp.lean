import Myrun.Capability
import Myrun.ClassicBpf

namespace Myrun

/-!
# The system call filter

`src/sys/seccomp.rs`: which system calls a mode denies, and the classic BPF
program `build_filter` assembles for them. The machine that runs it is the one
of `ClassicBpf`. The architecture is fixed when the source is compiled; here
it is an argument.
-/

open ClassicBpf

namespace Seccomp

/-- The architectures `ffi.rs` knows. -/
inductive Arch where
  | x86_64
  | aarch64
  deriving Repr, DecidableEq

/-- `AUDIT_ARCH_NATIVE`. -/
def Arch.audit : Arch → UInt32
  | x86_64 => 0xc000003e
  | aarch64 => 0xc00000b7

/-- `SYSCALLS`: the name and its number on each architecture. -/
def syscalls : List (String × Int × Int) :=
  [("mount", 165, 40), ("umount2", 166, 39), ("pivot_root", 155, 41),
    ("chroot", 161, 51), ("swapon", 167, 224), ("swapoff", 168, 225),
    ("reboot", 169, 142), ("sethostname", 170, 161),
    ("setdomainname", 171, 162), ("init_module", 175, 105),
    ("finit_module", 313, 273), ("delete_module", 176, 106),
    ("kexec_load", 246, 104), ("kexec_file_load", 320, 294),
    ("open_by_handle_at", 304, 265), ("name_to_handle_at", 303, 264),
    ("add_key", 248, 217), ("request_key", 249, 218), ("keyctl", 250, 219),
    ("setns", 308, 268), ("unshare", 272, 97), ("bpf", 321, 280),
    ("perf_event_open", 298, 241), ("clock_settime", 227, 112),
    ("clock_adjtime", 305, 266), ("settimeofday", 164, 170),
    ("adjtimex", 159, 171), ("acct", 163, 89), ("quotactl", 179, 60),
    ("ioperm", 173, -1), ("iopl", 172, -1), ("uselib", 134, -1),
    ("nfsservctl", 180, -1), ("fsopen", 430, 430), ("fsconfig", 431, 431),
    ("fsmount", 432, 432), ("move_mount", 429, 429), ("open_tree", 428, 428),
    ("mount_setattr", 442, 442), ("ptrace", 101, 117),
    ("process_vm_readv", 310, 270), ("process_vm_writev", 311, 271),
    ("syslog", 103, 116)]

/-- `DEFAULT_DENY`. -/
def defaultDeny : List String :=
  ["mount", "umount2", "pivot_root", "chroot", "swapon", "swapoff", "reboot",
    "sethostname", "setdomainname", "init_module", "finit_module",
    "delete_module", "kexec_load", "kexec_file_load", "open_by_handle_at",
    "name_to_handle_at", "add_key", "request_key", "keyctl", "setns", "unshare",
    "bpf", "perf_event_open", "clock_settime", "clock_adjtime", "settimeofday",
    "adjtimex", "acct", "quotactl", "ioperm", "iopl", "uselib", "nfsservctl",
    "fsopen", "fsconfig", "fsmount", "move_mount", "open_tree", "mount_setattr"]

/-- `STRICT_EXTRA`. -/
def strictExtra : List String :=
  ["ptrace", "process_vm_readv", "process_vm_writev", "syslog"]

/-- `syscall_nr`. -/
def syscallNr (arch : Arch) (name : String) : Option UInt32 :=
  (syscalls.find? fun entry => entry.1 = name).bind fun entry =>
    let v :=
      match arch with
      | .x86_64 => entry.2.1
      | .aarch64 => entry.2.2
    if v < 0 then none else some (UInt32.ofNat v.toNat)

/-- `denied_syscalls`. -/
def deniedSyscalls : SeccompMode → List String
  | .unconfined => []
  | .default => defaultDeny
  | .strict => defaultDeny ++ strictExtra

/-- `stmt`. -/
def stmt (code : UInt16) (k : UInt32) : Instruction :=
  ⟨code, 0, 0, k⟩

/-- `jump`. -/
def jump (code : UInt16) (k : UInt32) (jt jf : UInt8) : Instruction :=
  ⟨code, jt, jf, k⟩

/-- `SECCOMP_RET_KILL_PROCESS`. -/
def retKillProcess : UInt32 := 0x80000000

/-- `SECCOMP_RET_ERRNO`. -/
def retErrno : UInt32 := 0x00050000

/-- `SECCOMP_RET_ALLOW`. -/
def retAllow : UInt32 := 0x7fff0000

/-- `SECCOMP_RET_DATA`. -/
def retData : UInt32 := 0x0000ffff

/-- `EPERM`. -/
def eperm : UInt32 := 1

/-- `has_x32_guard`. -/
def hasX32Guard : Arch → Bool
  | .x86_64 => true
  | .aarch64 => false

/-- `first_check`: the index of the first comparison with a denied number. -/
def firstCheck (arch : Arch) : Nat :=
  if hasX32Guard arch then 4 else 3

/-- `allow_idx` for `n` denied numbers. -/
def allowIdx (arch : Arch) (n : Nat) : Nat :=
  firstCheck arch + n

/-- `deny_idx`. -/
def denyIdx (arch : Arch) (n : Nat) : Nat :=
  allowIdx arch n + 1

/-- `kill_idx`. -/
def killIdx (arch : Arch) (n : Nat) : Nat :=
  allowIdx arch n + 2

/-- The offset of the jump taken on a foreign architecture. -/
def archOffset (arch : Arch) (n : Nat) : Nat :=
  killIdx arch n - 2

/-- The offset of the jump taken on an x32 number. -/
def x32Offset (arch : Arch) (n : Nat) : Nat :=
  killIdx arch n - 4

/-- The offset of the jump taken on the denied number at place `i`. -/
def denyOffset (arch : Arch) (n i : Nat) : Nat :=
  denyIdx arch n - (firstCheck arch + i) - 1

/-- `deny_action`. -/
def denyAction (mode : SeccompMode) : UInt32 :=
  if mode = .strict then retKillProcess else retErrno ||| (eperm &&& retData)

/-- The comparisons with the denied numbers, `as u8` casts included. -/
def denyChecks (arch : Arch) (nrs : List UInt32) : List Instruction :=
  nrs.zipIdx.map fun (nr, i) =>
    jump jumpEq nr (UInt8.ofNat (denyOffset arch nrs.length i)) 0

/-- The program of `build_filter` for a list of denied numbers. -/
def assembled (arch : Arch) (mode : SeccompMode) (nrs : List UInt32) :
    List Instruction :=
  [stmt ldWordAbs 4,
      jump jumpEq arch.audit 0 (UInt8.ofNat (archOffset arch nrs.length)),
      stmt ldWordAbs 0] ++
    (if hasX32Guard arch then
      [jump jumpGe 0x40000000 (UInt8.ofNat (x32Offset arch nrs.length)) 0]
    else []) ++
    denyChecks arch nrs ++
    [stmt retK retAllow, stmt retK (denyAction mode), stmt retK retKillProcess]

/-- `build_filter` after the denied numbers are looked up. -/
def assemble (arch : Arch) (mode : SeccompMode) (nrs : List UInt32) :
    Result (List Instruction) :=
  if 250 < killIdx arch nrs.length then
    .error (.unsupported "seccomp filter too large for 8-bit jump offsets")
  else .ok (assembled arch mode nrs)

/-- The numbers `build_filter` looks up for a mode. -/
def resolvedDeny (arch : Arch) (mode : SeccompMode) : List UInt32 :=
  (deniedSyscalls mode).filterMap (syscallNr arch)

/-- `build_filter`. -/
def buildFilter (arch : Arch) (mode : SeccompMode) :
    Result (List Instruction) :=
  assemble arch mode (resolvedDeny arch mode)

/-! ## What a filter is asked -/

/-- `struct seccomp_data`: the words after the first two are `rest`. -/
structure SeccompData where
  nr : UInt32
  arch : UInt32
  rest : Nat → UInt32

/-- The word at an offset; the kernel refuses loads outside the 64 bytes. -/
def SeccompData.word (call : SeccompData) (offset : Nat) : Option UInt32 :=
  if offset % 4 ≠ 0 ∨ 64 ≤ offset then none
  else if offset = 0 then some call.nr
  else if offset = 4 then some call.arch
  else some (call.rest (offset / 4 - 2))

section Layout

variable (arch : Arch) (mode : SeccompMode) (nrs : List UInt32)

variable {arch nrs}

variable {mode} {call : SeccompData}

end Layout

/-- The deny list of every mode passes the size check. -/
theorem resolvedDeny_small
    (arch : Arch)
    (mode : SeccompMode) :
    killIdx arch (resolvedDeny arch mode).length ≤ 250 := by
  cases arch <;> cases mode <;> decide +kernel

/-- The size check is the only way `assemble` fails. -/
theorem assemble_eq_ok_iff
    {arch : Arch}
    {mode : SeccompMode}
    {nrs : List UInt32}
    {prog : List Instruction} :
    assemble arch mode nrs = .ok prog ↔
      killIdx arch nrs.length ≤ 250 ∧ prog = assembled arch mode nrs := by
  unfold assemble
  split
  case isTrue large =>
      simp only [reduceCtorEq, false_iff, not_and]
      intro small
      omega
  case isFalse small =>
      simp only [Except.ok.injEq]
      constructor
      · rintro rfl
        exact ⟨by omega, rfl⟩
      · rintro ⟨_, rfl⟩
        rfl

end Seccomp

end Myrun
