import Myrun.Error

namespace Myrun

/-!
# Capabilities and seccomp modes

The parts of `src/sys/caps.rs` and `src/sys/seccomp.rs` that a configuration
is checked against: capability names, the resolution of a keep set, and the
names of the seccomp modes.
-/

/-- `CAP_TABLE`: names without the `CAP_` part, in the order of their values. -/
def capNames : List String :=
  ["CHOWN", "DAC_OVERRIDE", "DAC_READ_SEARCH", "FOWNER", "FSETID", "KILL",
    "SETGID", "SETUID", "SETPCAP", "LINUX_IMMUTABLE", "NET_BIND_SERVICE",
    "NET_BROADCAST", "NET_ADMIN", "NET_RAW", "IPC_LOCK", "IPC_OWNER",
    "SYS_MODULE", "SYS_RAWIO", "SYS_CHROOT", "SYS_PTRACE", "SYS_PACCT",
    "SYS_ADMIN", "SYS_BOOT", "SYS_NICE", "SYS_RESOURCE", "SYS_TIME",
    "SYS_TTY_CONFIG", "MKNOD", "LEASE", "AUDIT_WRITE", "AUDIT_CONTROL",
    "SETFCAP", "MAC_OVERRIDE", "MAC_ADMIN", "SYSLOG", "WAKE_ALARM",
    "BLOCK_SUSPEND", "AUDIT_READ", "PERFMON", "BPF", "CHECKPOINT_RESTORE"]

/-- `CAP_TABLE`: name and value. -/
def capTable : List (String × UInt64) :=
  capNames.zipIdx.map fun entry => (entry.1, UInt64.ofNat entry.2)

/-- `DEFAULT_KEEP`. -/
def defaultKeep : List String :=
  ["CHOWN", "DAC_OVERRIDE", "FOWNER", "FSETID", "KILL", "SETGID", "SETUID",
    "SETPCAP", "NET_BIND_SERVICE", "SYS_CHROOT", "MKNOD", "AUDIT_WRITE"]

/-- `parse_cap`. -/
def parseCap (name : String) : Result UInt64 :=
  let upper := toAsciiUppercase (trim name)
  let bare := (stripLeading "CAP_" upper).getD upper
  match capTable.find? fun entry => entry.1 = bare with
  | some (_, value) => .ok value
  | none => .error (.config ("unknown capability " ++ debugStr name))

/-- The bit of a capability, `1u64 << value`. -/
def capBit (value : UInt64) : UInt64 :=
  1 <<< value

/-- Every capability of the table. -/
def allCaps : UInt64 :=
  capTable.foldl (fun mask entry => mask ||| capBit entry.2) 0

/-- The loop of `resolve_keep_set` over the base list. -/
def keepBase : List String → UInt64 → Result UInt64
  | [], mask => .ok mask
  | c :: rest, mask => do
      let value ← parseCap c
      keepBase rest (mask ||| capBit value)

/-- The loop of `resolve_keep_set` over the dropped names. -/
def keepDrop : List String → UInt64 → Result UInt64
  | [], mask => .ok mask
  | c :: rest, mask => do
      let value ← parseCap c
      keepDrop rest (mask &&& ~~~ capBit value)

/-- The loop of `resolve_keep_set` over the added names. -/
def keepAdd : List String → UInt64 → Result UInt64
  | [], mask => .ok mask
  | c :: rest, mask =>
      if eqIgnoreAsciiCase c "all" then keepAdd rest (mask ||| allCaps)
      else do
        let value ← parseCap c
        keepAdd rest (mask ||| capBit value)

/-- `resolve_keep_set`. -/
def resolveKeepSet (base add drop : List String) : Result UInt64 := do
  let all := drop.any fun d => eqIgnoreAsciiCase d "all"
  let mask ←
    if all then .ok 0
    else do
      let kept ← keepBase base 0
      keepDrop drop kept
  keepAdd add mask

/-- The seccomp profiles. -/
inductive SeccompMode where
  | unconfined
  | default
  | strict
  deriving Repr, DecidableEq

namespace SeccompMode

/-- `SeccompMode::as_str`. -/
def asStr : SeccompMode → String
  | unconfined => "unconfined"
  | default => "default"
  | strict => "strict"

/-- `SeccompMode::parse`. -/
def parse (s : String) : Result SeccompMode :=
  let word := toAsciiLowercase (trim s)
  if word = "unconfined" ∨ word = "off" ∨ word = "none" then .ok unconfined
  else if word = "default" ∨ word = "on" then .ok default
  else if word = "strict" then .ok strict
  else
    .error (.config ("unknown seccomp mode " ++ debugStr word ++
      " (expected unconfined|default|strict)"))

/-- The printed name of a mode is read back. -/
@[simp] theorem parse_asStr (mode : SeccompMode) :
    parse mode.asStr = .ok mode := by
  cases mode <;> decide

end SeccompMode

end Myrun
