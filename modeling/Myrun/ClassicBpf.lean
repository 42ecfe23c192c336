import Mathlib.Data.List.Basic
import Mathlib.Tactic.Common

namespace ClassicBpf

/-!
# A classic BPF machine

The part of the classic packet filter that system call filters are written
in: an accumulator, loads of whole words from the data under inspection,
conditional jumps forward, and returns. The data is a partial function from
offsets to words, so that a load outside it is refused.

Jumps are relative to the next instruction and only go forward, so a run
takes at most as many steps as the program has instructions. `interpret`
counts them down.
-/

/-- One instruction: an operation code, two jump offsets and an operand. -/
structure Instruction where
  code : UInt16
  jt : UInt8
  jf : UInt8
  k : UInt32
  deriving Repr, DecidableEq

/-- `BPF_LD | BPF_W | BPF_ABS`: load the word at offset `k`. -/
def ldWordAbs : UInt16 := 0x20

/-- `BPF_JMP | BPF_JA | BPF_K`: jump by `k`. -/
def jumpAlways : UInt16 := 0x05

/-- `BPF_JMP | BPF_JEQ | BPF_K`. -/
def jumpEq : UInt16 := 0x15

/-- `BPF_JMP | BPF_JGT | BPF_K`. -/
def jumpGt : UInt16 := 0x25

/-- `BPF_JMP | BPF_JGE | BPF_K`. -/
def jumpGe : UInt16 := 0x35

/-- `BPF_JMP | BPF_JSET | BPF_K`. -/
def jumpSet : UInt16 := 0x45

/-- `BPF_RET | BPF_K`. -/
def retK : UInt16 := 0x06

/-- `BPF_RET | BPF_A`. -/
def retA : UInt16 := 0x16

/-- What one instruction leads to. -/
inductive Next where
  | goto (pc : Nat) (accumulator : UInt32)
  | ret (value : UInt32)
  deriving Repr, DecidableEq

section Machine

variable (data : Nat → Option UInt32)

/-- A conditional jump from `pc`. -/
def branch (insn : Instruction) (holds : Bool) (pc : Nat)
    (accumulator : UInt32) : Next :=
  .goto (pc + 1 + (if holds then insn.jt else insn.jf).toNat) accumulator

/-- One instruction at `pc`. Operations outside the subset are refused. -/
def execute (insn : Instruction) (pc : Nat) (accumulator : UInt32) :
    Option Next :=
  if insn.code = ldWordAbs then
    (data insn.k.toNat).map fun word => .goto (pc + 1) word
  else if insn.code = jumpAlways then
    some (.goto (pc + 1 + insn.k.toNat) accumulator)
  else if insn.code = jumpEq then
    some (branch insn (accumulator = insn.k) pc accumulator)
  else if insn.code = jumpGt then
    some (branch insn (insn.k < accumulator) pc accumulator)
  else if insn.code = jumpGe then
    some (branch insn (insn.k ≤ accumulator) pc accumulator)
  else if insn.code = jumpSet then
    some (branch insn (accumulator &&& insn.k ≠ 0) pc accumulator)
  else if insn.code = retK then some (.ret insn.k)
  else if insn.code = retA then some (.ret accumulator)
  else none

/-- One step of a program; nothing when `pc` is outside it. -/
def step (prog : List Instruction) (pc : Nat) (accumulator : UInt32) :
    Option Next :=
  match prog[pc]? with
  | some insn => execute data insn pc accumulator
  | none => none

/-- At most `fuel` steps from `pc`. -/
def run (prog : List Instruction) :
    Nat → Nat → UInt32 → Option UInt32
  | 0, _, _ => none
  | fuel + 1, pc, accumulator =>
      match step data prog pc accumulator with
      | some (.goto pc' accumulator') => run prog fuel pc' accumulator'
      | some (.ret value) => some value
      | none => none

/-- The value returned from `pc` on. -/
def runFrom (prog : List Instruction) (pc : Nat) (accumulator : UInt32) :
    Option UInt32 :=
  run data prog (prog.length - pc) pc accumulator

/--
The value a program returns on `data`, or nothing when it leaves the program,
loads a word that is not there, or meets an unknown instruction.
-/
def interpret (prog : List Instruction) : Option UInt32 :=
  runFrom data prog 0 0

variable {data}
variable {prog : List Instruction}

/-! ## Steps go forward -/

end Machine

end ClassicBpf
