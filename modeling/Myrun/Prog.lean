import Mathlib.Logic.Basic

namespace Myrun

/-!
# Programs that ask their host

A program either returns a value or performs one operation and continues with
the answer.  What the operations do is left to whoever runs the program, so one
program text is used for sequential executions and for interleavings.

`Fallible` adds early return on an error, `Staged` adds a state that survives
such a return.  `Prog.wp` is the weakest precondition of a program for a
contract, which says for each operation what is required of the caller and what
may be assumed of the answer.  This module is independent of any particular set
of operations.
-/

/-- A program over operations `Op` with answers `Ans`. -/
inductive Prog (Op : Type) (Ans : Op → Type) (α : Type) : Type where
  | ret (value : α)
  | call (op : Op) (next : Ans op → Prog Op Ans α)

namespace Prog

variable {Op : Type} {Ans : Op → Type} {α β : Type}

/-- Run the first program and hand its value to the second. -/
def bind : Prog Op Ans α → (α → Prog Op Ans β) → Prog Op Ans β
  | ret value, f => f value
  | call op next, f => call op fun answer => (next answer).bind f

/-- One operation. -/
def perform (op : Op) : Prog Op Ans (Ans op) :=
  call op ret

instance : Monad (Prog Op Ans) where
  pure := ret
  bind := bind

@[simp] theorem pure_def (value : α) :
    (pure value : Prog Op Ans α) = ret value :=
  rfl

@[simp] theorem bind_def
    (p : Prog Op Ans α)
    (f : α → Prog Op Ans β) :
    p >>= f = p.bind f :=
  rfl

theorem bind_assoc
    {γ : Type}
    (p : Prog Op Ans α)
    (f : α → Prog Op Ans β)
    (g : β → Prog Op Ans γ) :
    (p.bind f).bind g = p.bind fun value => (f value).bind g := by
  induction p with
  | ret value =>
      rfl
  | call op next inductionHypothesis =>
      simp only [bind]
      congr 1
      funext answer
      exact inductionHypothesis answer

/-- The same program over a larger set of operations. -/
def map {Op' : Type} {Ans' : Op' → Type} (inject : Op → Op')
    (back : ∀ op, Ans' (inject op) → Ans op) :
    Prog Op Ans α → Prog Op' Ans' α
  | ret value => ret value
  | call op next =>
      call (inject op) fun answer => (next (back op answer)).map inject back

/-! ## Which operations a program can perform -/

/-- Every operation the program can perform satisfies `P`. -/
inductive OnlyUses (P : Op → Prop) : Prog Op Ans α → Prop where
  | ret (value : α) :
      OnlyUses P (ret value)
  | call
      {op : Op}
      {next : Ans op → Prog Op Ans α}
      (allowed : P op)
      (rest : ∀ answer, OnlyUses P (next answer)) :
      OnlyUses P (call op next)

theorem OnlyUses.bind
    {P : Op → Prop}
    {p : Prog Op Ans α}
    {f : α → Prog Op Ans β}
    (first : OnlyUses P p)
    (second : ∀ value, OnlyUses P (f value)) :
    OnlyUses P (p.bind f) := by
  induction first with
  | ret value =>
      exact second value
  | call allowed rest inductionHypothesis =>
      exact .call allowed inductionHypothesis

theorem OnlyUses.mono
    {P R : Op → Prop}
    {p : Prog Op Ans α}
    (uses : OnlyUses P p)
    (weaker : ∀ op, P op → R op) :
    OnlyUses R p := by
  induction uses with
  | ret value =>
      exact .ret value
  | call allowed rest inductionHypothesis =>
      exact .call (weaker _ allowed) inductionHypothesis

theorem OnlyUses.perform
    {P : Op → Prop}
    {op : Op}
    (allowed : P op) :
    OnlyUses P (perform op : Prog Op Ans (Ans op)) :=
  .call allowed fun answer => .ret answer

theorem OnlyUses.map
    {Op' : Type}
    {Ans' : Op' → Type}
    {P : Op' → Prop}
    {inject : Op → Op'}
    (allowed : ∀ op, P (inject op))
    (back : ∀ op, Ans' (inject op) → Ans op)
    (p : Prog Op Ans α) :
    OnlyUses P (p.map inject back) := by
  induction p with
  | ret value =>
      exact .ret value
  | call op next inductionHypothesis =>
      exact .call (allowed op) fun answer => inductionHypothesis (back op answer)

/-- The same for a program whose own operations are known. -/
theorem OnlyUses.embed
    {Op' : Type}
    {Ans' : Op' → Type}
    {P : Op → Prop}
    {R : Op' → Prop}
    {inject : Op → Op'}
    (allowed : ∀ op, P op → R (inject op))
    (back : ∀ op, Ans' (inject op) → Ans op)
    {p : Prog Op Ans α}
    (uses : OnlyUses P p) :
    OnlyUses R (p.map inject back) := by
  induction uses with
  | ret value =>
      exact .ret value
  | call used rest inductionHypothesis =>
      exact .call (allowed _ used) fun answer => inductionHypothesis (back _ answer)

/-- The program cannot return before it has performed an operation in `P`. -/
def Inevitable (P : Op → Prop) : Prog Op Ans α → Prop
  | ret _ => False
  | call op next => P op ∨ ∀ answer, (next answer).Inevitable P

theorem Inevitable.bind
    {P : Op → Prop}
    {f : α → Prog Op Ans β}
    (last : ∀ value, (f value).Inevitable P)
    (p : Prog Op Ans α) :
    (p.bind f).Inevitable P := by
  induction p with
  | ret value =>
      exact last value
  | call op next inductionHypothesis =>
      exact .inr inductionHypothesis

/-- The program performs at most so many operations. -/
def AtMost : Prog Op Ans α → Nat → Prop
  | ret _, _ => True
  | call _ _, 0 => False
  | call _ next, n + 1 => ∀ answer, (next answer).AtMost n

/-! ## Weakest preconditions -/

/-- What is required at an operation and what its answer may be assumed to be.
The ghost value `G` carries what is known between operations. -/
structure Contract (Op : Type) (Ans : Op → Type) (G : Type) where
  spec : (op : Op) → G → (Ans op → G → Prop) → Prop
  mono : ∀ {op g} {Q R : Ans op → G → Prop},
    (∀ answer g', Q answer g' → R answer g') → spec op g Q → spec op g R

variable {G : Type}

/-- Weakest precondition of a program. -/
def wp (C : Contract Op Ans G) :
    Prog Op Ans α → G → (α → G → Prop) → Prop
  | ret value, g, Q => Q value g
  | call op next, g, Q => C.spec op g fun answer g' => (next answer).wp C g' Q

variable {C : Contract Op Ans G}

@[simp] theorem wp_ret
    (value : α)
    (g : G)
    (Q : α → G → Prop) :
    (ret value : Prog Op Ans α).wp C g Q ↔ Q value g :=
  Iff.rfl

@[simp] theorem wp_call
    (op : Op)
    (next : Ans op → Prog Op Ans α)
    (g : G)
    (Q : α → G → Prop) :
    (call op next).wp C g Q ↔
      C.spec op g fun answer g' => (next answer).wp C g' Q :=
  Iff.rfl

@[simp] theorem wp_perform
    (op : Op)
    (g : G)
    (Q : Ans op → G → Prop) :
    (perform op : Prog Op Ans (Ans op)).wp C g Q ↔ C.spec op g Q :=
  Iff.rfl

@[simp] theorem wp_bind
    (p : Prog Op Ans α)
    (f : α → Prog Op Ans β)
    (g : G)
    (Q : β → G → Prop) :
    (p.bind f).wp C g Q ↔ p.wp C g fun value g' => (f value).wp C g' Q := by
  induction p generalizing g with
  | ret value =>
      rfl
  | call op next inductionHypothesis =>
      have same : (fun answer g' => ((next answer).bind f).wp C g' Q) =
          fun answer g' =>
            (next answer).wp C g' fun value g'' => (f value).wp C g'' Q := by
        funext answer g'
        exact propext (inductionHypothesis answer g')
      simp only [bind, wp_call, same]

theorem wp_mono
    {p : Prog Op Ans α}
    {Q R : α → G → Prop}
    (weaker : ∀ value g', Q value g' → R value g')
    {g : G}
    (holds : p.wp C g Q) :
    p.wp C g R := by
  induction p generalizing g with
  | ret value =>
      exact weaker value g holds
  | call op next inductionHypothesis =>
      exact C.mono (fun answer g' => inductionHypothesis answer) holds

/-- A sequential execution, given what each operation may answer and do. -/
inductive Exec (step : G → (op : Op) → Ans op → G → Prop) :
    Prog Op Ans α → G → α → G → Prop where
  | ret
      (value : α)
      (g : G) :
      Exec step (ret value) g value g
  | call
      {op : Op}
      {next : Ans op → Prog Op Ans α}
      {answer : Ans op}
      {g g' g'' : G}
      {value : α}
      (first : step g op answer g')
      (rest : Exec step (next answer) g' value g'') :
      Exec step (call op next) g value g''

/-- The contract of a step relation: nothing is required, and an answer is one
the relation allows. -/
def Contract.ofStep (step : G → (op : Op) → Ans op → G → Prop) :
    Contract Op Ans G where
  spec op g Q := ∀ answer g', step g op answer g' → Q answer g'
  mono weaker holds answer g' stepped := weaker answer g' (holds answer g' stepped)

/-- What a weakest precondition promises holds at the end of an execution. -/
theorem Exec.of_wp
    {step : G → (op : Op) → Ans op → G → Prop}
    {p : Prog Op Ans α}
    {g g' : G}
    {value : α}
    (execution : Exec step p g value g')
    {Q : α → G → Prop}
    (holds : p.wp (.ofStep step) g Q) :
    Q value g' := by
  induction execution with
  | ret value g =>
      exact holds
  | call first rest inductionHypothesis =>
      exact inductionHypothesis (holds _ _ first)

/-- What an execution comes to, unless it ends before. -/
inductive Reaches (step : G → (op : Op) → Ans op → G → Prop) :
    Prog Op Ans α → G → Prog Op Ans α → G → Prop where
  | here
      (p : Prog Op Ans α)
      (g : G) :
      Reaches step p g p g
  | call
      {op : Op}
      {next : Ans op → Prog Op Ans α}
      {answer : Ans op}
      {q : Prog Op Ans α}
      {g g' g'' : G}
      (first : step g op answer g')
      (rest : Reaches step (next answer) g' q g'') :
      Reaches step (call op next) g q g''

/-- The contract of a step relation with a requirement for each operation. -/
def Contract.requiring (R : G → Op → Prop)
    (step : G → (op : Op) → Ans op → G → Prop) : Contract Op Ans G where
  spec op g Q := R g op ∧ ∀ answer g', step g op answer g' → Q answer g'
  mono weaker holds :=
    ⟨holds.1, fun answer g' stepped => weaker answer g' (holds.2 answer g' stepped)⟩

/-- What is required holds whenever an operation is performed. -/
theorem Reaches.requires
    {step : G → (op : Op) → Ans op → G → Prop}
    {R : G → Op → Prop}
    {p : Prog Op Ans α}
    {op : Op}
    {next : Ans op → Prog Op Ans α}
    {g g' : G}
    {Q : α → G → Prop}
    (reached : Reaches step p g (.call op next) g')
    (holds : p.wp (.requiring R step) g Q) :
    R g' op := by
  generalize ending : Prog.call op next = q at reached
  induction reached with
  | here p g =>
      subst ending
      exact holds.1
  | call first rest inductionHypothesis =>
      exact inductionHypothesis (holds.2 _ _ first) ending

/-- What is promised beside a requirement holds at the end. -/
theorem Exec.of_requiring
    {step : G → (op : Op) → Ans op → G → Prop}
    {R : G → Op → Prop}
    {p : Prog Op Ans α}
    {g g' : G}
    {value : α}
    {Q : α → G → Prop}
    (execution : Exec step p g value g')
    (holds : p.wp (.requiring R step) g Q) :
    Q value g' := by
  induction execution with
  | ret value g =>
      exact holds
  | call first rest inductionHypothesis =>
      exact inductionHypothesis (holds.2 _ _ first)

/-- What holds at the end of every execution is a weakest precondition. -/
theorem wp_of_exec
    {step : G → (op : Op) → Ans op → G → Prop}
    {p : Prog Op Ans α}
    {g : G}
    {Q : α → G → Prop}
    (holds : ∀ value g', Exec step p g value g' → Q value g') :
    p.wp (.ofStep step) g Q := by
  induction p generalizing g with
  | ret value =>
      exact holds value g (.ret value g)
  | call op next inductionHypothesis =>
      intro answer g' first
      exact inductionHypothesis answer fun value g'' rest =>
        holds value g'' (.call first rest)

/-- An execution that is looked at through a function of the state. -/
theorem Exec.map_state
    {H : Type}
    {step : G → (op : Op) → Ans op → G → Prop}
    {step' : H → (op : Op) → Ans op → H → Prop}
    (f : G → H)
    (steps : ∀ g op answer g', step g op answer g' →
      step' (f g) op answer (f g'))
    {p : Prog Op Ans α}
    {g g' : G}
    {value : α}
    (execution : Exec step p g value g') :
    Exec step' p (f g) value (f g') := by
  induction execution with
  | ret value g => exact .ret value (f g)
  | call first rest inductionHypothesis =>
      exact .call (steps _ _ _ _ first) inductionHypothesis

/-- Fewer restrictions allow every execution there was. -/
theorem Exec.mono
    {step step' : G → (op : Op) → Ans op → G → Prop}
    (weaker : ∀ g op answer g', step g op answer g' → step' g op answer g')
    {p : Prog Op Ans α}
    {g g' : G}
    {value : α}
    (execution : Exec step p g value g') :
    Exec step' p g value g' :=
  execution.map_state id weaker

/-- Run a program with the answers of a function, as far as it gives them. -/
def drive (answers : G → (op : Op) → Option (Ans op))
    (move : G → (op : Op) → Ans op → Option G) :
    Prog Op Ans α → G → Option (α × G)
  | ret value, g => some (value, g)
  | call op next, g =>
      match answers g op with
      | none => none
      | some answer =>
          match move g op answer with
          | none => none
          | some g' => drive answers move (next answer) g'

theorem Exec.of_drive
    {answers : G → (op : Op) → Option (Ans op)}
    {move : G → (op : Op) → Ans op → Option G}
    {step : G → (op : Op) → Ans op → G → Prop}
    (steps : ∀ g op answer g', answers g op = some answer →
      move g op answer = some g' → step g op answer g')
    {p : Prog Op Ans α}
    {g g' : G}
    {value : α}
    (driven : drive answers move p g = some (value, g')) :
    Exec step p g value g' := by
  induction p generalizing g with
  | ret value' =>
      cases driven
      exact .ret _ _
  | call op next inductionHypothesis =>
      rw [drive] at driven
      cases given : answers g op with
      | none => simp [given] at driven
      | some answer =>
          cases moved : move g op answer with
          | none => simp [given, moved] at driven
          | some g'' =>
              simp only [given, moved] at driven
              exact .call (steps _ _ _ _ given moved) (inductionHypothesis answer driven)

/-- What a test finds of a run was found at the end of an execution. -/
theorem Exec.of_drive_any
    {answers : G → (op : Op) → Option (Ans op)}
    {move : G → (op : Op) → Ans op → Option G}
    {step : G → (op : Op) → Ans op → G → Prop}
    (steps : ∀ g op answer g', answers g op = some answer →
      move g op answer = some g' → step g op answer g')
    {p : Prog Op Ans α}
    {g : G}
    {test : α × G → Bool}
    (found : (drive answers move p g).any test = true) :
    ∃ value g', Exec step p g value g' ∧ test (value, g') = true := by
  obtain ⟨⟨value, g'⟩, driven, passes⟩ := (Option.any_eq_true _ _).mp found
  exact ⟨value, g', .of_drive steps driven, passes⟩

/-- An invariant of the operations that a program uses. -/
theorem OnlyUses.wp_invariant
    {step : G → (op : Op) → Ans op → G → Prop}
    {I : G → Prop}
    {p : Prog Op Ans α}
    (keeps : OnlyUses
      (fun op => ∀ g answer g', I g → step g op answer g' → I g') p)
    {g : G}
    (holds : I g) :
    p.wp (.ofStep step) g fun _ => I := by
  induction keeps generalizing g with
  | ret value =>
      exact holds
  | call kept rest inductionHypothesis =>
      intro answer g' first
      exact inductionHypothesis answer (kept g answer g' holds first)

/-- The program performs the given operations, with these answers, and returns
the value. -/
inductive Performs :
    Prog Op Ans α → List ((op : Op) × Ans op) → α → Prop where
  | ret
      (value : α) :
      Performs (ret value) [] value
  | call
      {op : Op}
      {next : Ans op → Prog Op Ans α}
      {answer : Ans op}
      {trace : List ((op : Op) × Ans op)}
      {value : α}
      (rest : Performs (next answer) trace value) :
      Performs (call op next) (⟨op, answer⟩ :: trace) value

/-- What two programs in sequence perform. -/
theorem performs_bind_iff
    {p : Prog Op Ans α}
    {f : α → Prog Op Ans β}
    {trace : List ((op : Op) × Ans op)}
    {value : β} :
    (p.bind f).Performs trace value ↔
      ∃ front middle back, trace = front ++ back ∧ p.Performs front middle ∧
        (f middle).Performs back value := by
  constructor
  · intro performed
    induction p generalizing trace with
    | ret middle =>
        exact ⟨[], middle, trace, rfl, .ret middle, performed⟩
    | call op next inductionHypothesis =>
        cases performed with
        | call rest =>
            obtain ⟨front, middle, back, rfl, first, second⟩ :=
              inductionHypothesis _ rest
            exact ⟨_ :: front, middle, back, rfl, .call first, second⟩
  · rintro ⟨front, middle, back, rfl, first, second⟩
    induction first with
    | ret middle =>
        exact second
    | call rest inductionHypothesis =>
        exact .call (inductionHypothesis second)

theorem performs_ret_iff
    {value result : α}
    {trace : List ((op : Op) × Ans op)} :
    (ret value : Prog Op Ans α).Performs trace result ↔
      trace = [] ∧ result = value := by
  constructor
  · intro performed
    cases performed
    exact ⟨rfl, rfl⟩
  · rintro ⟨rfl, rfl⟩
    exact .ret result

theorem performs_perform_iff
    {op : Op}
    {answer : Ans op}
    {trace : List ((op : Op) × Ans op)} :
    (perform op : Prog Op Ans (Ans op)).Performs trace answer ↔
      trace = [⟨op, answer⟩] := by
  constructor
  · intro performed
    cases performed with
    | call rest =>
        obtain ⟨rfl, rfl⟩ := performs_ret_iff.mp rest
        rfl
  · rintro rfl
    exact .call (.ret answer)

/-- An operation that requires nothing and leaves the ghost value alone. -/
def Contract.Neutral (C : Contract Op Ans G) (op : Op) : Prop :=
  ∀ g (Q : Ans op → G → Prop), (∀ answer, Q answer g) → C.spec op g Q

/-- A program of neutral operations establishes what holds of all its values. -/
theorem OnlyUses.wp
    {p : Prog Op Ans α}
    (neutral : OnlyUses C.Neutral p)
    {g : G}
    {Q : α → G → Prop}
    (holds : ∀ value, Q value g) :
    p.wp C g Q := by
  induction neutral with
  | ret value =>
      exact holds value
  | call allowed rest inductionHypothesis =>
      exact allowed g _ inductionHypothesis

/-- The contract of a smaller set of operations. -/
def Contract.pull {Op' : Type} {Ans' : Op' → Type} (C : Contract Op' Ans' G)
    (inject : Op → Op') (back : ∀ op, Ans' (inject op) → Ans op) :
    Contract Op Ans G where
  spec op g Q := C.spec (inject op) g fun answer g' => Q (back op answer) g'
  mono weaker holds := C.mono (fun answer g' => weaker (back _ answer) g') holds

theorem wp_map
    {Op' : Type}
    {Ans' : Op' → Type}
    {C : Contract Op' Ans' G}
    (inject : Op → Op')
    (back : ∀ op, Ans' (inject op) → Ans op)
    (p : Prog Op Ans α)
    (g : G)
    (Q : α → G → Prop) :
    (p.map inject back).wp C g Q ↔ p.wp (C.pull inject back) g Q := by
  induction p generalizing g with
  | ret value =>
      rfl
  | call op next inductionHypothesis =>
      have same : (fun answer g' => ((next answer).map inject back).wp C g' Q) =
          fun answer g' => (next answer).wp (C.pull inject back) g' Q := by
        funext answer g'
        exact propext (inductionHypothesis answer g')
      simp only [map, wp_call, Contract.pull]
      exact iff_of_eq (congrArg _ (funext fun answer => congrFun same (back op answer)))

/-- Every value the program can return satisfies `P`, whatever the answers. -/
def Yields (P : α → Prop) : Prog Op Ans α → Prop
  | ret value => P value
  | call _ next => ∀ answer, (next answer).Yields P

theorem Yields.bind
    {P : α → Prop}
    {R : β → Prop}
    {p : Prog Op Ans α}
    {f : α → Prog Op Ans β}
    (first : p.Yields P)
    (second : ∀ value, P value → (f value).Yields R) :
    (p.bind f).Yields R := by
  induction p with
  | ret value =>
      exact second value first
  | call op next inductionHypothesis =>
      exact fun answer => inductionHypothesis answer (first answer)

/-- What is known of the first value says what is used next. -/
theorem Yields.uses_bind
    {P : α → Prop}
    {R : Op → Prop}
    {p : Prog Op Ans α}
    {f : α → Prog Op Ans β}
    (first : p.Yields P)
    (uses : OnlyUses R p)
    (second : ∀ value, P value → OnlyUses R (f value)) :
    OnlyUses R (p.bind f) := by
  induction uses with
  | ret value =>
      exact second value first
  | call allowed rest inductionHypothesis =>
      exact .call allowed fun answer => inductionHypothesis answer (first answer)

theorem Yields.mono
    {P R : α → Prop}
    {p : Prog Op Ans α}
    (weaker : ∀ value, P value → R value)
    (yields : p.Yields P) :
    p.Yields R := by
  induction p with
  | ret value =>
      exact weaker value yields
  | call op next inductionHypothesis =>
      exact fun answer => inductionHypothesis answer (yields answer)

theorem yields_of_forall
    {P : α → Prop}
    (all : ∀ value, P value)
    (p : Prog Op Ans α) :
    p.Yields P := by
  induction p with
  | ret value =>
      exact all value
  | call op next inductionHypothesis =>
      exact inductionHypothesis

/-- A program over operations that are all neutral, with what is known of its
values. -/
theorem Yields.wp_map
    {Op' : Type}
    {Ans' : Op' → Type}
    {C : Contract Op' Ans' G}
    {inject : Op → Op'}
    (neutral : ∀ op, C.Neutral (inject op))
    (back : ∀ op, Ans' (inject op) → Ans op)
    {p : Prog Op Ans α}
    {P : α → Prop}
    (yields : p.Yields P)
    {g : G}
    {Q : α → G → Prop}
    (holds : ∀ value, P value → Q value g) :
    (p.map inject back).wp C g Q := by
  induction p with
  | ret value =>
      exact holds value yields
  | call op next inductionHypothesis =>
      exact neutral op g _ fun answer =>
        inductionHypothesis (back op answer) (yields (back op answer))

/-- A program over operations that are all neutral. -/
theorem wp_map_neutral
    {Op' : Type}
    {Ans' : Op' → Type}
    {C : Contract Op' Ans' G}
    {inject : Op → Op'}
    (neutral : ∀ op, C.Neutral (inject op))
    (back : ∀ op, Ans' (inject op) → Ans op)
    {p : Prog Op Ans α}
    {g : G}
    {Q : α → G → Prop}
    (holds : ∀ value, Q value g) :
    (p.map inject back).wp C g Q :=
  Yields.wp_map neutral back (yields_of_forall (fun _ => trivial) p)
    fun value _ => holds value

theorem map_bind
    {Op' : Type}
    {Ans' : Op' → Type}
    (inject : Op → Op')
    (back : ∀ op, Ans' (inject op) → Ans op)
    (p : Prog Op Ans α)
    (f : α → Prog Op Ans β) :
    (p.bind f).map inject back =
      (p.map inject back).bind fun value => (f value).map inject back := by
  induction p with
  | ret value =>
      rfl
  | call op next inductionHypothesis =>
      simp only [bind, map]
      congr 1
      funext answer
      exact inductionHypothesis (back op answer)

end Prog

/-! ## Early return -/

/-- A program that may end with an error. -/
def Fallible (Op : Type) (Ans : Op → Type) (ε α : Type) : Type :=
  Prog Op Ans (Except ε α)

namespace Fallible

variable {Op : Type} {Ans : Op → Type} {ε α β : Type}

/-- The underlying program. -/
def run (p : Fallible Op Ans ε α) : Prog Op Ans (Except ε α) :=
  p

/-- Continue after a success, stop at an error. -/
def bind (p : Fallible Op Ans ε α) (f : α → Fallible Op Ans ε β) :
    Fallible Op Ans ε β :=
  Prog.bind p.run fun
    | .ok value => f value
    | .error e => .ret (.error e)

instance : Monad (Fallible Op Ans ε) where
  pure value := Prog.ret (.ok value)
  bind := bind

/-- End with a given result. -/
def ofExcept (result : Except ε α) : Fallible Op Ans ε α :=
  Prog.ret result

/-- A program that cannot fail. -/
def lift (p : Prog Op Ans α) : Fallible Op Ans ε α :=
  p.bind fun value => .ret (.ok value)

/-- A program whose value is its own success or error. -/
def of (p : Prog Op Ans (Except ε α)) : Fallible Op Ans ε α :=
  p

/-- The result as a value; never fails. -/
def attempt (p : Fallible Op Ans ε α) : Fallible Op Ans ε (Except ε α) :=
  lift p.run

instance : MonadLift (Prog Op Ans) (Fallible Op Ans ε) where
  monadLift := lift

/-- Rephrase the error. -/
def mapErr (f : ε → ε) (p : Fallible Op Ans ε α) : Fallible Op Ans ε α :=
  Prog.bind p.run fun
    | .ok value => .ret (.ok value)
    | .error e => .ret (.error (f e))

@[simp] theorem run_pure (value : α) :
    (pure value : Fallible Op Ans ε α).run = .ret (.ok value) :=
  rfl

@[simp] theorem run_ofExcept (result : Except ε α) :
    (ofExcept result : Fallible Op Ans ε α).run = .ret result :=
  rfl

@[simp] theorem run_of (p : Prog Op Ans (Except ε α)) :
    (of p).run = p :=
  rfl

@[simp] theorem run_lift (p : Prog Op Ans α) :
    (lift p : Fallible Op Ans ε α).run = p.bind fun value => .ret (.ok value) :=
  rfl

@[simp] theorem run_attempt (p : Fallible Op Ans ε α) :
    p.attempt.run = p.run.bind fun value => .ret (.ok value) :=
  rfl

@[simp] theorem run_mapErr
    (f : ε → ε)
    (p : Fallible Op Ans ε α) :
    (p.mapErr f).run = p.run.bind fun
      | .ok value => .ret (.ok value)
      | .error e => .ret (.error (f e)) :=
  rfl

@[simp] theorem run_bind
    (p : Fallible Op Ans ε α)
    (f : α → Fallible Op Ans ε β) :
    (p >>= f).run = p.run.bind fun
      | .ok value => (f value).run
      | .error e => .ret (.error e) :=
  rfl

/-- Programs in sequence only use what both use. -/
theorem uses_bind
    {P : Op → Prop}
    {p : Fallible Op Ans ε α}
    {f : α → Fallible Op Ans ε β}
    (first : p.run.OnlyUses P)
    (second : ∀ value, (f value).run.OnlyUses P) :
    (p >>= f).run.OnlyUses P := by
  refine first.bind ?_
  intro result
  cases result with
  | ok value => exact second value
  | error e => exact .ret _

theorem uses_attempt
    {P : Op → Prop}
    {p : Fallible Op Ans ε α}
    (uses : p.run.OnlyUses P) :
    p.attempt.run.OnlyUses P :=
  uses.bind fun _ => .ret _

theorem uses_mapErr
    {P : Op → Prop}
    {f : ε → ε}
    {p : Fallible Op Ans ε α}
    (uses : p.run.OnlyUses P) :
    (p.mapErr f).run.OnlyUses P := by
  refine uses.bind ?_
  intro result
  cases result with
  | ok value => exact .ret _
  | error e => exact .ret _

theorem bind_assoc
    {γ : Type}
    (p : Fallible Op Ans ε α)
    (f : α → Fallible Op Ans ε β)
    (g : β → Fallible Op Ans ε γ) :
    p >>= f >>= g = p >>= fun value => f value >>= g := by
  refine (Prog.bind_assoc p.run _ _).trans ?_
  refine congrArg p.run.bind (funext fun result => ?_)
  cases result with
  | ok value => rfl
  | error e => rfl

@[simp] theorem run_ite
    {c : Prop}
    [Decidable c]
    (p q : Fallible Op Ans ε α) :
    (if c then p else q).run = if c then p.run else q.run := by
  split
  · rfl
  · rfl

/-! ### What a program with early return performs -/

section Performs

open Prog

variable {trace : List ((op : Op) × Ans op)}

/-- A sequence succeeds if both parts do. -/
theorem performs_bind_ok
    {p : Fallible Op Ans ε α}
    {f : α → Fallible Op Ans ε β}
    {value : β} :
    (p >>= f).run.Performs trace (.ok value) ↔
      ∃ front middle back, trace = front ++ back ∧
        p.run.Performs front (.ok middle) ∧
        (f middle).run.Performs back (.ok value) := by
  rw [run_bind, performs_bind_iff]
  constructor
  · rintro ⟨front, result, back, rfl, first, second⟩
    cases result with
    | error e =>
        cases (performs_ret_iff.mp second).2
    | ok middle =>
        exact ⟨front, middle, back, rfl, first, second⟩
  · rintro ⟨front, middle, back, rfl, first, second⟩
    exact ⟨front, .ok middle, back, rfl, first, second⟩

theorem performs_pure_ok
    {value result : α} :
    (pure value : Fallible Op Ans ε α).run.Performs trace (.ok result) ↔
      trace = [] ∧ result = value := by
  rw [run_pure, performs_ret_iff, Except.ok.injEq]

theorem performs_error
    {e : ε}
    {value : α} :
    ¬ (ofExcept (.error e) : Fallible Op Ans ε α).run.Performs trace
      (.ok value) := by
  intro performed
  cases (performs_ret_iff.mp performed).2

theorem performs_lift
    {p : Prog Op Ans α}
    {value : α} :
    (lift p : Fallible Op Ans ε α).run.Performs trace (.ok value) ↔
      p.Performs trace value := by
  rw [run_lift, performs_bind_iff]
  constructor
  · rintro ⟨front, middle, back, rfl, first, second⟩
    obtain ⟨rfl, same⟩ := performs_ret_iff.mp second
    rw [List.append_nil, Except.ok.inj same]
    exact first
  · intro performed
    exact ⟨trace, value, [], (List.append_nil _).symm, performed, .ret _⟩

theorem performs_attempt
    {p : Fallible Op Ans ε α}
    {result : Except ε α} :
    p.attempt.run.Performs trace (.ok result) ↔
      p.run.Performs trace result :=
  performs_lift

theorem performs_mapErr
    {f : ε → ε}
    {p : Fallible Op Ans ε α}
    {value : α} :
    (p.mapErr f).run.Performs trace (.ok value) ↔
      p.run.Performs trace (.ok value) := by
  rw [run_mapErr, performs_bind_iff]
  constructor
  · rintro ⟨front, result, back, rfl, first, second⟩
    cases result with
    | error e =>
        cases (performs_ret_iff.mp second).2
    | ok middle =>
        obtain ⟨rfl, same⟩ := performs_ret_iff.mp second
        rw [List.append_nil, Except.ok.inj same]
        exact first
  · intro performed
    exact ⟨trace, .ok value, [], (List.append_nil _).symm, performed, .ret _⟩

end Performs

/-! ### Weakest preconditions with early return -/

section Wp

open Prog

variable {G : Type}

/-- What must hold of a result, given what must hold of a value and of an
error. -/
def onResult (ok : α → G → Prop) (err : ε → G → Prop) :
    Except ε α → G → Prop
  | .ok value, g => ok value g
  | .error e, g => err e g

@[simp] theorem onResult_ok
    (ok : α → G → Prop)
    (err : ε → G → Prop)
    (value : α)
    (g : G) :
    onResult ok err (.ok value) g ↔ ok value g :=
  Iff.rfl

@[simp] theorem onResult_error
    (ok : α → G → Prop)
    (err : ε → G → Prop)
    (e : ε)
    (g : G) :
    onResult ok err (.error e) g ↔ err e g :=
  Iff.rfl

/-- Weakest precondition for a value and for an error. -/
def wp (C : Contract Op Ans G) (p : Fallible Op Ans ε α) (g : G)
    (ok : α → G → Prop) (err : ε → G → Prop) : Prop :=
  p.run.wp C g (onResult ok err)

variable {C : Contract Op Ans G} {ok : α → G → Prop} {err : ε → G → Prop}

@[simp] theorem wp_pure (value : α) (g : G) :
    (pure value : Fallible Op Ans ε α).wp C g ok err ↔ ok value g :=
  Iff.rfl

@[simp] theorem wp_bind
    (p : Fallible Op Ans ε α)
    (f : α → Fallible Op Ans ε β)
    (g : G)
    (ok : β → G → Prop) :
    (p >>= f).wp C g ok err ↔
      p.wp C g (fun value g' => (f value).wp C g' ok err) err := by
  have same : ∀ (result : Except ε α) (g' : G),
      (match result with
        | .ok value => (f value).run
        | .error e => .ret (.error e)).wp C g' (onResult ok err) ↔
        onResult (fun value g'' => (f value).wp C g'' ok err) err result g' := by
    intro result g'
    cases result with
    | ok value =>
        rfl
    | error e =>
        rfl
  simp only [wp, run_bind, Prog.wp_bind]
  constructor
  · exact fun holds => wp_mono (fun result g' => (same result g').mp) holds
  · exact fun holds => wp_mono (fun result g' => (same result g').mpr) holds

@[simp] theorem wp_ofExcept (result : Except ε α) (g : G) :
    (ofExcept result : Fallible Op Ans ε α).wp C g ok err ↔
      onResult ok err result g :=
  Iff.rfl

@[simp] theorem wp_of (p : Prog Op Ans (Except ε α)) (g : G) :
    (of p).wp C g ok err ↔ p.wp C g (onResult ok err) :=
  Iff.rfl

@[simp] theorem wp_lift (p : Prog Op Ans α) (g : G) :
    (lift p : Fallible Op Ans ε α).wp C g ok err ↔ p.wp C g ok := by
  simp only [wp, run_lift, Prog.wp_bind, Prog.wp_ret, onResult]

@[simp] theorem wp_liftM (p : Prog Op Ans α) (g : G) :
    (liftM p : Fallible Op Ans ε α).wp C g ok err ↔ p.wp C g ok :=
  wp_lift p g

@[simp] theorem wp_attempt
    (p : Fallible Op Ans ε α)
    (g : G)
    (ok : Except ε α → G → Prop) :
    p.attempt.wp C g ok err ↔
      p.wp C g (fun value => ok (.ok value)) (fun e => ok (.error e)) := by
  have same : onResult (fun value => ok (.ok value)) (fun e => ok (.error e)) =
      ok := by
    funext result g'
    cases result <;> rfl
  simp only [wp, run_attempt, Prog.wp_bind, Prog.wp_ret, onResult, same]

@[simp] theorem wp_mapErr
    (f : ε → ε)
    (p : Fallible Op Ans ε α)
    (g : G) :
    (p.mapErr f).wp C g ok err ↔ p.wp C g ok (fun e => err (f e)) := by
  have same : ∀ (result : Except ε α) (g' : G),
      (match result with
        | .ok value => .ret (.ok value)
        | .error e => .ret (.error (f e)) : Prog Op Ans (Except ε α)).wp C g'
          (onResult ok err) ↔
        onResult ok (fun e => err (f e)) result g' := by
    intro result g'
    cases result <;> rfl
  simp only [wp, run_mapErr, Prog.wp_bind]
  constructor
  · exact fun holds => wp_mono (fun result g' => (same result g').mp) holds
  · exact fun holds => wp_mono (fun result g' => (same result g').mpr) holds

theorem wp_consequence
    {p : Fallible Op Ans ε α}
    {ok' : α → G → Prop}
    {err' : ε → G → Prop}
    (okWeaker : ∀ value g', ok value g' → ok' value g')
    (errWeaker : ∀ e g', err e g' → err' e g')
    {g : G}
    (holds : p.wp C g ok err) :
    p.wp C g ok' err' := by
  refine wp_mono ?_ holds
  intro result g'
  cases result with
  | ok value =>
      exact okWeaker value g'
  | error e =>
      exact errWeaker e g'

end Wp

end Fallible

/-! ## A state that survives an error -/

/-- A fallible program with a state that is kept when it fails. -/
def Staged (Op : Type) (Ans : Op → Type) (ε σ α : Type) : Type :=
  σ → Prog Op Ans (Except ε α × σ)

namespace Staged

variable {Op : Type} {Ans : Op → Type} {ε σ α β : Type}

/-- The underlying program, from a given state. -/
def run (p : Staged Op Ans ε σ α) (s : σ) : Prog Op Ans (Except ε α × σ) :=
  p s

/-- Continue after a success; an error keeps the state reached. -/
def bind (p : Staged Op Ans ε σ α) (f : α → Staged Op Ans ε σ β) :
    Staged Op Ans ε σ β :=
  fun s => Prog.bind (p.run s) fun
    | (.ok value, s') => f value s'
    | (.error e, s') => .ret (.error e, s')

instance : Monad (Staged Op Ans ε σ) where
  pure value := fun s => .ret (.ok value, s)
  bind := bind

/-- The current state. -/
def get : Staged Op Ans ε σ σ :=
  fun s => .ret (.ok s, s)

/-- Change the state. -/
def modify (f : σ → σ) : Staged Op Ans ε σ Unit :=
  fun s => .ret (.ok (), f s)

/-- A fallible program that does not use the state. -/
def lift (p : Fallible Op Ans ε α) : Staged Op Ans ε σ α :=
  fun s => p.run.bind fun result => .ret (result, s)

instance : MonadLift (Fallible Op Ans ε) (Staged Op Ans ε σ) where
  monadLift := lift

/-- End with an error. -/
def fail (e : ε) : Staged Op Ans ε σ α :=
  fun s => .ret (.error e, s)

@[simp] theorem run_pure (value : α) (s : σ) :
    (pure value : Staged Op Ans ε σ α).run s = .ret (.ok value, s) :=
  rfl

@[simp] theorem run_get (s : σ) :
    (get : Staged Op Ans ε σ σ).run s = .ret (.ok s, s) :=
  rfl

@[simp] theorem run_modify (f : σ → σ) (s : σ) :
    (modify f : Staged Op Ans ε σ Unit).run s = .ret (.ok (), f s) :=
  rfl

@[simp] theorem run_lift (p : Fallible Op Ans ε α) (s : σ) :
    (lift p : Staged Op Ans ε σ α).run s =
      p.run.bind fun result => .ret (result, s) :=
  rfl

@[simp] theorem run_fail (e : ε) (s : σ) :
    (fail e : Staged Op Ans ε σ α).run s = .ret (.error e, s) :=
  rfl

@[simp] theorem run_bind
    (p : Staged Op Ans ε σ α)
    (f : α → Staged Op Ans ε σ β)
    (s : σ) :
    (p >>= f).run s = (p.run s).bind fun
      | (.ok value, s') => (f value).run s'
      | (.error e, s') => .ret (.error e, s') :=
  rfl

/-! ### Weakest preconditions with a surviving state -/

section Wp

open Prog

variable {G : Type}

/-- What must hold of a result and the state. -/
def onResult (ok : α → σ → G → Prop) (err : ε → σ → G → Prop) :
    Except ε α × σ → G → Prop
  | (.ok value, s), g => ok value s g
  | (.error e, s), g => err e s g

/-- Weakest precondition for a value and for an error, with the state. -/
def wp (C : Contract Op Ans G) (p : Staged Op Ans ε σ α) (s : σ) (g : G)
    (ok : α → σ → G → Prop) (err : ε → σ → G → Prop) : Prop :=
  (p.run s).wp C g (onResult ok err)

variable {C : Contract Op Ans G} {ok : α → σ → G → Prop}
  {err : ε → σ → G → Prop}

@[simp] theorem wp_pure (value : α) (s : σ) (g : G) :
    (pure value : Staged Op Ans ε σ α).wp C s g ok err ↔ ok value s g :=
  Iff.rfl

@[simp] theorem wp_bind
    (p : Staged Op Ans ε σ α)
    (f : α → Staged Op Ans ε σ β)
    (s : σ)
    (g : G)
    (ok : β → σ → G → Prop) :
    (p >>= f).wp C s g ok err ↔
      p.wp C s g (fun value s' g' => (f value).wp C s' g' ok err) err := by
  have same : ∀ (result : Except ε α × σ) (g' : G),
      (match result with
        | (.ok value, s') => (f value).run s'
        | (.error e, s') => .ret (.error e, s')).wp C g' (onResult ok err) ↔
        onResult (fun value s' g'' => (f value).wp C s' g'' ok err) err
          result g' := by
    rintro ⟨result, s'⟩ g'
    cases result with
    | ok value =>
        rfl
    | error e =>
        rfl
  simp only [wp, run_bind, Prog.wp_bind]
  constructor
  · exact fun holds => wp_mono (fun result g' => (same result g').mp) holds
  · exact fun holds => wp_mono (fun result g' => (same result g').mpr) holds

@[simp] theorem wp_get (s : σ) (g : G) (ok : σ → σ → G → Prop) :
    (get : Staged Op Ans ε σ σ).wp C s g ok err ↔ ok s s g :=
  Iff.rfl

@[simp] theorem wp_modify (f : σ → σ) (s : σ) (g : G)
    (ok : Unit → σ → G → Prop) :
    (modify f : Staged Op Ans ε σ Unit).wp C s g ok err ↔ ok () (f s) g :=
  Iff.rfl

@[simp] theorem wp_fail (e : ε) (s : σ) (g : G) :
    (fail e : Staged Op Ans ε σ α).wp C s g ok err ↔ err e s g :=
  Iff.rfl

@[simp] theorem wp_lift (p : Fallible Op Ans ε α) (s : σ) (g : G) :
    (lift p : Staged Op Ans ε σ α).wp C s g ok err ↔
      p.wp C g (fun value => ok value s) (fun e => err e s) := by
  have same : ∀ (result : Except ε α) (g' : G),
      onResult ok err (result, s) g' ↔
        Fallible.onResult (fun value => ok value s) (fun e => err e s)
          result g' := by
    intro result g'
    cases result <;> rfl
  simp only [wp, run_lift, Prog.wp_bind, Prog.wp_ret]
  constructor
  · exact fun holds => wp_mono (fun result g' => (same result g').mp) holds
  · exact fun holds => wp_mono (fun result g' => (same result g').mpr) holds

@[simp] theorem wp_liftM (p : Fallible Op Ans ε α) (s : σ) (g : G) :
    (liftM p : Staged Op Ans ε σ α).wp C s g ok err ↔
      p.wp C g (fun value => ok value s) (fun e => err e s) :=
  wp_lift p s g

theorem wp_consequence
    {p : Staged Op Ans ε σ α}
    {ok' : α → σ → G → Prop}
    {err' : ε → σ → G → Prop}
    (okWeaker : ∀ value s' g', ok value s' g' → ok' value s' g')
    (errWeaker : ∀ e s' g', err e s' g' → err' e s' g')
    {s : σ}
    {g : G}
    (holds : p.wp C s g ok err) :
    p.wp C s g ok' err' := by
  refine wp_mono ?_ holds
  rintro ⟨result, s'⟩ g'
  cases result with
  | ok value =>
      exact okWeaker value s' g'
  | error e =>
      exact errWeaker e s' g'

end Wp

end Staged

end Myrun
