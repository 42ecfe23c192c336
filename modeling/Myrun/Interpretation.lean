import Myrun.Prog

namespace Myrun

/-!
# Programs in terms of other operations

An operation of one program may itself be a program over finer operations. The
interpretation replaces each operation by its program, and a contract for the
finer operations gives one for the operations replaced. This module is
independent of any particular set of operations.
-/

namespace Prog

variable {Op : Type} {Ans : Op → Type} {Op' : Type} {Ans' : Op' → Type}
  {G α β : Type}

/-- The program with each operation replaced by the program that does it. -/
def interpret (does : (op : Op) → Prog Op' Ans' (Ans op)) :
    Prog Op Ans α → Prog Op' Ans' α
  | ret value => ret value
  | call op next =>
      (does op).bind fun answer => (next answer).interpret does

variable {does : (op : Op) → Prog Op' Ans' (Ans op)}

/-- What an operation does, as a contract for it. -/
def Contract.through (C : Contract Op' Ans' G)
    (does : (op : Op) → Prog Op' Ans' (Ans op)) : Contract Op Ans G where
  spec op g Q := (does op).wp C g Q
  mono weaker holds := wp_mono weaker holds

/-- An interpreted program meets a contract when the program meets that of its
operations. -/
theorem wp_interpret
    {C : Contract Op' Ans' G}
    {p : Prog Op Ans α}
    {g : G}
    {Q : α → G → Prop} :
    (p.interpret does).wp C g Q ↔ p.wp (C.through does) g Q := by
  induction p generalizing g with
  | ret value => rfl
  | call op next inductionHypothesis =>
      simp only [interpret, wp_bind]
      constructor
      · intro holds
        exact wp_mono
          (fun answer g' rest => (inductionHypothesis answer).mp rest) holds
      · intro holds
        exact wp_mono
          (fun answer g' rest => (inductionHypothesis answer).mpr rest) holds

end Prog

end Myrun
