/-
LeastSquares.Proofs.Parametricity — the machine does not look at its values.

Values are only ever moved, or handed to a reading. So two runs whose readings respect a relation
between their values, and whose code differs only in where the parameters stand, keep their stacks
related (`run_related`), and with them what two tapes evaluate to (`Tape.eval_related`). The two
runs may be over different types of values and different numbers of parameters.
-/
import Mathlib.Data.List.Forall2
import LeastSquares.Postfix.Machine

namespace LeastSquares.Postfix

variable {n m : Nat} {V W : Type}

/-- Two readings take related values to related values. -/
structure Reading.Related (S : V → W → Prop) (r : Reading V) (q : Reading W) : Prop where
  literal (number : Decimal) : S (r.literal number) (q.literal number)
  operator {a b : V} {a' b' : W} (op : Operator) :
    S a a' → S b b' → S (r.operator op a b) (q.operator op a' b')
  elementary {a : V} {a' : W} (f : Elementary) :
    S a a' → S (r.elementary f a) (q.elementary f a')
  extremum {a b : V} {a' b' : W} (e : Extremum) :
    S a a' → S b b' → S (r.extremum e a b) (q.extremum e a' b')

/-- Two instructions are the same, but for the places of the parameters; `R` says which places
correspond. -/
inductive Instruction.Corresponds (R : Fin n → Fin m → Prop) :
    Instruction n → Instruction m → Prop where
  | literal (token : String) (number : Decimal) :
    Corresponds R (.literal token number) (.literal token number)
  | parameter (name : String) {i : Fin n} {j : Fin m} (h : R i j) :
    Corresponds R (.parameter name i) (.parameter name j)
  | operator (op : Operator) : Corresponds R (.operator op) (.operator op)
  | call (f : Builtin) : Corresponds R (.call f) (.call f)

theorem Instruction.Corresponds.mono {R R' : Fin n → Fin m → Prop} (hR : ∀ i j, R i j → R' i j)
    {i : Instruction n} {j : Instruction m} (h : Corresponds R i j) : Corresponds R' i j := by
  cases h with
  | literal token number => exact .literal token number
  | parameter name h => exact .parameter name (hR _ _ h)
  | operator op => exact .operator op
  | call f => exact .call f

theorem Instruction.Corresponds.operands_eq {R : Fin n → Fin m → Prop} {i : Instruction n}
    {j : Instruction m} (h : Corresponds R i j) : i.operands = j.operands := by
  cases h <;> rfl

section Run

variable {R : Fin n → Fin m → Prop} {S : V → W → Prop} {r : Reading V} {q : Reading W}
  {env : Fin n → V} {env' : Fin m → W}

/-- Corresponding instructions take related stacks to related stacks, or fail on both. -/
theorem Instruction.Corresponds.exec_related (hr : r.Related S q)
    (henv : ∀ i j, R i j → S (env i) (env' j)) {i : Instruction n} {j : Instruction m}
    (h : Corresponds R i j) {stack : List V} {stack' : List W} (hs : List.Forall₂ S stack stack') :
    Option.Rel (List.Forall₂ S) (i.exec r env stack) (j.exec q env' stack') := by
  cases h with
  | literal _ number => exact .some (.cons (hr.literal number) hs)
  | parameter _ h => exact .some (.cons (henv _ _ h) hs)
  | operator op =>
    match hs with
    | .nil => exact .none
    | .cons _ .nil => exact .none
    | .cons hright (.cons hleft hs) => exact .some (.cons (hr.operator op hleft hright) hs)
  | call f =>
    match f, hs with
    | .elementary _, .nil => exact .none
    | .elementary f, .cons hx hs => exact .some (.cons (hr.elementary f hx) hs)
    | .extremum _, .nil => exact .none
    | .extremum _, .cons _ .nil => exact .none
    | .extremum e, .cons hright (.cons hleft hs) =>
      exact .some (.cons (hr.extremum e hleft hright) hs)

/-- Corresponding code takes related stacks to related stacks, or fails on both. -/
theorem run_related (hr : r.Related S q) (henv : ∀ i j, R i j → S (env i) (env' j))
    {code : List (Instruction n)} {code' : List (Instruction m)}
    (h : List.Forall₂ (Instruction.Corresponds R) code code') {stack : List V} {stack' : List W}
    (hs : List.Forall₂ S stack stack') :
    Option.Rel (List.Forall₂ S) (run r env code stack) (run q env' code' stack') := by
  induction h generalizing stack stack' with
  | nil => exact .some hs
  | cons hi _ ih =>
    have hexec := hi.exec_related hr henv hs
    rw [run, run]
    generalize Instruction.exec r env _ stack = next at hexec ⊢
    generalize Instruction.exec q env' _ stack' = next' at hexec ⊢
    cases hexec with
    | none => exact .none
    | some hnext => exact ih hnext

/-- Corresponding tapes have related values. -/
theorem Tape.eval_related {params params' : List String} {R : Fin params.length →
    Fin params'.length → Prop} {env : Fin params.length → V} {env' : Fin params'.length → W}
    {t : Tape params} {t' : Tape params'} (hr : r.Related S q)
    (henv : ∀ i j, R i j → S (env i) (env' j))
    (h : List.Forall₂ (Instruction.Corresponds R) t.code t'.code) :
    S (t.eval r env) (t'.eval q env') := by
  have hrun := run_related hr henv h .nil
  rw [t.run_eq_eval, t'.run_eq_eval] at hrun
  cases hrun with
  | some hstacks =>
    cases hstacks with
    | cons htop _ => exact htop

end Run

end LeastSquares.Postfix
