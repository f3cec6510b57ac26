/-
LeastSquares.Proofs.Checked.LevenbergMarquardt — the damped method on plain data.

A step adds matrices, solves a system of equations, subtracts vectors, forms the products of a
linear model and overwrites a vector, and each time the shapes have to fit. They do in the data of
a state with types, and a step leads from the data of one such state to the data of the next
(`State.advance_of`). So no run faults, and the outcome is that of the run with types
(`minimize_of`).
-/
import LeastSquares.LevenbergMarquardt.Minimize
import LeastSquares.Proofs.Checked.Linear

namespace LeastSquares.Checked.LevenbergMarquardt

open LeastSquares.LevenbergMarquardt (Options)

variable {K : Type} [Scalar K] {n : Nat}

/-- Where a run stands between two steps. -/
structure State (K : Type) where
  point : List K
  current : Linearization K
  lambda : K
  trial : List K
  trialError : K
  converged : Bool
  steps : Nat
  evaluations : Nat

/-- What a run returns. -/
abbrev Outcome (K : Type) : Type := Option (List K) × Report K

/-- The target with the entries of the source; both have to be of the same length. -/
def copyFrom (target source : List K) : Except Fault (List K) := do
  sameLength target.length source.length
  pure source

namespace State

/-- The point to try next, unless the equations of the step have no solution or one with an entry
that is no number. -/
def trialPoint? (identity : SizedMat K) (s : State K) : Except Fault (Option (List K)) := do
  match ← shiftedSolve s.current identity s.lambda s.current.gradient with
  | none => pure none
  | some delta =>
    if delta.any Scalar.isNaN then pure none
    else
      let x ← Sized.subVec s.point delta
      pure (some x)

/-- Does a trial end the run? -/
def endsAt (o : Options K) (s : State K) (v : ValDers K) : Bool :=
  Sized.normSq v.vals < o.epsilon
    || v.jacobian.entries.entryList.all (fun d => Scalar.abs d < o.epsilon)
    || Scalar.abs (s.current.error - Sized.normSq v.vals) < o.epsilon

/-- The state after trying `x`, where the problem gave `v`. -/
def advance (o : Options K) (s : State K) (x : List K) (v : ValDers K) :
    Except Fault (State K) := do
  let error := Sized.normSq v.vals
  let tried := { s with
    trial := x
    trialError := error
    converged := s.endsAt o v
    steps := s.steps + 1
    evaluations := s.evaluations + 1 }
  if error < s.current.error then
    let point ← copyFrom s.point x
    let current ← Linearization.new v
    pure { tried with point := point, current := current, lambda := s.lambda / o.lambdaDown }
  else pure { tried with lambda := s.lambda * o.lambdaUp }

def giveUp (s : State K) : Outcome K :=
  (none, ⟨some .numerical, s.evaluations, s.steps, Scalar.nan⟩)

def finish (s : State K) : Outcome K :=
  (some s.trial, ⟨if s.converged then none else some .lostPatience, s.evaluations, s.steps,
    s.trialError * 0.5⟩)

end State

/-- The run from a state on, with at most `budget` further steps. -/
def loop (o : Options K) (q : Problem K) (identity : SizedMat K) :
    (budget : Nat) → State K → Except Fault (Outcome K)
  | 0, s => pure s.finish
  | budget + 1, s =>
    if s.converged then pure s.finish
    else do
      match ← s.trialPoint? identity with
      | none => pure s.giveUp
      | some x =>
        let v ← q.valDers x
        let next ← s.advance o x v
        loop o q identity budget next

/-- Minimizes the sum of the squared residuals, starting at `x₀`. -/
def minimize (o : Options K) (q : Problem K) (x₀ : List K) : Except Fault (Outcome K) := do
  let initial ← q.valDers x₀
  if initial.vals.isEmpty then pure (some x₀, ⟨none, 1, 0, 0⟩)
  else
    let current ← Linearization.new initial
    loop o q (Sized.identity x₀.length) o.maxSteps
      { point := x₀, current := current, lambda := o.initialLambda, trial := x₀,
        trialError := current.error, converged := false, steps := 0, evaluations := 1 }

/-! ## No run faults -/

/-- The data of a state. -/
def State.of (s : LeastSquares.LevenbergMarquardt.State K n) : State K where
  point := s.point.toList
  current := .of s.model
  lambda := s.lambda
  trial := s.trial.toList
  trialError := s.trialError
  converged := s.converged
  steps := s.steps
  evaluations := s.evaluations

/-- What is returned of a run. -/
def Outcome.of (run : LeastSquares.LevenbergMarquardt.Run K n) : Outcome K :=
  (run.point.map Vector.toList, run.report)

theorem State.trialPoint?_of (hn : 0 < n) (s : LeastSquares.LevenbergMarquardt.State K n) :
    (of s).trialPoint? (Sized.identity n) = .ok (s.trialPoint?.map Vector.toList) := by
  have hsolve : shiftedSolve (of s).current (Sized.identity n) s.lambda (of s).current.gradient
      = .ok (((s.model.shiftedNormal s.lambda).solve? s.model.gradient).map Vector.toList) :=
    shiftedSolve_of hn s.model s.lambda s.model.gradient
  rw [trialPoint?, show (of s).lambda = s.lambda from rfl, hsolve,
    LeastSquares.LevenbergMarquardt.State.trialPoint?]
  cases (s.model.shiftedNormal s.lambda).solve? s.model.gradient with
  | none => rfl
  | some delta =>
    have hsub : Sized.subVec (of s).point delta.toList = .ok (Vec.sub s.point delta).toList :=
      Sized.subVec_toList _ _
    simp only [Option.map_some, hsub, ok_bind]
    split <;> rfl

omit [Scalar K] in
theorem copyFrom_toList (x y : Vec K n) : copyFrom x.toList y.toList = .ok y.toList := by
  rw [copyFrom, Vector.length_toList, Vector.length_toList, sameLength_self]
  rfl

theorem State.advance_of (o : Options K) (s : LeastSquares.LevenbergMarquardt.State K n)
    (x : Vec K n) (e : Evaluation K n) :
    (of s).advance o x.toList (.of e) = .ok (of (s.advance o x e)) := by
  have herror : Sized.normSq (ValDers.of e).vals = e.residuals.normSq := Sized.normSq_toList _
  have hends : (of s).endsAt o (.of e) = s.endsAt o e := by
    rw [endsAt, herror]
    rfl
  have hcopy : copyFrom (of s).point x.toList = .ok x.toList := copyFrom_toList _ _
  rw [advance, LeastSquares.LevenbergMarquardt.State.advance, herror, hends, hcopy,
    Linearization.new_of, show (of s).current.error = s.model.error from rfl]
  split <;> rfl

/-- A run from the data of a state does not fault. -/
theorem loop_of {q : Problem K} {p : LeastSquares.Problem K n} (h : q.Refines p) (hn : 0 < n)
    (o : Options K) (budget : Nat) (s : LeastSquares.LevenbergMarquardt.State K n) :
    loop o q (Sized.identity n) budget (.of s)
      = .ok (.of (LeastSquares.LevenbergMarquardt.loop o p budget s)) := by
  induction budget generalizing s with
  | zero => rfl
  | succ budget ih =>
    rw [loop, LeastSquares.LevenbergMarquardt.loop, State.trialPoint?_of hn,
      show (State.of s).converged = s.converged from rfl]
    cases s.converged with
    | true => rfl
    | false =>
      cases s.trialPoint? with
      | none => rfl
      | some x =>
        simp only [Option.map_some, h.valDers, State.advance_of, ok_bind]
        exact ih _

/-- No run on a problem with at least one unknown faults, and its outcome is that of the run with
types. -/
theorem minimize_of {q : Problem K} {p : LeastSquares.Problem K n} (h : q.Refines p) (hn : 0 < n)
    (o : Options K) (x₀ : Vec K n) :
    minimize o q x₀.toList = .ok (.of (LeastSquares.LevenbergMarquardt.minimize o p x₀)) := by
  have hempty : (ValDers.of (p.evaluate x₀)).vals.isEmpty = true ↔ (p.evaluate x₀).count = 0 := by
    simp [ValDers.of, List.isEmpty_iff, ← List.length_eq_zero_iff]
  rw [minimize, h.valDers, LeastSquares.LevenbergMarquardt.minimize]
  simp only [ok_bind]
  by_cases hcount : (p.evaluate x₀).count = 0
  · rw [if_pos (hempty.2 hcount), if_pos hcount]
    rfl
  · rw [if_neg (mt hempty.1 hcount), if_neg hcount, Linearization.new_of, Vector.length_toList]
    exact loop_of h hn o o.maxSteps (.start o x₀ (p.evaluate x₀))

end LeastSquares.Checked.LevenbergMarquardt
