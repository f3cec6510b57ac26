/-
LeastSquares.LevenbergMarquardt.Minimize — the damped Gauss-Newton method.

Each step solves `(Jᵀ J + λ I) d = Jᵀ r` at the current point `x` and tries `x - d`. A trial with a
smaller error becomes the current point and `λ` shrinks; otherwise `λ` grows. The run ends when a
trial has a small error, a small Jacobian, or nearly the error of the current point; the point
returned is that trial, also if it was not accepted.

A run is a sequence of states. `State.trialPoint?` is where the next step leads,
`State.advance` is the state after it, and `loop` repeats the two within the step budget.
-/
import LeastSquares.Linear.Elimination
import LeastSquares.Problem.LinearModel
import LeastSquares.LevenbergMarquardt.Note
import LeastSquares.LevenbergMarquardt.Options

namespace LeastSquares.LevenbergMarquardt

/-- Where a run stands between two steps. -/
structure State (K : Type) (n : Nat) where
  /-- The current point. -/
  point : Vec K n
  /-- The linear model at the current point. -/
  model : LinearModel K n
  lambda : K
  /-- The point tried last. -/
  trial : Vec K n
  /-- The sum of the squared residuals at the point tried last. -/
  trialError : K
  converged : Bool
  steps : Nat
  evaluations : Nat
  /-- What the problem has been asked for so far. -/
  requests : Array (Request K n)
  notes : Array (Note K)

/-- A finished run. -/
structure Run (K : Type) (n : Nat) where
  /-- The last trial point, unless a step could not be computed. -/
  point : Option (Vec K n)
  report : Report K
  requests : Array (Request K n)
  notes : Array (Note K)

variable {K : Type} [Scalar K] {n : Nat}

namespace State

/-- The state before the first step. -/
def start (o : Options K) (x₀ : Vec K n) (e : Evaluation K n) : State K n where
  point := x₀
  model := .ofEvaluation e
  lambda := o.initialLambda
  trial := x₀
  trialError := e.residuals.normSq
  converged := false
  steps := 0
  evaluations := 1
  requests := #[.evaluation x₀]
  notes := #[]

/-- The point to try next, unless the equations of the step have no solution or one with an entry
that is no number. -/
def trialPoint? (s : State K n) : Option (Vec K n) :=
  match (s.model.shiftedNormal s.lambda).solve? s.model.gradient with
  | none => none
  | some d => if d.toList.any Scalar.isNaN then none else some (Vec.sub s.point d)

/-- Does a trial with the given evaluation end the run? One of three tests has to be met: its
error is small, its Jacobian is small, or its error is near the one of the current point. -/
def endsAt (o : Options K) (s : State K n) (e : Evaluation K n) : Bool :=
  e.residuals.normSq < o.epsilon
    || e.jacobian.entryList.all (fun d => Scalar.abs d < o.epsilon)
    || Scalar.abs (s.model.error - e.residuals.normSq) < o.epsilon

/-- The state after trying `x`, where the problem gave `e`. -/
def advance (o : Options K) (s : State K n) (x : Vec K n) (e : Evaluation K n) : State K n :=
  let error := e.residuals.normSq
  let tried := { s with
    trial := x
    trialError := error
    converged := s.endsAt o e
    steps := s.steps + 1
    evaluations := s.evaluations + 1
    requests := s.requests.push (.evaluation x)
    notes := s.notes.push (.trial s.steps s.lambda s.model.error error) }
  if error < s.model.error then
    { tried with point := x, model := .ofEvaluation e, lambda := s.lambda / o.lambdaDown }
  else { tried with lambda := s.lambda * o.lambdaUp }

/-- The end of a run whose next step has no solution. -/
def giveUp (s : State K n) : Run K n where
  point := none
  report := ⟨some .numerical, s.evaluations, s.steps, Scalar.nan⟩
  requests := s.requests
  notes := s.notes.push (.noSolution s.steps s.lambda)

/-- The end of a run that has converged or used up its budget. -/
def finish (s : State K n) : Run K n where
  point := some s.trial
  report := ⟨if s.converged then none else some .lostPatience, s.evaluations, s.steps,
    s.trialError * 0.5⟩
  requests := s.requests
  notes := if s.converged then s.notes else s.notes.push (.outOfSteps s.steps s.trialError)

end State

/-- The run from a state on, with at most `budget` further steps. -/
def loop (o : Options K) (p : Problem K n) : (budget : Nat) → State K n → Run K n
  | 0, s => s.finish
  | budget + 1, s =>
    if s.converged then s.finish
    else match s.trialPoint? with
      | none => s.giveUp
      | some x => loop o p budget (s.advance o x (p.evaluate x))

/-- The run on a problem without residuals: there is nothing to do. -/
def Run.trivial (x₀ : Vec K n) : Run K n where
  point := some x₀
  report := ⟨none, 1, 0, 0⟩
  requests := #[.evaluation x₀]
  notes := #[]

/-- Minimizes the sum of the squared residuals, starting at `x₀`. -/
def minimize (o : Options K) (p : Problem K n) (x₀ : Vec K n) : Run K n :=
  let e := p.evaluate x₀
  if e.count = 0 then .trivial x₀ else loop o p o.maxSteps (.start o x₀ e)

end LeastSquares.LevenbergMarquardt
