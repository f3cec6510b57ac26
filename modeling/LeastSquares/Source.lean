/-
LeastSquares.Source — problems whose points are plain lists.

A source is a problem as its author wrote it. Every operation on it fixes the number of unknowns
by the list it is given, asks the source for the problem in that many unknowns, and is refused if
there is none.
-/
import LeastSquares.DogLeg.Minimize
import LeastSquares.LevenbergMarquardt.Minimize
import LeastSquares.Problem.Constraints
import LeastSquares.Problem.Differentiation
import LeastSquares.Problem.Formulas

namespace LeastSquares

/-- A problem as it was written down. -/
inductive Source where
  | constraints (s : Constraints)
  | formulas (s : Formulas)

namespace Source

variable {K : Type} [Scalar K]

/-- The problem in `n` unknowns. -/
def problem? (s : Source) (n : Nat) : Except Fault (Problem K n) :=
  match s with
  | constraints s => s.problem? n
  | formulas s => s.problem? n

/-- The residuals at `x` with their Jacobian, and how many columns this has. -/
def evaluateAt (s : Source) (x : List K) : Except Fault ((n : Nat) × Evaluation K n) :=
  match s with
  | constraints s => (s.evaluateAt x).map fun e => ⟨s.params.length, e⟩
  | formulas s => (s.problem? x.length).map fun p => ⟨x.length, p.evaluate (Sized.vec x)⟩

/-- The residuals at `x`. -/
def residualsAt (s : Source) (x : List K) : Except Fault (List K) :=
  (s.problem? x.length).map fun p => p.residuals (Sized.vec x)

/-- An approximation of the Jacobian at `x` by difference quotients. -/
def numericJacobianAt (s : Source) (x : List K) : Except Fault (SizedMat K) :=
  (s.problem? x.length).bind fun p =>
    (numericJacobian (M := Id) p.evaluate (Sized.vec x)).run

/-- Minimizes by the damped method, starting at `x₀`. -/
def levenbergMarquardt (s : Source) (o : LevenbergMarquardt.Options K) (x₀ : List K) :
    Except Fault (LevenbergMarquardt.Run K x₀.length) :=
  (s.problem? x₀.length).map fun p => LevenbergMarquardt.minimize o p (Sized.vec x₀)

/-- Minimizes by the trust region method, starting at `x₀`. -/
def dogLeg (s : Source) (o : DogLeg.Options K) (x₀ : List K) :
    Except Fault (DogLeg.Run K x₀.length) :=
  (s.problem? x₀.length).map fun p => DogLeg.minimize o p (Sized.vec x₀)

end Source

end LeastSquares
