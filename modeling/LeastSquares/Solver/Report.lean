/-
LeastSquares.Solver.Report — what a run says about itself.
-/
import LeastSquares.Problem.Basic

namespace LeastSquares

/-- Why a run did not converge. -/
inductive Failure where
  /-- A step could not be computed, or numbers turned up that are not finite. -/
  | numerical
  /-- The step budget was used up. -/
  | lostPatience
deriving DecidableEq

/-- The outcome of a run. -/
structure Report (K : Type) where
  failure : Option Failure
  /-- How often the problem was evaluated, residuals alone included. -/
  evaluations : Nat
  steps : Nat
  /-- Half the sum of the squared residuals at the returned point. -/
  objective : K

def Report.converged {K : Type} (r : Report K) : Bool :=
  r.failure.isNone

/-- How much a note matters. -/
inductive Level where
  | debug
  | warn
deriving DecidableEq

end LeastSquares
