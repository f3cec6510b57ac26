/-
LeastSquares.DogLeg.Note — what the trust region method logs.
-/
import LeastSquares.Solver.Report

namespace LeastSquares.DogLeg

/-- An entry of the log of a run. Steps are counted from one. -/
inductive Note (K : Type) where
  /-- Step `index` of length `length` was tried within the given radius. -/
  | trial (index : Nat) (radius length ratio : K)
  /-- Residuals or gradient at the initial point are not finite. -/
  | notFiniteAtStart
  /-- The equations of step `index` have no solution. -/
  | singular (index : Nat)
  /-- Residuals or gradient at the point that step `index` led to are not finite. -/
  | notFinite (index : Nat)
  /-- The budget is used up after `count` steps. -/
  | outOfSteps (count : Nat) (error : K)

namespace Note

variable {K : Type}

def level : Note K → Level
  | trial .. => .debug
  | _ => .warn

/-- The text of an entry, given a way to write numbers. -/
def text (number : K → String) : Note K → String
  | trial index radius length ratio =>
    "dogleg step " ++ index.repr ++ ": delta = " ++ number radius ++ ", |h| = " ++ number length
      ++ ", rho = " ++ number ratio
  | notFiniteAtStart =>
    "dogleg gave up, residuals or gradient at the initial point are not finite"
  | singular index => "dogleg gave up, Gauss-Newton step " ++ index.repr ++ " is singular"
  | notFinite index =>
    "dogleg gave up, residuals or gradient after step " ++ index.repr ++ " are not finite"
  | outOfSteps count error =>
    "dogleg took too many steps (" ++ count.repr ++ "), error = " ++ number error

end Note

end LeastSquares.DogLeg
