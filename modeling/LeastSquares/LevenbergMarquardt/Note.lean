/-
LeastSquares.LevenbergMarquardt.Note — what the damped method logs.
-/
import LeastSquares.Solver.Report

namespace LeastSquares.LevenbergMarquardt

/-- An entry of the log of a run. -/
inductive Note (K : Type) where
  /-- Step `index`, counted from zero, was tried with the given damping. -/
  | trial (index : Nat) (lambda error trialError : K)
  /-- The equations of step `index` have no usable solution. -/
  | noSolution (index : Nat) (lambda : K)
  /-- The budget is used up after `count` steps. -/
  | outOfSteps (count : Nat) (trialError : K)

namespace Note

variable {K : Type}

def level : Note K → Level
  | trial .. => .debug
  | noSolution .. => .warn
  | outOfSteps .. => .warn

/-- The text of an entry, given a way to write numbers. -/
def text (number : K → String) : Note K → String
  | trial index lambda error trialError =>
    "lm step " ++ index.repr ++ ": lambda = " ++ number lambda ++ ", error = " ++ number error
      ++ ", trial error = " ++ number trialError
  | noSolution index lambda =>
    "Levenberg-Marquardt gave up, step " ++ index.repr ++ " has no solution (lambda = "
      ++ number lambda ++ ")"
  | outOfSteps count trialError =>
    "Levenberg-Marquardt took too many steps (" ++ count.repr ++ "), error = " ++ number trialError

end Note

end LeastSquares.LevenbergMarquardt
