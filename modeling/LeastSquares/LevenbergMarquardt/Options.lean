/-
LeastSquares.LevenbergMarquardt.Options — the settings of the damped method.
-/
import LeastSquares.Fault
import LeastSquares.Scalar

namespace LeastSquares.LevenbergMarquardt

/-- The settings of a run. -/
structure Options (K : Type) where
  /-- The damping of the first step. -/
  initialLambda : K
  /-- What the damping is multiplied with after a rejected step. -/
  lambdaUp : K
  /-- What the damping is divided by after an accepted step. -/
  lambdaDown : K
  /-- The threshold of the three tests for convergence. -/
  epsilon : K
  maxSteps : Nat

/-- A choice of one setting. -/
inductive Setting (K : Type) where
  | initialLambda (value : K)
  | lambdaUp (value : K)
  | lambdaDown (value : K)
  | epsilon (value : K)
  | maxSteps (count : Nat)

namespace Options

variable {K : Type} [Scalar K]

/-- The step budget of these settings is the largest word of 64 bits. -/
def standard : Options K where
  initialLambda := 10.0
  lambdaUp := 10.0
  lambdaDown := 10.0
  epsilon := 1e-8
  maxSteps := Nat.pow 2 64 - 1

/-- Changes one setting, if the value is in its range. -/
def set (o : Options K) : Setting K → Except Fault (Options K)
  | .initialLambda v =>
    if 0 < v then .ok { o with initialLambda := v } else .error (.badSetting .initialLambda)
  | .lambdaUp v => if 0 < v then .ok { o with lambdaUp := v } else .error (.badSetting .lambdaUp)
  | .lambdaDown v =>
    if 0 < v then .ok { o with lambdaDown := v } else .error (.badSetting .lambdaDown)
  | .epsilon v => if 0 ≤ v then .ok { o with epsilon := v } else .error (.badSetting .epsilon)
  | .maxSteps n => if 0 < n then .ok { o with maxSteps := n } else .error (.badSetting .maxSteps)

/-- The standard settings, changed one after the other. -/
def ofSettings (settings : List (Setting K)) : Except Fault (Options K) :=
  settings.foldlM set standard

end Options

end LeastSquares.LevenbergMarquardt
