/-
LeastSquares.DogLeg.Options — the settings of the trust region method.
-/
import LeastSquares.Fault
import LeastSquares.Scalar

namespace LeastSquares.DogLeg

/-- The settings of a run. -/
structure Options (K : Type) where
  /-- The first radius of the trust region; if there is none, it is taken from the gradient. -/
  delta0 : Option K
  /-- The threshold of the tests for convergence. -/
  epsilon : K
  maxSteps : Nat

/-- A choice of one setting. -/
inductive Setting (K : Type) where
  | delta0 (value : K)
  | epsilon (value : K)
  | maxSteps (count : Nat)

namespace Options

variable {K : Type} [Scalar K]

def standard : Options K where
  delta0 := none
  epsilon := 1e-8
  maxSteps := 1000

/-- Changes one setting, if the value is in its range. -/
def set (o : Options K) : Setting K → Except Fault (Options K)
  | .delta0 v => if 0 < v then .ok { o with delta0 := some v } else .error (.badSetting .delta0)
  | .epsilon v => if 0 ≤ v then .ok { o with epsilon := v } else .error (.badSetting .epsilon)
  | .maxSteps n => if 0 < n then .ok { o with maxSteps := n } else .error (.badSetting .maxSteps)

/-- The standard settings, changed one after the other. -/
def ofSettings (settings : List (Setting K)) : Except Fault (Options K) :=
  settings.foldlM set standard

end Options

end LeastSquares.DogLeg
