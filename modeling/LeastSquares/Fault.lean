/-
LeastSquares.Fault — the ways a caller can break the contract of the library.

A fault is never the outcome of arithmetic: lengths and shapes either fit or do
not, whatever the numbers are. Faults therefore arise only where plain lists
enter, and the functions on sized vectors and matrices behind that border
return plain results.
-/

namespace LeastSquares

/-- A solver setting outside of its range. -/
inductive BadSetting where
  | initialLambda
  | lambdaUp
  | lambdaDown
  | delta0
  | epsilon
  | maxSteps
deriving DecidableEq

/-- The range that the setting has to be in. -/
def BadSetting.message : BadSetting → String
  | .initialLambda => "initial_lambda must be > 0"
  | .lambdaUp => "lambda_up must be > 0"
  | .lambdaDown => "lambda_down must be > 0"
  | .delta0 => "delta0 must be > 0"
  | .epsilon => "epsilon must be >= 0"
  | .maxSteps => "max_steps must be > 0"

/-- Why a call is refused. -/
inductive Fault where
  /-- A point has `given` coordinates where `expected` are needed. -/
  | wrongLength (expected given : Nat)
  /-- Two operands of a vector or matrix operation do not fit together. -/
  | shapeMismatch
  /-- A linear system with a matrix that is not square. -/
  | notSquare
  /-- An index at or beyond the end. -/
  | outOfRange (index length : Nat)
  | badSetting (setting : BadSetting)
deriving DecidableEq

/-- The text that comes with a fault; only a bad setting has one. -/
def Fault.message? : Fault → Option String
  | .badSetting s => some s.message
  | _ => none

end LeastSquares
