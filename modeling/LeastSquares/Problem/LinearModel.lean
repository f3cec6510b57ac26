/-
LeastSquares.Problem.LinearModel — what a solver keeps of an evaluation.

Around a point the residuals are taken to be linear, `r + J h` for a step `h`. The normal matrix
`Jᵀ J` and the gradient `Jᵀ r` are computed once, when the model is made.
-/
import LeastSquares.Problem.Basic

namespace LeastSquares

/-- A linear model of the residuals in `n` unknowns. -/
structure LinearModel (K : Type) (n : Nat) where
  count : Nat
  residuals : Vec K count
  jacobian : Mat K count n
  /-- `Jᵀ J` -/
  normal : Mat K n n
  /-- `Jᵀ r` -/
  gradient : Vec K n
  /-- The sum of the squares of the residuals. -/
  error : K

namespace LinearModel

variable {K : Type} [Scalar K] {n : Nat}

/-- The model that an evaluation gives. -/
def ofEvaluation (e : Evaluation K n) : LinearModel K n where
  count := e.count
  residuals := e.residuals
  jacobian := e.jacobian
  normal := e.jacobian.transpose.mul e.jacobian
  gradient := e.jacobian.transpose.mulVec e.residuals
  error := e.residuals.normSq

/-- The normal matrix with `shift` added on the diagonal. -/
def shiftedNormal (m : LinearModel K n) (shift : K) : Mat K n n :=
  m.normal.add ((Mat.identity n).scale shift)

/-- Are all residuals and all entries of the gradient finite? -/
def isFinite (m : LinearModel K n) : Bool :=
  m.residuals.toList.all Scalar.isFinite && m.gradient.toList.all Scalar.isFinite

/-- Is no residual, or no entry of the gradient, larger in magnitude than `epsilon`? -/
def isStationary (m : LinearModel K n) (epsilon : K) : Bool :=
  m.residuals.normInf ≤ epsilon || m.gradient.normInf ≤ epsilon

end LinearModel

end LeastSquares
