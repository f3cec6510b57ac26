/-
LeastSquares.Problem.Basic — least squares problems.

A problem is a vector of residuals as a function of a point. How many residuals there are may
depend on the point; each of them comes with its partial derivatives, one for each coordinate.
-/
import LeastSquares.Linear.Mat

namespace LeastSquares

/-- Residuals at one point with `n` coordinates, and their Jacobian. -/
structure Evaluation (K : Type) (n : Nat) where
  count : Nat
  residuals : Vec K count
  jacobian : Mat K count n

namespace Evaluation

variable {K : Type} {n : Nat}

/-- No residuals at all. -/
def empty : Evaluation K n where
  count := 0
  residuals := ⟨#[], rfl⟩
  jacobian := ⟨#[], rfl⟩

/-- One residual for each of the rows, which hold its value and its derivatives. -/
def ofRows (rows : List (K × Vec K n)) : Evaluation K n where
  count := rows.length
  residuals := Vector.ofFn fun i => (rows.get i).1
  jacobian := Vector.ofFn fun i => (rows.get i).2

end Evaluation

/-- A least squares problem in `n` unknowns. `residuals` may compute the values another way than
`evaluate` does. -/
structure Problem (K : Type) (n : Nat) where
  evaluate : Vec K n → Evaluation K n
  residuals : Vec K n → List K := fun x => (evaluate x).residuals.toList

/-- The problem without residuals. -/
def Problem.empty {K : Type} {n : Nat} : Problem K n where
  evaluate _ := .empty

/-- What a problem was asked for, and where. -/
inductive Request (K : Type) (n : Nat) where
  /-- The residuals and the Jacobian. -/
  | evaluation (x : Vec K n)
  /-- The residuals alone. -/
  | residuals (x : Vec K n)

end LeastSquares
