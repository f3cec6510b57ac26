/-
LeastSquares.Problem.Formulas — problems whose Jacobian is written down by hand.

The residuals and the entries of the Jacobian are expressions over common parameters, all of them
evaluated in plain numbers. Nothing ties the Jacobian to the residuals, and its shape is checked
only when the problem is put to use: it needs a row for each residual, and each row an entry for
each parameter.
-/
import LeastSquares.Postfix.Compile
import LeastSquares.Postfix.Evaluation
import LeastSquares.Problem.Basic

namespace LeastSquares

open Postfix

/-- Expressions for the residuals and, row by row, for the Jacobian. -/
structure Formulas where
  params : List String
  values : List (Tape params)
  jacobian : List (List (Tape params))

namespace Formulas

/-- Compiles the expressions, first the residuals and then the rows of the Jacobian. -/
def ofExpressions (params values : List String) (jacobian : List (List String)) :
    Except CompileError Formulas := do
  let values ← values.mapM (compile params)
  let jacobian ← jacobian.mapM fun row => row.mapM (compile params)
  pure ⟨params, values, jacobian⟩

/-- No expression at all. -/
def isEmpty (s : Formulas) : Bool :=
  s.values.isEmpty && s.jacobian.isEmpty

/-- One residual and its derivatives, as expressions. -/
structure Row (params : List String) where
  value : Tape params
  derivatives : Vec (Tape params) params.length

/-- Each residual with its row of the Jacobian, if the shapes fit. -/
def rows? (s : Formulas) : Except Fault (List (Row s.params)) :=
  if s.values.length = s.jacobian.length then
    (s.values.zip s.jacobian).mapM fun (value, derivatives) =>
      (Vec.ofList? s.params.length derivatives).map (Row.mk value)
  else .error .shapeMismatch

variable {K : Type} [Scalar K]

/-- The numbers that a row stands for at `x`. -/
def Row.evaluate {params : List String} (r : Row params) (x : Vec K params.length) :
    K × Vec K params.length :=
  (r.value.value x, r.derivatives.map fun t => t.value x)

/-- The problem that the rows pose. -/
def problem {params : List String} (rows : List (Row params)) : Problem K params.length where
  evaluate x := Evaluation.ofRows (rows.map fun r => r.evaluate x)

/-- The problem in `n` unknowns. There must be one for each parameter, unless there are no
expressions. -/
def problem? (s : Formulas) (n : Nat) : Except Fault (Problem K n) :=
  if s.isEmpty then .ok .empty
  else if h : s.params.length = n then s.rows?.map fun rows => h ▸ problem rows
  else .error (.wrongLength s.params.length n)

end Formulas

end LeastSquares
