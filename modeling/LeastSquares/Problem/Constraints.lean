/-
LeastSquares.Problem.Constraints — problems made of expressions.

Each constraint is an expression over one common list of parameters, and is one residual. Its
derivatives come from the dual numbers; where only the residuals are wanted, the expressions are
evaluated in plain numbers.
-/
import LeastSquares.Postfix.Compile
import LeastSquares.Postfix.Evaluation
import LeastSquares.Problem.Basic

namespace LeastSquares

open Postfix

/-- Expressions over common parameters. -/
structure Constraints where
  params : List String
  tapes : List (Tape params)

namespace Constraints

/-- No constraints yet. -/
def new (params : List String) : Constraints :=
  ⟨params, []⟩

/-- Appends a constraint, and returns its row with the new set. -/
def add (s : Constraints) (expression : String) : Except CompileError (Constraints × Nat) :=
  (compile s.params expression).map fun t => (⟨s.params, s.tapes ++ [t]⟩, s.tapes.length)

/-- The constraints with the given expressions, or the error of the first one that has one. -/
def ofExpressions (params : List String) (expressions : List String) :
    Except CompileError Constraints :=
  expressions.foldlM (fun s e => (s.add e).map Prod.fst) (new params)

/-- How many constraints there are. -/
def size (s : Constraints) : Nat :=
  s.tapes.length

def isEmpty (s : Constraints) : Bool :=
  s.tapes.isEmpty

variable {K : Type} [Scalar K]

/-- The residual of a tape with its derivatives. -/
def row {params : List String} (t : Tape params) (x : Vec K params.length) :
    K × Vec K params.length :=
  let (value, gradient) := t.gradientRow x
  (value, Vector.ofFn fun j => gradient.getD j 0)

/-- The problem that the constraints pose. -/
def problem (s : Constraints) : Problem K s.params.length where
  evaluate x := Evaluation.ofRows (s.tapes.map fun t => row t x)
  residuals x := s.tapes.map fun t => t.value x

/-- The problem in `n` unknowns. There must be one for each parameter, unless there are no
constraints, because then none is ever evaluated. -/
def problem? (s : Constraints) (n : Nat) : Except Fault (Problem K n) :=
  if h : s.params.length = n then .ok (h ▸ s.problem)
  else if s.isEmpty then .ok .empty
  else .error (.wrongLength s.params.length n)

/-- The residuals at `x` with their derivatives in the parameters, as many of these as there are
parameters also if there are no constraints and `x` has another length. -/
def evaluateAt (s : Constraints) (x : List K) : Except Fault (Evaluation K s.params.length) :=
  if s.isEmpty then .ok .empty
  else (Vec.ofList? s.params.length x).map s.problem.evaluate

end Constraints

end LeastSquares
