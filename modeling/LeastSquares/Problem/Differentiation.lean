/-
LeastSquares.Problem.Differentiation — derivatives by central differences.

The function is evaluated a little to the right and a little to the left of the point. How it is
evaluated is left open: `M` may be a monad in which evaluations fail or are counted.
-/
import LeastSquares.Linear.Sized
import LeastSquares.Problem.Basic

namespace LeastSquares

variable {K : Type} [Scalar K] {M : Type → Type} [Monad M]

/-- The distance from one to the next larger double. -/
def machineEpsilon : K := 2.220446049250313080847263336181640625e-16

/-- The step of a difference quotient at `x`: the cube root of the precision, relative to the
magnitude of `x` or to one, whichever is larger. -/
def differenceStep (x : K) : K :=
  Scalar.cbrt machineEpsilon * Scalar.max (Scalar.abs x) 1

/-- The central difference quotient. -/
def centralQuotient (h forward backward : K) : K :=
  (forward - backward) / (2.0 * h)

/-- An approximation of the derivative of `f` at `x`. -/
def derivative (f : K → M K) (x : K) : M K := do
  let h := differenceStep x
  let forward ← f (x + h)
  let backward ← f (x - h)
  pure (centralQuotient h forward backward)

/-- One column of a Jacobian with `m` rows. Both evaluations must have `m` residuals. -/
def differenceColumn {n : Nat} (m : Nat) (h : K) (forward backward : Evaluation K n) :
    Except Fault (Vec K m) :=
  if fits : forward.count = m ∧ backward.count = m then
    let u := forward.residuals.cast fits.1
    let v := backward.residuals.cast fits.2
    .ok (Vector.ofFn fun i => centralQuotient h (u.get i) (v.get i))
  else .error .shapeMismatch

/-- The matrix with the given columns. -/
def SizedMat.ofColumns {m : Nat} (columns : List (Vec K m)) : SizedMat K :=
  ⟨m, columns.length, Mat.ofFn fun i j => (columns.get j).get i⟩

/-- An approximation of the Jacobian at `x`, one coordinate at a time. The other coordinates keep
their values while one of them is varied. -/
def numericJacobian {n : Nat} (evaluate : Vec K n → M (Evaluation K n)) (x : Vec K n) :
    M (Except Fault (SizedMat K)) := do
  let here ← evaluate x
  let columns ← (List.finRange n).mapM fun (j : Fin n) => do
    let h := differenceStep (x.get j)
    let forward ← evaluate (x.set j (x.get j + h) j.isLt)
    let backward ← evaluate (x.set j (x.get j - h) j.isLt)
    pure (differenceColumn here.count h forward backward)
  pure ((columns.mapM id).map SizedMat.ofColumns)

end LeastSquares
