/-
LeastSquares.Linear.Elimination — systems of linear equations.

Gaussian elimination with partial pivoting. The matrix is overwritten by its two triangular
factors: on and above the diagonal stands what elimination leaves of the rows, below it stand the
multiples that were subtracted. Rows change places as a whole, and `order` remembers which row of
the system each of them was. A column without a usable pivot is left alone; it leaves a zero on
the diagonal, which the last substitution meets.
-/
import LeastSquares.Linear.Mat

namespace LeastSquares

/-- The triangular factors of a matrix, and where its rows came from. -/
structure Factors (K : Type) (n : Nat) where
  rows : Mat K n n
  order : Vector (Fin n) n

namespace Factors

variable {K : Type} [Scalar K] {n : Nat}

/-- The first of the rows from `i` on whose entry in column `i` has the largest magnitude. -/
def pivotRow (a : Mat K n n) (i : Fin n) : Fin n :=
  (List.finRange n).foldl
    (fun best r =>
      if i < r ∧ Scalar.abs (a.entry best i) < Scalar.abs (a.entry r i) then r else best) i

/-- Subtracts multiples of row `i` from the rows below it, so that column `i` vanishes there, and
keeps the multiples in its place. -/
def eliminate (a : Mat K n n) (i : Fin n) : Mat K n n :=
  let inverse := 1 / a.entry i i
  Mat.ofFn fun r k =>
    if i < r then
      if k < i then a.entry r k
      else if k = i then a.entry r i * inverse
      else a.entry r k + -a.entry i k * (a.entry r i * inverse)
    else a.entry r k

/-- Treats column `i`: brings the pivot into row `i` and eliminates below it. -/
def step (f : Factors K n) (i : Fin n) : Factors K n :=
  let p := pivotRow f.rows i
  if f.rows.entry p i == 0 then f
  else ⟨eliminate (f.rows.swap i p i.isLt p.isLt) i, f.order.swap i p i.isLt p.isLt⟩

/-- The factors of a matrix. -/
def ofMat (a : Mat K n n) : Factors K n :=
  (List.finRange n).foldl step ⟨a, Vector.ofFn id⟩

/-- Solves for the factor below the diagonal, whose own diagonal consists of ones. -/
def forward (f : Factors K n) (b : Vec K n) : Vec K n :=
  (List.finRange n).foldl
    (fun b i => Vector.ofFn fun r =>
      if i < r then b.get r + -b.get i * f.rows.entry r i else b.get r) b

/-- One unknown of the factor above the diagonal, if the diagonal is not zero there. -/
def backwardStep (f : Factors K n) (b : Vec K n) (i : Fin n) : Option (Vec K n) :=
  if f.rows.entry i i == 0 then none
  else
    let c := b.get i / f.rows.entry i i
    some (Vector.ofFn fun r =>
      if r < i then b.get r + -c * f.rows.entry r i else if r = i then c else b.get r)

/-- Solves for the factor above the diagonal, from the last unknown to the first. -/
def backward? (f : Factors K n) (b : Vec K n) : Option (Vec K n) :=
  (List.finRange n).reverse.foldlM f.backwardStep b

/-- Solves the system with the given right-hand side. -/
def solve? (f : Factors K n) (b : Vec K n) : Option (Vec K n) :=
  f.backward? (f.forward (Vector.ofFn fun i => b.get (f.order.get i)))

end Factors

/-- The solution of the system of linear equations with the given matrix and right-hand side, or
`none` if elimination finds the matrix singular. -/
def Mat.solve? {K : Type} [Scalar K] {n : Nat} (a : Mat K n n) (b : Vec K n) : Option (Vec K n) :=
  (Factors.ofMat a).solve? b

end LeastSquares
