/-
LeastSquares.Linear.Sized — the same operations where the shapes are data.

A list of numbers is a vector of whatever length it has, and a `SizedMat` carries its shape
along. Each operation compares the shapes, refuses operands that do not fit together, and
otherwise is the operation on vectors and matrices of fixed shape.
-/
import LeastSquares.Fault
import LeastSquares.Linear.Elimination

namespace LeastSquares

/-- The list as a vector of length `n`. -/
def Vec.ofList? {K : Type} (n : Nat) (xs : List K) : Except Fault (Vec K n) :=
  if h : xs.length = n then .ok ⟨xs.toArray, by simpa using h⟩
  else .error (.wrongLength n xs.length)

/-- A matrix together with its shape. -/
structure SizedMat (K : Type) where
  rows : Nat
  cols : Nat
  entries : Mat K rows cols

namespace Sized

variable {K : Type}

/-- The list as a vector. -/
def vec (xs : List K) : Vec K xs.length :=
  ⟨xs.toArray, by simp⟩

/-- Two lists of equal length as vectors, for an operation on them. -/
def pairing {α : Type} (a b : List K) (f : {n : Nat} → Vec K n → Vec K n → α) : Except Fault α :=
  if h : b.length = a.length then .ok (f (vec a) ((vec b).cast h)) else .error .shapeMismatch

/-- Two matrices of the same shape, for an operation on them. -/
def matching (a b : SizedMat K) (f : {m n : Nat} → Mat K m n → Mat K m n → Mat K m n) :
    Except Fault (SizedMat K) :=
  if h : b.rows = a.rows ∧ b.cols = a.cols then
    .ok ⟨a.rows, a.cols, f a.entries (h.2 ▸ b.entries.cast h.1)⟩
  else .error .shapeMismatch

/-- Entry `j` of row `i` lies within the entries of all rows. -/
theorem rowMajor_lt {rows cols : Nat} (i : Fin rows) (j : Fin cols) :
    i.val * cols + j.val < rows * cols :=
  calc i.val * cols + j.val < i.val * cols + cols := Nat.add_lt_add_left j.isLt _
    _ = (i.val + 1) * cols := (Nat.succ_mul i.val cols).symm
    _ ≤ rows * cols := Nat.mul_le_mul_right cols i.isLt

/-- The matrix of the given shape with the given entries, row by row. -/
def ofRowMajor? (rows cols : Nat) (data : List K) : Except Fault (SizedMat K) :=
  if h : data.length = rows * cols then
    .ok ⟨rows, cols, Mat.ofFn fun i j => data.get ⟨i * cols + j, h ▸ rowMajor_lt i j⟩⟩
  else .error .shapeMismatch

def transpose (a : SizedMat K) : SizedMat K :=
  ⟨a.cols, a.rows, a.entries.transpose⟩

variable [Scalar K]

def norm (v : List K) : K :=
  (vec v).norm

def normSq (v : List K) : K :=
  (vec v).normSq

def normInf (v : List K) : K :=
  (vec v).normInf

def scaleVec (v : List K) (factor : K) : List K :=
  ((vec v).scale factor).toList

def dot (a b : List K) : Except Fault K :=
  pairing a b Vec.dot

def addVec (a b : List K) : Except Fault (List K) :=
  pairing a b fun u v => (Vec.add u v).toList

def subVec (a b : List K) : Except Fault (List K) :=
  pairing a b fun u v => (Vec.sub u v).toList

def identity (n : Nat) : SizedMat K :=
  ⟨n, n, Mat.identity n⟩

def scale (a : SizedMat K) (factor : K) : SizedMat K :=
  ⟨a.rows, a.cols, a.entries.scale factor⟩

def add (a b : SizedMat K) : Except Fault (SizedMat K) :=
  matching a b Mat.add

def sub (a b : SizedMat K) : Except Fault (SizedMat K) :=
  matching a b Mat.sub

/-- Fits if the first factor has as many columns as the second one has rows. -/
def mul (a b : SizedMat K) : Except Fault (SizedMat K) :=
  if h : b.rows = a.cols then .ok ⟨a.rows, b.cols, a.entries.mul (b.entries.cast h)⟩
  else .error .shapeMismatch

/-- Fits if the matrix has as many columns as the vector has entries. -/
def mulVec (a : SizedMat K) (v : List K) : Except Fault (List K) :=
  if h : v.length = a.cols then .ok (a.entries.mulVec ((vec v).cast h)).toList
  else .error .shapeMismatch

def outer (a b : List K) : SizedMat K :=
  ⟨a.length, b.length, Mat.outer (vec a) (vec b)⟩

/-- The solution of a system of linear equations. The right-hand side has to have as many entries
as the matrix has rows, and the matrix has to be square. -/
def solve? (a : SizedMat K) (b : List K) : Except Fault (Option (List K)) :=
  if hb : b.length = a.rows then
    if hs : a.rows = a.cols then
      .ok (((hs ▸ a.entries : Mat K a.cols a.cols).solve? ((vec b).cast (hb.trans hs))).map
        Vector.toList)
    else .error .notSquare
  else .error .shapeMismatch

end Sized

end LeastSquares
