/-
LeastSquares.Linear.Mat — matrices of a fixed shape, stored by rows.
-/
import LeastSquares.Linear.Vec

namespace LeastSquares

/-- A matrix with `m` rows and `n` columns. -/
abbrev Mat (K : Type) (m n : Nat) : Type := Vector (Vector K n) m

namespace Mat

variable {K : Type} {m n p : Nat}

/-- The matrix with the given entries. -/
def ofFn (entry : Fin m → Fin n → K) : Mat K m n :=
  Vector.ofFn fun i => Vector.ofFn fun j => entry i j

/-- The entry in row `i` and column `j`. -/
def entry (a : Mat K m n) (i : Fin m) (j : Fin n) : K :=
  (a.get i).get j

@[simp] theorem entry_ofFn (f : Fin m → Fin n → K) (i : Fin m) (j : Fin n) :
    (ofFn f).entry i j = f i j := by
  simp [entry, ofFn]

/-- Matrices with the same entries are equal. -/
theorem ext_entry {a b : Mat K m n} (h : ∀ i j, a.entry i j = b.entry i j) : a = b :=
  Vec.ext_get fun i => Vec.ext_get fun j => h i j

/-- All entries, row by row. -/
def entryList (a : Mat K m n) : List K :=
  (Vector.toList a).flatMap Vector.toList

def transpose (a : Mat K m n) : Mat K n m :=
  ofFn fun i j => a.entry j i

@[simp] theorem entry_transpose (a : Mat K m n) (i : Fin n) (j : Fin m) :
    a.transpose.entry i j = a.entry j i := by
  simp [transpose]

variable [Scalar K]

def identity (n : Nat) : Mat K n n :=
  ofFn fun i j => if i = j then 1 else 0

def add (a b : Mat K m n) : Mat K m n :=
  ofFn fun i j => a.entry i j + b.entry i j

def sub (a b : Mat K m n) : Mat K m n :=
  ofFn fun i j => a.entry i j - b.entry i j

/-- Multiplies every entry, also the zeros. -/
def scale (a : Mat K m n) (factor : K) : Mat K m n :=
  ofFn fun i j => a.entry i j * factor

/-- The matrix product. The terms of an entry are added from left to right. -/
def mul (a : Mat K m n) (b : Mat K n p) : Mat K m p :=
  ofFn fun i j => chainSum ((List.finRange n).map fun k => a.entry i k * b.entry k j)

/-- The product with a column vector. -/
def mulVec (a : Mat K m n) (v : Vec K n) : Vec K m :=
  Vector.ofFn fun i => chainSum ((List.finRange n).map fun k => a.entry i k * v.get k)

/-- The product of a column vector and a row vector. -/
def outer (a : Vec K m) (b : Vec K n) : Mat K m n :=
  ofFn fun i j => a.get i * b.get j

/-! ## Entries -/

@[simp] theorem entry_identity (i j : Fin n) :
    (identity n : Mat K n n).entry i j = if i = j then 1 else 0 := by
  simp [identity]

@[simp] theorem entry_add (a b : Mat K m n) (i : Fin m) (j : Fin n) :
    (a.add b).entry i j = a.entry i j + b.entry i j := by
  simp [add]

@[simp] theorem entry_sub (a b : Mat K m n) (i : Fin m) (j : Fin n) :
    (a.sub b).entry i j = a.entry i j - b.entry i j := by
  simp [sub]

@[simp] theorem entry_scale (a : Mat K m n) (factor : K) (i : Fin m) (j : Fin n) :
    (a.scale factor).entry i j = a.entry i j * factor := by
  simp [scale]

@[simp] theorem entry_outer (a : Vec K m) (b : Vec K n) (i : Fin m) (j : Fin n) :
    (outer a b).entry i j = a.get i * b.get j := by
  simp [outer]

theorem entry_mul (a : Mat K m n) (b : Mat K n p) (i : Fin m) (j : Fin p) :
    (a.mul b).entry i j
      = chainSum ((List.finRange n).map fun k => a.entry i k * b.entry k j) := by
  simp [mul]

theorem get_mulVec (a : Mat K m n) (v : Vec K n) (i : Fin m) :
    (a.mulVec v).get i = chainSum ((List.finRange n).map fun k => a.entry i k * v.get k) := by
  simp [mulVec]

end Mat

end LeastSquares
