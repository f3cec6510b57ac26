/-
LeastSquares.Linear.Vec — vectors of a fixed length.

Rounded addition is not associative, so the order of every sum is part of its definition.
A scalar product runs eight sums side by side over whole blocks of eight products, joins them
in a fixed pattern and adds what is left over one by one.
-/
import LeastSquares.Scalar

namespace LeastSquares

/-- A vector with `n` entries. -/
abbrev Vec (K : Type) (n : Nat) : Type := Vector K n

namespace Vec

variable {α : Type} {n : Nat}

@[simp] theorem get_ofFn (f : Fin n → α) (i : Fin n) : (Vector.ofFn f).get i = f i := by
  simp only [Vector.get, Vector.toArray_ofFn, Array.getElem_ofFn]
  rfl

/-- Vectors with the same entries are equal. -/
theorem ext_get {a b : Vec α n} (h : ∀ i, a.get i = b.get i) : a = b :=
  Vector.ext fun i hi => h ⟨i, hi⟩

end Vec

variable {K : Type} [Scalar K] {n : Nat}

/-- The sum of a list, given eight sums that already run: every block of eight adds one number
to each of them. -/
def laneSum (s₀ s₁ s₂ s₃ s₄ s₅ s₆ s₇ : K) : List K → K
  | p₀ :: p₁ :: p₂ :: p₃ :: p₄ :: p₅ :: p₆ :: p₇ :: rest =>
    laneSum (s₀ + p₀) (s₁ + p₁) (s₂ + p₂) (s₃ + p₃) (s₄ + p₄) (s₅ + p₅) (s₆ + p₆) (s₇ + p₇) rest
  | rest =>
    rest.foldl (fun acc p => acc + p) (0 + (s₀ + s₄) + (s₁ + s₅) + (s₂ + s₆) + (s₃ + s₇))

/-- The sum of a list from left to right, without a zero in front; zero for an empty list. -/
def chainSum : List K → K
  | [] => 0
  | p :: rest => rest.foldl (fun acc q => acc + q) p

namespace Vec

/-- The scalar product. -/
def dot (a b : Vec K n) : K :=
  laneSum 0 0 0 0 0 0 0 0 (List.zipWith (fun x y => x * y) a.toList b.toList)

/-- The square of the Euclidean norm. -/
def normSq (v : Vec K n) : K :=
  dot v v

/-- The Euclidean norm. -/
def norm (v : Vec K n) : K :=
  Scalar.sqrt (normSq v)

/-- One step of the maximum norm: once the maximum is no number it stays so. -/
def maxAbs (acc x : K) : K :=
  if Scalar.isNaN acc then acc
  else if Scalar.isNaN x then x
  else Scalar.max acc (Scalar.abs x)

/-- The maximum norm, zero for the empty vector. It is no number if some entry is none. -/
def normInf (v : Vec K n) : K :=
  v.toList.foldl maxAbs 0

def add (a b : Vec K n) : Vec K n :=
  Vector.ofFn fun i => a.get i + b.get i

def sub (a b : Vec K n) : Vec K n :=
  Vector.ofFn fun i => a.get i - b.get i

def scale (v : Vec K n) (factor : K) : Vec K n :=
  Vector.ofFn fun i => v.get i * factor

/-! ## Entries -/

@[simp] theorem get_add (a b : Vec K n) (i : Fin n) : (a.add b).get i = a.get i + b.get i := by
  simp [add]

@[simp] theorem get_sub (a b : Vec K n) (i : Fin n) : (a.sub b).get i = a.get i - b.get i := by
  simp [sub]

@[simp] theorem get_scale (v : Vec K n) (factor : K) (i : Fin n) :
    (v.scale factor).get i = v.get i * factor := by
  simp [scale]

end Vec

end LeastSquares
