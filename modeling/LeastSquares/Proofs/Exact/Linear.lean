/-
LeastSquares.Proofs.Exact.Linear — vectors and matrices over an ordered field.

Over a field the order of summation does not matter, and all operations on vectors and matrices are
those of linear algebra: a vector is a function on its indices (`Vec.get`), a matrix a `Matrix` of
its entries (`Mat.toMatrix`), and the lemmas here carry each operation over to Mathlib's.

The field may be any one (`Scalar.ofField`), whatever stands in it for the functions of analysis;
none of them has a part in linear algebra. The real numbers are the instance that matters
(`Exact.scalar_real`).
-/
import Mathlib
import LeastSquares.Proofs.Norms

namespace LeastSquares

/-- Functions with the names of those of analysis. -/
class ElementaryFunctions (K : Type) where
  sqrt : K → K
  cbrt : K → K
  exp : K → K
  log : K → K
  sin : K → K
  cos : K → K
  tan : K → K
  asin : K → K
  acos : K → K
  atan : K → K
  pow : K → K → K

/-- Exact arithmetic in an ordered field: every result is a finite number. -/
@[reducible]
noncomputable def Scalar.ofField (K : Type) [Field K] [LinearOrder K] [ElementaryFunctions K] :
    Scalar K where
  decideLT := Classical.decRel _
  decideLE := Classical.decRel _
  beq a b := @decide (a = b) (Classical.dec _)
  nan := 0
  isNaN _ := false
  isFinite _ := true
  abs x := |x|
  sqrt := ElementaryFunctions.sqrt
  cbrt := ElementaryFunctions.cbrt
  exp := ElementaryFunctions.exp
  log := ElementaryFunctions.log
  sin := ElementaryFunctions.sin
  cos := ElementaryFunctions.cos
  tan := ElementaryFunctions.tan
  asin := ElementaryFunctions.asin
  acos := ElementaryFunctions.acos
  atan := ElementaryFunctions.atan
  pow := ElementaryFunctions.pow

noncomputable instance : ElementaryFunctions ℝ where
  sqrt := Scalar.sqrt
  cbrt := Scalar.cbrt
  exp := Scalar.exp
  log := Scalar.log
  sin := Scalar.sin
  cos := Scalar.cos
  tan := Scalar.tan
  asin := Scalar.asin
  acos := Scalar.acos
  atan := Scalar.atan
  pow := Scalar.pow

/-- What holds in every ordered field holds of exact arithmetic. -/
theorem Exact.scalar_real : (inferInstance : Scalar ℝ) = Scalar.ofField ℝ :=
  rfl

variable {K : Type} [Field K] [LinearOrder K] [ElementaryFunctions K] {m n k : Nat}

attribute [local instance] Scalar.ofField

/-! What the program tests, in the terms of the field: equality is decidable, the maximum is the
larger number, and nothing has to be caught. -/

theorem Exact.beq_zero_iff {a : K} : (a == 0) = true ↔ a = 0 := by
  show @decide (a = 0) (Classical.dec _) = true ↔ a = 0
  rw [@decide_eq_true_iff (a = 0) (Classical.dec _)]

theorem Exact.max_eq (a b : K) : Scalar.max a b = max a b := by
  have hnumber : ¬ Scalar.isNaN b = true := Bool.false_ne_true
  rw [Scalar.max]
  rcases lt_or_ge b a with hlt | hge
  · rw [if_pos (.inr hlt), max_eq_left hlt.le]
  · rw [if_neg (not_or_intro hnumber hge.not_gt), max_eq_right hge]

theorem Exact.min_eq (a b : K) : Scalar.min a b = min a b := by
  have hnumber : ¬ Scalar.isNaN b = true := Bool.false_ne_true
  rw [Scalar.min]
  rcases lt_or_ge a b with hlt | hge
  · rw [if_pos (.inr hlt), min_eq_left hlt.le]
  · rw [if_neg (not_or_intro hnumber hge.not_gt), min_eq_right hge]

/-- Nothing is no number. -/
theorem Exact.any_isNaN (l : List K) : l.any Scalar.isNaN = false :=
  List.any_eq_false.2 fun _ _ => Bool.false_ne_true

theorem LinearModel.isFinite_eq_true (m : LinearModel K n) : m.isFinite = true :=
  Bool.and_eq_true_iff.2 ⟨List.all_eq_true.2 fun _ _ => rfl, List.all_eq_true.2 fun _ _ => rfl⟩

/-! ## Sums

Chains and lanes are sums in some order, so both are the sum. -/

theorem foldl_add_eq_sum (a : K) (l : List K) : l.foldl (fun acc q => acc + q) a = a + l.sum := by
  induction l generalizing a with
  | nil => simp
  | cons b l ih => rw [List.foldl_cons, ih, List.sum_cons, add_assoc]

theorem chainSum_eq_sum (l : List K) : chainSum l = l.sum := by
  cases l with
  | nil => rfl
  | cons a l => exact (foldl_add_eq_sum a l).trans List.sum_cons.symm

theorem laneSum_eq_sum (s₀ s₁ s₂ s₃ s₄ s₅ s₆ s₇ : K) (l : List K) :
    laneSum s₀ s₁ s₂ s₃ s₄ s₅ s₆ s₇ l = s₀ + s₁ + s₂ + s₃ + s₄ + s₅ + s₆ + s₇ + l.sum := by
  fun_induction laneSum s₀ s₁ s₂ s₃ s₄ s₅ s₆ s₇ l with
  | case1 s₀ s₁ s₂ s₃ s₄ s₅ s₆ s₇ p₀ p₁ p₂ p₃ p₄ p₅ p₆ p₇ rest ih =>
    simp only [ih, List.sum_cons]
    ring
  | case2 s₀ s₁ s₂ s₃ s₄ s₅ s₆ s₇ rest _ =>
    refine (foldl_add_eq_sum _ rest).trans ?_
    ring

theorem chainSum_finRange (f : Fin n → K) : chainSum ((List.finRange n).map f) = ∑ i, f i := by
  rw [chainSum_eq_sum, ← List.ofFn_eq_map, List.sum_ofFn]

theorem zipWith_toList {α β γ : Type} (f : α → β → γ) (a : Vec α n) (b : Vec β n) :
    List.zipWith f a.toList b.toList = List.ofFn fun i => f (a.get i) (b.get i) := by
  refine List.ext_getElem (by simp) fun i hi hi' => ?_
  simp [Vector.get]

/-! ## Vectors

Each operation has one equation that turns it into Mathlib's, and is not opened any more. -/

namespace Vec

variable (a b : Vec K n)

theorem dot_eq : a.dot b = a.get ⬝ᵥ b.get := by
  rw [dot, zipWith_toList, laneSum_eq_sum, List.sum_ofFn]
  simp [dotProduct]

theorem normSq_eq : a.normSq = a.get ⬝ᵥ a.get :=
  dot_eq a a

theorem get_add_eq : (a.add b).get = a.get + b.get :=
  funext (get_add a b)

theorem get_sub_eq : (a.sub b).get = a.get - b.get :=
  funext (get_sub a b)

theorem get_scale_eq (c : K) : (a.scale c).get = c • a.get :=
  funext fun i => (get_scale a c i).trans (mul_comm _ c)

theorem maxAbs_eq (x y : K) : maxAbs x y = max x |y| := by
  have hnumber (z : K) : ¬ Scalar.isNaN z = true := Bool.false_ne_true
  rw [maxAbs, if_neg (hnumber x), if_neg (hnumber y)]
  exact Exact.max_eq x |y|

/-- The maximum norm is the least bound on zero and the magnitudes of the entries. -/
theorem normInf_le_iff_abs {c : K} : a.normInf ≤ c ↔ 0 ≤ c ∧ ∀ i, |a.get i| ≤ c := by
  have fold (xs : List K) (acc : K) : xs.foldl maxAbs acc ≤ c ↔ acc ≤ c ∧ ∀ x ∈ xs, |x| ≤ c := by
    induction xs generalizing acc with
    | nil => simp
    | cons x xs ih =>
      rw [List.foldl_cons, ih, maxAbs_eq, max_le_iff, List.forall_mem_cons, and_assoc]
  rw [normInf, fold, forall_mem_toList]

end Vec

/-! ## Matrices -/

namespace Mat

/-- The entries as a matrix of linear algebra. -/
def toMatrix {α : Type} (a : Mat α m n) : Matrix (Fin m) (Fin n) α :=
  Matrix.of a.entry

@[simp] theorem toMatrix_apply {α : Type} (a : Mat α m n) (i : Fin m) (j : Fin n) :
    a.toMatrix i j = a.entry i j :=
  rfl

theorem toMatrix_transpose {α : Type} (a : Mat α m n) :
    a.transpose.toMatrix = a.toMatrix.transpose := by
  ext i j
  simp

theorem toMatrix_mul (a : Mat K m n) (b : Mat K n k) :
    (a.mul b).toMatrix = a.toMatrix * b.toMatrix := by
  ext i j
  simp [entry_mul, chainSum_finRange, Matrix.mul_apply]

theorem get_mulVec_eq (a : Mat K m n) (v : Vec K n) :
    (a.mulVec v).get = a.toMatrix.mulVec v.get := by
  funext i
  simp [get_mulVec, chainSum_finRange, Matrix.mulVec, dotProduct]

theorem toMatrix_add (a b : Mat K m n) : (a.add b).toMatrix = a.toMatrix + b.toMatrix := by
  ext i j
  simp

theorem toMatrix_scale (a : Mat K m n) (c : K) : (a.scale c).toMatrix = c • a.toMatrix := by
  ext i j
  simp [mul_comm]

theorem toMatrix_identity : (identity n : Mat K n n).toMatrix = 1 := by
  ext i j
  simp [Matrix.one_apply]

/-- A matrix whose determinant is not zero tells all vectors apart. -/
theorem mulVec_injective {a : Mat K n n} (hdet : a.toMatrix.det ≠ 0) :
    Function.Injective a.toMatrix.mulVec :=
  Matrix.mulVec_injective_of_isUnit ((Matrix.isUnit_iff_isUnit_det _).2 hdet.isUnit)

end Mat

end LeastSquares
