/-
LeastSquares.Proofs.Exact.Systems — systems of equations on plain data, over an ordered field.

A matrix that carries its shape along and a list of numbers go through elimination as a matrix and a
vector of fixed shape do. So what elimination computes is told by Mathlib's determinant and product:
there is no solution exactly if the matrix is singular, and otherwise the answer is the only list
that multiplication takes to the right-hand side (`Sized.solution_unless_singular`). Multiplication
refuses lists of another length, so nothing else has to be said about them.
-/
import Mathlib
import LeastSquares.Proofs.Checked.Linear
import LeastSquares.Proofs.Exact.Elimination

namespace LeastSquares

section Field

variable {K : Type} [Field K] [LinearOrder K] [ElementaryFunctions K] {m n : Nat}

attribute [local instance] Scalar.ofField

/-- The lists that multiplication takes to `b` are the solutions of the system. -/
theorem Sized.mulVec_eq_ok_iff (a : Mat K m n) (b : Vec K m) (y : List K) :
    mulVec ⟨m, n, a⟩ y = .ok b.toList
      ↔ ∃ x : Vec K n, y = x.toList ∧ a.toMatrix.mulVec x.get = b.get := by
  constructor
  · intro hproduct
    by_cases hlength : y.length = n
    · obtain ⟨x, rfl⟩ : ∃ x : Vec K n, y = x.toList := ⟨⟨y.toArray, by simpa using hlength⟩, rfl⟩
      rw [mulVec_mk] at hproduct
      have hvector : a.mulVec x = b := Vector.toList_inj.1 (Except.ok.inj hproduct)
      exact ⟨x, rfl, by rw [← Mat.get_mulVec_eq, hvector]⟩
    · rw [mulVec, dif_neg hlength] at hproduct
      contradiction
  · rintro ⟨x, rfl, hsolves⟩
    rw [← Mat.get_mulVec_eq] at hsolves
    rw [mulVec_mk, Vec.ext_get (congrFun hsolves)]

variable [IsStrictOrderedRing K]

/-- Elimination answers that there is no solution exactly for the singular matrices. For all others
it finds the solution, which is the only list that multiplication takes to the right-hand side. -/
theorem Sized.solution_unless_singular (a : Mat K n n) (b : Vec K n) :
    (solve? ⟨n, n, a⟩ b.toList = .ok none ↔ a.toMatrix.det = 0)
      ∧ (a.toMatrix.det ≠ 0 → ∃ x : Vec K n, solve? ⟨n, n, a⟩ b.toList = .ok (some x.toList)
        ∧ a.toMatrix.mulVec x.get = b.get
        ∧ ∀ y : List K, mulVec ⟨n, n, a⟩ y = .ok b.toList ↔ y = x.toList) := by
  rw [solve?_mk]
  constructor
  · rw [Except.ok.injEq, Option.map_eq_none_iff]
    exact a.solve?_eq_none_iff b
  · intro hdet
    obtain ⟨x, hx⟩ : ∃ x, a.solve? b = some x :=
      Option.ne_none_iff_exists'.1 fun hnone => hdet ((a.solve?_eq_none_iff b).1 hnone)
    have hsolution := Mat.mulVec_eq_iff_of_solve? hx
    refine ⟨x, by rw [hx, Option.map_some], (hsolution _).2 rfl, fun y => ?_⟩
    rw [mulVec_eq_ok_iff]
    constructor
    · rintro ⟨z, rfl, hz⟩
      rw [Vec.ext_get (congrFun ((hsolution _).1 hz))]
    · rintro rfl
      exact ⟨x, rfl, (hsolution _).2 rfl⟩

/-- The first column of one system has no pivot. In the other one, rows change places before each of
the first two columns is eliminated. -/
theorem Sized.solution_unless_singular_real :
    solve? (K := ℝ) ⟨2, 2, #v[#v[0, 1], #v[0, 2]]⟩ [3, 4] = .ok none
      ∧ solve? (K := ℝ) ⟨3, 3, #v[#v[0, 2, 1], #v[1, 1, 0], #v[2, 0, 3]]⟩ [7, 3, 11]
        = .ok (some [1, 2, 3]) := by
  let a : Mat ℝ 2 2 := #v[#v[0, 1], #v[0, 2]]
  let b : Mat ℝ 3 3 := #v[#v[0, 2, 1], #v[1, 1, 0], #v[2, 0, 3]]
  have ha : a.toMatrix = !![0, 1; 0, 2] := by
    ext i j
    fin_cases i <;> fin_cases j <;> rfl
  have hb : b.toMatrix = !![0, 2, 1; 1, 1, 0; 2, 0, 3] := by
    ext i j
    fin_cases i <;> fin_cases j <;> rfl
  have singular : a.toMatrix.det = 0 := by
    rw [ha, Matrix.det_fin_two_of]
    norm_num
  have regular : b.toMatrix.det ≠ 0 := by
    rw [hb]
    simp [Matrix.det_fin_three]
    norm_num
  have product : mulVec ⟨3, 3, b⟩ [1, 2, 3] = .ok [7, 3, 11] := by
    refine (mulVec_eq_ok_iff b #v[7, 3, 11] _).2 ⟨#v[1, 2, 3], rfl, ?_⟩
    rw [hb]
    funext i
    rw [Matrix.mulVec, dotProduct, Fin.sum_univ_three]
    fin_cases i
    · show (0 : ℝ) * 1 + 2 * 2 + 1 * 3 = 7
      norm_num
    · show (1 : ℝ) * 1 + 1 * 2 + 0 * 3 = 3
      norm_num
    · show (2 : ℝ) * 1 + 0 * 2 + 3 * 3 = 11
      norm_num
  refine ⟨(solution_unless_singular a #v[3, 4]).1.2 singular, ?_⟩
  obtain ⟨x, hx, -, unique⟩ := (solution_unless_singular b #v[7, 3, 11]).2 regular
  have hlist : [1, 2, 3] = x.toList := (unique _).1 product
  rw [← hlist] at hx
  exact hx

end Field

end LeastSquares
