/-
LeastSquares.Proofs.Objective — the objective of a problem, and what a problem is asked.

A solver sees the residuals of a point in two ways, with the Jacobian and alone, and a problem may
compute the two differently. So there are two sums of squares (`Problem.error`,
`Problem.plainError`), and they are the same for a problem that is `Consistent`. A sum of squares
is never negative, and it is a number wherever all residuals are numbers (`Vec.isNaN_normSq`).
-/
import LeastSquares.Linear.Sized
import LeastSquares.Problem.LinearModel
import LeastSquares.Proofs.Ordered

namespace LeastSquares

/-! ## Sums of squares -/

section Sums

variable {K : Type} [Scalar K] {n : Nat}

/-- A list has the same sum of squares as the vector that it lists. -/
theorem Sized.normSq_toList (v : Vec K n) : Sized.normSq v.toList = v.normSq := by
  simp [Sized.normSq, Sized.vec, Vec.normSq, Vec.dot]

variable [OrderedScalar K]

theorem zero_le_zero : (0 : K) ≤ 0 :=
  OrderedScalar.le_refl OrderedScalar.isNaN_zero

theorem foldl_add_nonneg {xs : List K} (hxs : ∀ x ∈ xs, 0 ≤ x) {a : K} (ha : 0 ≤ a) :
    0 ≤ xs.foldl (fun acc p => acc + p) a := by
  induction xs generalizing a with
  | nil => exact ha
  | cons x xs ih =>
    have hx : 0 ≤ x := hxs x List.mem_cons_self
    exact ih (fun y hy => hxs y (List.mem_cons_of_mem _ hy)) (OrderedScalar.add_nonneg ha hx)

theorem laneSum_nonneg (xs : List K) (hxs : ∀ x ∈ xs, 0 ≤ x) (s₀ s₁ s₂ s₃ s₄ s₅ s₆ s₇ : K)
    (h₀ : 0 ≤ s₀) (h₁ : 0 ≤ s₁) (h₂ : 0 ≤ s₂) (h₃ : 0 ≤ s₃) (h₄ : 0 ≤ s₄) (h₅ : 0 ≤ s₅)
    (h₆ : 0 ≤ s₆) (h₇ : 0 ≤ s₇) : 0 ≤ laneSum s₀ s₁ s₂ s₃ s₄ s₅ s₆ s₇ xs := by
  open OrderedScalar in
  fun_induction laneSum s₀ s₁ s₂ s₃ s₄ s₅ s₆ s₇ xs with
  | case1 s₀ s₁ s₂ s₃ s₄ s₅ s₆ s₇ p₀ p₁ p₂ p₃ p₄ p₅ p₆ p₇ rest ih =>
    simp only [List.mem_cons, forall_eq_or_imp] at hxs
    obtain ⟨g₀, g₁, g₂, g₃, g₄, g₅, g₆, g₇, hrest⟩ := hxs
    exact ih hrest (add_nonneg h₀ g₀) (add_nonneg h₁ g₁) (add_nonneg h₂ g₂) (add_nonneg h₃ g₃)
      (add_nonneg h₄ g₄) (add_nonneg h₅ g₅) (add_nonneg h₆ g₆) (add_nonneg h₇ g₇)
  | case2 s₀ s₁ s₂ s₃ s₄ s₅ s₆ s₇ rest _ =>
    exact foldl_add_nonneg hxs (add_nonneg (add_nonneg (add_nonneg (add_nonneg zero_le_zero
      (add_nonneg h₀ h₄)) (add_nonneg h₁ h₅)) (add_nonneg h₂ h₆)) (add_nonneg h₃ h₇))

/-- The sum of the squares of numbers is a number. -/
theorem Vec.isNaN_normSq {v : Vec K n} (h : ∀ x ∈ v.toList, Scalar.isNaN x = false) :
    Scalar.isNaN v.normSq = false := by
  have hsquares : ∀ y ∈ List.zipWith (fun x y => x * y) v.toList v.toList, 0 ≤ y := by
    intro y hy
    rw [List.zipWith_self] at hy
    obtain ⟨x, hx, rfl⟩ := List.mem_map.1 hy
    exact OrderedScalar.mul_self_nonneg (h x hx)
  have hsum : 0 ≤ v.normSq := laneSum_nonneg _ hsquares _ _ _ _ _ _ _ _ zero_le_zero zero_le_zero
    zero_le_zero zero_le_zero zero_le_zero zero_le_zero zero_le_zero zero_le_zero
  exact (OrderedScalar.le_iff.1 hsum).2.1

theorem Vec.normSq_empty {v : Vec K n} (h : n = 0) : v.normSq = 0 := by
  subst h
  have hnil : v.toList = [] := List.eq_nil_of_length_eq_zero v.length_toList
  simp only [normSq, dot, hnil, List.zipWith_nil_left, laneSum, List.foldl_nil,
    OrderedScalar.zero_add_zero]

end Sums

/-! ## Requests -/

/-- The points at which residuals and Jacobian were asked for. -/
def iterates {K : Type} {n : Nat} (requests : Array (Request K n)) : List (Vec K n) :=
  requests.toList.filterMap fun
    | .evaluation x => some x
    | .residuals _ => none

section Iterates

variable {K : Type} {n : Nat} (requests : Array (Request K n)) (x : Vec K n)

@[simp] theorem iterates_push_evaluation :
    iterates (requests.push (.evaluation x)) = iterates requests ++ [x] := by
  simp [iterates]

@[simp] theorem iterates_push_residuals :
    iterates (requests.push (.residuals x)) = iterates requests := by
  simp [iterates]

end Iterates

/-! ## Problems -/

namespace Problem

variable {K : Type} {n : Nat}

/-- The residuals are the same, whether they are asked for alone or with the Jacobian. -/
def Consistent (p : Problem K n) : Prop :=
  ∀ x, p.residuals x = (p.evaluate x).residuals.toList

/-- `q` answers all these requests as `p` does. -/
def AgreesOn (p q : Problem K n) (requests : List (Request K n)) : Prop :=
  (∀ x, .evaluation x ∈ requests → q.evaluate x = p.evaluate x)
    ∧ ∀ x, .residuals x ∈ requests → q.residuals x = p.residuals x

variable {p q : Problem K n} {requests more : List (Request K n)}

theorem AgreesOn.mono (h : p.AgreesOn q more) (hsub : requests ⊆ more) : p.AgreesOn q requests :=
  ⟨fun x hx => h.1 x (hsub hx), fun x hx => h.2 x (hsub hx)⟩

variable [Scalar K]

/-- The sum of the squares of the residuals that come with the Jacobian. -/
def error (p : Problem K n) (x : Vec K n) : K :=
  (p.evaluate x).residuals.normSq

/-- The sum of the squares of the residuals that are asked for alone. -/
def plainError (p : Problem K n) (x : Vec K n) : K :=
  Sized.normSq (p.residuals x)

theorem Consistent.plainError_eq (h : p.Consistent) (x : Vec K n) : p.plainError x = p.error x := by
  rw [plainError, h x, Sized.normSq_toList, error]

end Problem

end LeastSquares
