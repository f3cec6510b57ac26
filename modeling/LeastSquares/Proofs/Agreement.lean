/-
LeastSquares.Proofs.Agreement — where the two evaluations of an expression return the same number.

They differ in two places only: the extrema are smooth in dual numbers and exact in plain ones, and
a divisor that equals zero is replaced by another number in each. An expression without extrema, at
a point where no divisor equals zero, therefore has one value. The values need not be finite, or be
numbers at all.
-/
import LeastSquares.Problem.Constraints
import LeastSquares.Proofs.Double
import LeastSquares.Proofs.Dual

namespace LeastSquares

open Postfix

variable {K : Type} [Scalar K] {n : Nat}

namespace Postfix.Expression

/-- No division has a right operand that equals zero, where the expression is evaluated in plain
numbers. -/
def NoZeroDivisor (x : Vec K n) : Expression n → Prop
  | literal _ => True
  | parameter _ => True
  | elementary _ e => e.NoZeroDivisor x
  | operator op left right => left.NoZeroDivisor x ∧ right.NoZeroDivisor x
    ∧ (op = .div → (right.value x == 0) = false)
  | extremum _ left right => left.NoZeroDivisor x ∧ right.NoZeroDivisor x

/-- Without extrema and without divisors that equal zero the two values are the same. -/
theorem value_dual (comm : ∀ a b : K, a * b = b * a) {x : Vec K n} {e : Expression n}
    (noExtremum : ∀ m, .call (.extremum m) ∉ e.listing) (noZero : e.NoZeroDivisor x) :
    (e.dual x).value = e.value x := by
  induction e with
  | literal _ => rfl
  | parameter _ => rfl
  | elementary f e ih =>
    have inner : ∀ m, .call (.extremum m) ∉ e.listing := fun m h =>
      noExtremum m (by simp [listing, h])
    rw [dual, Dual.value_elementary, ih inner noZero, value]
  | operator op left right ihl ihr =>
    obtain ⟨noZeroLeft, noZeroRight, divisor⟩ := noZero
    have hl : (left.dual x).value = left.value x :=
      ihl (fun m h => noExtremum m (by simp [listing, h])) noZeroLeft
    have hr : (right.dual x).value = right.value x :=
      ihr (fun m h => noExtremum m (by simp [listing, h])) noZeroRight
    cases op with
    | add => rw [dual, Dual.value_add, hl, hr, value]
    | sub => rw [dual, Dual.value_sub, hl, hr, value]
    | mul => rw [dual, Dual.value_mul comm, hl, hr, value]
    | div =>
      have hne := divisor rfl
      rw [dual, Dual.value_div, hl, hr, value, Dual.quotient_of_ne_zero hne]
      simp [hne]
    | pow => rw [dual, Dual.value_pow, hl, hr, value]
  | extremum m left right _ _ => exact absurd (by simp [listing]) (noExtremum m)

end Postfix.Expression

/-- The instructions that compute an extremum are the nodes of the tree that are one. -/
theorem Postfix.Tape.extremum_mem_listing {params : List String} {t : Tape params} {m : Extremum} :
    .call (.extremum m) ∈ t.tree.listing ↔ .call (.extremum m) ∈ t.code := by
  rw [t.listing_tree, List.mem_map]
  constructor
  · rintro ⟨i, hi, h⟩
    cases i <;> simp_all [Instruction.lexeme]
  · intro h
    exact ⟨_, h, rfl⟩

omit [Scalar K] in
theorem Evaluation.toList_residuals_ofRows (rows : List (K × Vec K n)) :
    (ofRows rows).residuals.toList = rows.map Prod.fst := by
  refine List.ext_get (by simp [ofRows]) fun i h _ => ?_
  simp [ofRows]

/-- A tape without extrema has one value in IEEE doubles, wherever no divisor of its plain
evaluation equals zero. So the residuals of constraints made of such tapes are the same, whether
they are asked for alone or together with the Jacobian. -/
theorem evaluations_agree :
    (∀ (params : List String) (t : Tape params) (x : Vec Float params.length),
      (∀ m, .call (.extremum m) ∉ t.code) → t.tree.NoZeroDivisor x →
        (t.dual x).value = t.value x)
    ∧ ∀ (s : Constraints) (x : Vec Float s.params.length),
      (∀ t ∈ s.tapes, (∀ m, .call (.extremum m) ∉ t.code) ∧ t.tree.NoZeroDivisor x) →
        (s.problem.evaluate x).residuals.toList = s.problem.residuals x := by
  have tape (params : List String) (t : Tape params) (x : Vec Float params.length)
      (noExtremum : ∀ m, .call (.extremum m) ∉ t.code) (noZero : t.tree.NoZeroDivisor x) :
      (t.dual x).value = t.value x := by
    rw [t.dual_tree, t.value_tree]
    exact Expression.value_dual Double.mul_comm
      (fun m h => noExtremum m (Tape.extremum_mem_listing.1 h)) noZero
  refine ⟨tape, fun s x h => ?_⟩
  rw [Constraints.problem, Evaluation.toList_residuals_ofRows, List.map_map]
  exact List.map_congr_left fun t ht => tape _ t x (h t ht).1 (h t ht).2

/-- Twice the square root of minus one, divided by infinity: the value is no number, and it is the
same in both evaluations. -/
theorem evaluations_agree_without_number :
    let t : Tape ["x", "y"] := ⟨[.literal "2" ⟨false, 2, 0⟩, .parameter "x" 0,
      .call (.elementary .sqrt), .operator .mul, .parameter "y" 1, .operator .div], rfl⟩
    let x : Vec Float 2 := #v[-1.0, 1.0 / 0.0]
    (∀ m, .call (.extremum m) ∉ t.code) ∧ t.tree.NoZeroDivisor x
      ∧ (t.value x).isNaN = true ∧ (t.dual x).value = t.value x := by
  intro t x
  have noExtremum : ∀ m, .call (.extremum m) ∉ t.code := by
    intro m
    simp [t]
  have noZero : t.tree.NoZeroDivisor x :=
    ⟨⟨trivial, trivial, nofun⟩, trivial, fun _ => by decide +kernel⟩
  exact ⟨noExtremum, noZero, by decide +kernel, evaluations_agree.1 _ t x noExtremum noZero⟩

end LeastSquares
