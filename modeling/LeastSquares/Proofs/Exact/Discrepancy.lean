/-
LeastSquares.Proofs.Exact.Discrepancy — how far the two readings of an expression can be apart.

Differentiation replaces the exact extrema by smooth ones, so a tape has two values at a point: the
one that comes with the gradient, and the one in plain numbers. Each extremum adds at most `log 2`
to the distance between them. What happens to the distance afterwards depends on the operations
above: sums and differences add the distances of their operands, and the extrema and the change of
sign do not enlarge them. A product would enlarge them by as much as its other factor, so the bound
is for expressions with none (`Lexeme.isPiecewiseLinear`).

* `Approximates.add`, `.neg`, `.sub`, `.smoothMax`, `.smoothMin` — what each operation does to a
  distance.
* `approximates_dual` — the bound for a tree, by induction.
* `abs_dual_sub_value_le` — the bound for a tape, with its instructions counted.
-/
import Mathlib
import LeastSquares.Proofs.Exact.SmoothExtrema
import LeastSquares.Proofs.Expression

namespace LeastSquares

/-! ## One operation -/

namespace Dual

/-- The value of `x` is no further from `a` than `error`. -/
def Approximates (error : ℝ) (x : Dual ℝ) (a : ℝ) : Prop :=
  |x.value - a| ≤ error

namespace Approximates

variable {x y : Dual ℝ} {a b error error' tau : ℝ}

theorem mono (hx : Approximates error x a) (le : error ≤ error') : Approximates error' x a :=
  le_trans hx le

theorem of_eq (h : x.value = a) : Approximates 0 x a := by
  simp [Approximates, h]

theorem add (hx : Approximates error x a) (hy : Approximates error' y b) :
    Approximates (error + error') (x + y) (a + b) := by
  rw [Approximates, value_add, add_sub_add_comm]
  exact (abs_add_le _ _).trans (add_le_add hx hy)

theorem neg (hx : Approximates error x a) : Approximates error (-x) (-a) := by
  rw [Approximates, value_neg, neg_sub_neg, abs_sub_comm]
  exact hx

theorem sub (hx : Approximates error x a) (hy : Approximates error' y b) :
    Approximates (error + error') (x - y) (a - b) := by
  rw [Approximates, value_sub, sub_sub_sub_comm]
  exact (abs_sub _ _).trans (add_le_add hx hy)

/-- The exact maximum passes on the larger of two errors, and the smooth one is close to it. -/
theorem smoothMax (pos : 0 < tau) (hx : Approximates error x a) (hy : Approximates error y b) :
    Approximates (error + tau * Real.log 2) (smoothMax tau x y) (max a b) := by
  obtain ⟨hge, hle⟩ := value_smoothMax_bounds pos x y
  have hsmooth : |(Dual.smoothMax tau x y).value - max x.value y.value| ≤ tau * Real.log 2 := by
    rw [abs_of_nonneg (sub_nonneg.2 hge)]
    exact sub_le_iff_le_add'.2 hle
  have hexact : |max x.value y.value - max a b| ≤ error :=
    (abs_max_sub_max_le_max ..).trans (max_le hx hy)
  calc |(Dual.smoothMax tau x y).value - max a b|
      ≤ |(Dual.smoothMax tau x y).value - max x.value y.value|
          + |max x.value y.value - max a b| := abs_sub_le ..
    _ ≤ error + tau * Real.log 2 := by linarith

theorem smoothMin (pos : 0 < tau) (hx : Approximates error x a) (hy : Approximates error y b) :
    Approximates (error + tau * Real.log 2) (smoothMin tau x y) (min a b) := by
  have hmax := (hx.neg.smoothMax pos hy.neg).neg
  rwa [← smoothMin_eq_neg, max_neg_neg, neg_neg] at hmax

end Approximates

end Dual

open LeastSquares.Dual

namespace Postfix

variable {n : ℕ}

/-! ## Expressions -/

/-- The symbols of the expressions that are linear in pieces: no products, no quotients and no
functions other than the extrema and the change of sign. -/
def Lexeme.isPiecewiseLinear : Lexeme n → Bool
  | .literal _ | .parameter _ => true
  | .operator op => op = .add ∨ op = .sub
  | .call (.elementary f) => f = .neg
  | .call (.extremum _) => true

def Lexeme.isExtremum : Lexeme n → Bool
  | .call (.extremum _) => true
  | _ => false

namespace Expression

/-- The number of extrema in the expression. -/
def extrema : Expression n → ℕ
  | literal _ | parameter _ => 0
  | elementary _ x => x.extrema
  | operator _ left right => left.extrema + right.extrema
  | extremum _ left right => left.extrema + right.extrema + 1

theorem countP_listing (e : Expression n) : e.listing.countP Lexeme.isExtremum = e.extrema := by
  induction e with
  | literal _ => rfl
  | parameter _ => rfl
  | elementary f x ih => simp [listing, extrema, Lexeme.isExtremum, ih]
  | operator op left right ihl ihr => simp [listing, extrema, Lexeme.isExtremum, ihl, ihr]
  | extremum e left right ihl ihr => simp [listing, extrema, Lexeme.isExtremum, ihl, ihr, add_assoc]

/-- Above operands that are within `k * log 2` and `l * log 2` of their exact values, an extremum
has an error of its own, which is another `log 2`. -/
theorem approximates_extremum {x y : Dual ℝ} {a b : ℝ} {k l : ℕ}
    (hx : Approximates (k * Real.log 2) x a) (hy : Approximates (l * Real.log 2) y b)
    (e : Extremum) :
    Approximates ((k + l + 1 : ℕ) * Real.log 2) (e.dual x y) (e.value a b) := by
  have hlog : 0 ≤ Real.log 2 := Real.log_nonneg one_le_two
  have le_left : (k : ℝ) * Real.log 2 ≤ (k + l : ℕ) * Real.log 2 := by gcongr; omega
  have le_right : (l : ℝ) * Real.log 2 ≤ (k + l : ℕ) * Real.log 2 := by gcongr; omega
  rw [Nat.cast_succ, add_mul]
  cases e with
  | max =>
    rw [Extremum.value, Exact.max_eq]
    exact (hx.mono le_left).smoothMax zero_lt_one (hy.mono le_right)
  | min =>
    rw [Extremum.value, Exact.min_eq]
    exact (hx.mono le_left).smoothMin zero_lt_one (hy.mono le_right)

theorem approximates_dual (x : Vec ℝ n) {e : Expression n}
    (linear : ∀ l ∈ e.listing, l.isPiecewiseLinear = true) :
    Approximates (e.extrema * Real.log 2) (e.dual x) (e.value x) := by
  induction e with
  | literal number => exact (Approximates.of_eq rfl).mono (by simp [extrema])
  | parameter index => exact (Approximates.of_eq rfl).mono (by simp [extrema])
  | elementary f e ih =>
    simp only [listing, List.forall_mem_append, List.forall_mem_singleton] at linear
    obtain ⟨below, hf⟩ := linear
    obtain rfl : f = .neg := by simpa [Lexeme.isPiecewiseLinear] using hf
    exact (ih below).neg
  | operator op left right ihl ihr =>
    simp only [listing, List.forall_mem_append, List.forall_mem_singleton] at linear
    obtain ⟨⟨hl, hr⟩, hop⟩ := linear
    rw [extrema, Nat.cast_add, add_mul]
    -- the other operators are excluded by the hypothesis
    obtain rfl | rfl : op = .add ∨ op = .sub := by simpa [Lexeme.isPiecewiseLinear] using hop
    · exact (ihl hl).add (ihr hr)
    · exact (ihl hl).sub (ihr hr)
  | extremum e left right ihl ihr =>
    simp only [listing, List.forall_mem_append, List.forall_mem_singleton] at linear
    obtain ⟨⟨hl, hr⟩, -⟩ := linear
    rw [dual_extremum, value_extremum]
    exact approximates_extremum (ihl hl) (ihr hr) e

end Expression

/-! ## Tapes -/

namespace Tape

variable {params : List String}

/-- In exact arithmetic, the two values of a tape that has no products, quotients or functions other
than the extrema and the change of sign differ by at most `log 2` for each extremum in its code. -/
theorem abs_dual_sub_value_le (t : Tape params) (x : Vec ℝ params.length)
    (linear : ∀ i ∈ t.code, i.lexeme.isPiecewiseLinear = true) :
    |(t.dual x).value - t.value x|
      ≤ t.code.countP (fun i => i.lexeme.isExtremum) * Real.log 2 := by
  have hlinear : ∀ l ∈ t.tree.listing, l.isPiecewiseLinear = true := by
    rwa [listing_tree, List.forall_mem_map]
  have hcount : t.tree.extrema = t.code.countP (fun i => i.lexeme.isExtremum) := by
    rw [← Expression.countP_listing, listing_tree, List.countP_map]
    rfl
  have happrox := Expression.approximates_dual x hlinear
  rwa [← dual_tree, ← value_tree, hcount] at happrox

/-- The change of sign above the maximum of a parameter with itself: one extremum, and the bound is
attained. -/
theorem abs_dual_sub_value_of_max_self :
    let t : Tape ["x"] := ⟨[.parameter "x" 0, .parameter "x" 0, .call (.extremum .max),
      .call (.elementary .neg)], rfl⟩
    let x : Vec ℝ 1 := #v[3]
    (∀ i ∈ t.code, i.lexeme.isPiecewiseLinear = true)
      ∧ |(t.dual x).value - t.value x| ≤ 1 * Real.log 2
      ∧ |(t.dual x).value - t.value x| = Real.log 2 := by
  intro t x
  have linear : ∀ i ∈ t.code, i.lexeme.isPiecewiseLinear = true := by decide
  have hle : |(t.dual x).value - t.value x| ≤ 1 * Real.log 2 := by
    have hbound := t.abs_dual_sub_value_le x linear
    rwa [show t.code.countP (fun i => i.lexeme.isExtremum) = 1 from rfl, Nat.cast_one] at hbound
  have hdual : (t.dual x).value = -(3 + 1 * Real.log 2) :=
    congrArg Neg.neg (value_smoothMax_self one_ne_zero (.ofVariable 3 0))
  have hvalue : t.value x = -3 :=
    congrArg Neg.neg ((Exact.max_eq (K := ℝ) 3 3).trans (max_self 3))
  refine ⟨linear, hle, ?_⟩
  rw [hdual, hvalue, show -(3 + 1 * Real.log 2) - -3 = -Real.log 2 by ring, abs_neg,
    abs_of_nonneg (Real.log_nonneg one_le_two)]

end Tape

end Postfix

end LeastSquares
