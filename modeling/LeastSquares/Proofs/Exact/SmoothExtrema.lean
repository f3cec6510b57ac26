/-
LeastSquares.Proofs.Exact.SmoothExtrema — how far the smooth extrema are from the exact ones.

The smooth maximum of two numbers is the logarithm of the sum of their exponentials, at temperature
`tau`. Both are divided by the temperature and shifted by the larger one before the exponential
function sees them. So one of its two arguments is zero and the other is not positive, however large
the numbers are, and the sum is between one and two (`shifted_sub_max`). That the exponential
function is used nowhere else is said by putting another function in its place (`Exact.withExp`):
what comes out depends on the values of that function at the two arguments alone.

The bounds of the maximum, and the order of the two weights in the gradient, are read off that form.
Those of the minimum need no computation of their own, because the minimum is the maximum of the
negated operands, negated (`smoothMin_eq_neg`).
-/
import Mathlib
import LeastSquares.Proofs.Exact.DualNumbers
import LeastSquares.Proofs.Exact.Linear

namespace LeastSquares

open LeastSquares.Dual

/-! ## The exponentials -/

/-- Exact arithmetic with the function `e` in the place of the exponential function. -/
@[reducible]
noncomputable def Exact.withExp (e : ℝ → ℝ) : Scalar ℝ :=
  { (inferInstance : Scalar ℝ) with exp := e }

namespace Dual

theorem logSumExp_withExp (e : ℝ → ℝ) (a b : ℝ) :
    @LogSumExp.of ℝ (Exact.withExp e) a b =
      ⟨max a b + Real.log (e (a - max a b) + e (b - max a b)),
        e (a - max a b) / (e (a - max a b) + e (b - max a b)),
        e (b - max a b) / (e (a - max a b) + e (b - max a b))⟩ := by
  rw [← Exact.max_eq (K := ℝ) a b]
  rfl

/-- Two arguments of the exponential function that are not positive, and one of them zero. -/
structure Shifted (s t : ℝ) : Prop where
  first_nonpos : s ≤ 0
  second_nonpos : t ≤ 0
  zero : s = 0 ∨ t = 0
  one_le_sum : 1 ≤ Real.exp s + Real.exp t
  sum_le_two : Real.exp s + Real.exp t ≤ 2

theorem shifted_of_nonpos {s t : ℝ} (hs : s ≤ 0) (ht : t ≤ 0) (zero : s = 0 ∨ t = 0) :
    Shifted s t := by
  have hs1 : Real.exp s ≤ 1 := Real.exp_le_one_iff.2 hs
  have ht1 : Real.exp t ≤ 1 := Real.exp_le_one_iff.2 ht
  have hs0 := Real.exp_pos s
  have ht0 := Real.exp_pos t
  have hone : Real.exp s = 1 ∨ Real.exp t = 1 := by
    simpa only [Real.exp_eq_one_iff] using zero
  refine ⟨hs, ht, zero, ?_, ?_⟩
  · rcases hone with h | h <;> linarith
  · linarith

/-- Subtracting the larger of two numbers from both leaves arguments of that kind. -/
theorem shifted_sub_max (a b : ℝ) : Shifted (a - max a b) (b - max a b) := by
  refine shifted_of_nonpos (sub_nonpos.2 (le_max_left a b)) (sub_nonpos.2 (le_max_right a b)) ?_
  rcases max_choice a b with h | h
  · exact .inl (sub_eq_zero.2 h.symm)
  · exact .inr (sub_eq_zero.2 h.symm)

/-- The blend of `x` and `y` that belongs to the exponentials `p` and `q`. -/
noncomputable def blendOf (x y : Dual ℝ) (scale shift p q : ℝ) : Dual ℝ :=
  blend x y (scale * (shift + Real.log (p + q))) (p / (p + q)) (q / (p + q))

/-- `f` blends `x` and `y`, and has no use for the exponential function but at two arguments. As
neither of them is positive and one is zero, the exponentials add up to between one and two. -/
def ShiftedExponentials (x y : Dual ℝ) (f : (ℝ → ℝ) → Dual ℝ) : Prop :=
  ∃ scale shift s t : ℝ, Shifted s t ∧ ∀ e, f e = blendOf x y scale shift (e s) (e t)

variable {n : ℕ} {x y : Dual ℝ} {tau : ℝ}

theorem smoothMax_withExp (e : ℝ → ℝ) (tau : ℝ) (x y : Dual ℝ) :
    @smoothMax ℝ (Exact.withExp e) tau x y =
      blendOf x y tau (max (x.value / tau) (y.value / tau))
        (e (x.value / tau - max (x.value / tau) (y.value / tau)))
        (e (y.value / tau - max (x.value / tau) (y.value / tau))) :=
  congrArg (fun s : LogSumExp ℝ => blend x y (tau * s.total) s.first s.second)
    (logSumExp_withExp e (x.value / tau) (y.value / tau))

theorem smoothMin_withExp (e : ℝ → ℝ) (tau : ℝ) (x y : Dual ℝ) :
    @smoothMin ℝ (Exact.withExp e) tau x y =
      blendOf x y (-tau) (max (-x.value / tau) (-y.value / tau))
        (e (-x.value / tau - max (-x.value / tau) (-y.value / tau)))
        (e (-y.value / tau - max (-x.value / tau) (-y.value / tau))) :=
  congrArg (fun s : LogSumExp ℝ => blend x y (-tau * s.total) s.first s.second)
    (logSumExp_withExp e (-x.value / tau) (-y.value / tau))

theorem shiftedExponentials_of_blendOf {f : (ℝ → ℝ) → Dual ℝ} {scale a b : ℝ}
    (h : ∀ e, f e = blendOf x y scale (max a b) (e (a - max a b)) (e (b - max a b))) :
    ShiftedExponentials x y f :=
  ⟨scale, max a b, _, _, shifted_sub_max a b, h⟩

/-! ## Symmetry -/

theorem blend_swap (x y : Dual ℝ) (val wx wy : ℝ) : blend x y val wx wy = blend y x val wy wx := by
  cases x with
  | constant a => cases y <;> rfl
  | varying u du =>
    cases y with
    | constant b => rfl
    | varying v dv =>
      rw [blend, blend, List.zipWith_comm]
      simp only [add_comm]

theorem neg_blend (x y : Dual ℝ) (val wx wy : ℝ) :
    -blend (-x) (-y) val wx wy = blend x y (-val) wx wy := by
  have neg_constant (a : ℝ) : -constant a = constant (-a) := rfl
  have neg_varying (u : ℝ) (du : List ℝ) : -varying u du = varying (-u) (du.map fun d => -d) := rfl
  cases x <;> cases y <;>
    simp [neg_constant, neg_varying, blend, List.map_zipWith, List.zipWith_map_left,
      List.zipWith_map_right, Function.comp_def, add_comm]

theorem smoothMax_eq_blendOf (tau : ℝ) (x y : Dual ℝ) :
    smoothMax tau x y =
      blendOf x y tau (max (x.value / tau) (y.value / tau))
        (Real.exp (x.value / tau - max (x.value / tau) (y.value / tau)))
        (Real.exp (y.value / tau - max (x.value / tau) (y.value / tau))) :=
  smoothMax_withExp Real.exp tau x y

theorem smoothMax_comm (tau : ℝ) (x y : Dual ℝ) : smoothMax tau x y = smoothMax tau y x := by
  rw [smoothMax_eq_blendOf, smoothMax_eq_blendOf, blendOf, blendOf, blend_swap,
    max_comm (x.value / tau), add_comm (Real.exp (x.value / tau - _))]

/-- The minimum is the maximum of the negated operands, negated. -/
theorem smoothMin_eq_neg (tau : ℝ) (x y : Dual ℝ) :
    smoothMin tau x y = -smoothMax tau (-x) (-y) := by
  rw [smoothMax, neg_blend, value_neg, value_neg, ← neg_mul]
  rfl

theorem smoothMin_comm (tau : ℝ) (x y : Dual ℝ) : smoothMin tau x y = smoothMin tau y x := by
  rw [smoothMin_eq_neg, smoothMin_eq_neg, smoothMax_comm]

/-! ## Bounds -/

theorem value_smoothMax_bounds (pos : 0 < tau) (x y : Dual ℝ) :
    max x.value y.value ≤ (smoothMax tau x y).value
      ∧ (smoothMax tau x y).value ≤ max x.value y.value + tau * Real.log 2 := by
  obtain ⟨-, -, -, hge, hle⟩ := shifted_sub_max (x.value / tau) (y.value / tau)
  have hlog_nonneg := mul_nonneg pos.le (Real.log_nonneg hge)
  have hlog_le := mul_le_mul_of_nonneg_left
    (Real.log_le_log (zero_lt_one.trans_le hge) hle) pos.le
  have hshift : tau * max (x.value / tau) (y.value / tau) = max x.value y.value := by
    rw [mul_max_of_nonneg _ _ pos.le, mul_div_cancel₀ _ pos.ne', mul_div_cancel₀ _ pos.ne']
  rw [smoothMax_eq_blendOf, blendOf, value_blend, mul_add, hshift]
  exact ⟨le_add_of_nonneg_right hlog_nonneg, add_le_add_right hlog_le _⟩

theorem value_smoothMin_bounds (pos : 0 < tau) (x y : Dual ℝ) :
    min x.value y.value - tau * Real.log 2 ≤ (smoothMin tau x y).value
      ∧ (smoothMin tau x y).value ≤ min x.value y.value := by
  have hmax := value_smoothMax_bounds pos (-x) (-y)
  rw [value_neg, value_neg, max_neg_neg] at hmax
  rw [smoothMin_eq_neg, value_neg]
  constructor <;> linarith

/-- The upper bound is attained where the operands are equal. -/
theorem value_smoothMax_self (ne : tau ≠ 0) (x : Dual ℝ) :
    (smoothMax tau x x).value = x.value + tau * Real.log 2 := by
  rw [smoothMax_eq_blendOf, blendOf, value_blend, max_self, sub_self, Real.exp_zero,
    one_add_one_eq_two, mul_add, mul_div_cancel₀ _ ne]

/-! ## Weights -/

/-- The gradient of `z` is that of `x` and that of `y` with positive weights that add up to one. The
larger weight is that of the operand the value of which beats the other. -/
def IsBlend (n : ℕ) (x y z : Dual ℝ) (beats : ℝ → ℝ → Prop) : Prop :=
  ∃ wx wy : ℝ, 0 < wx ∧ 0 < wy ∧ wx + wy = 1
    ∧ (wy < wx ↔ beats x.value y.value) ∧ (wx < wy ↔ beats y.value x.value)
    ∧ z.Fits n ∧ ∀ j : Fin n, z.entry j = wx * x.entry j + wy * y.entry j

theorem Fits.blend (hx : x.Fits n) (hy : y.Fits n) (val wx wy : ℝ) :
    (blend x y val wx wy).Fits n := by
  rw [blend_eq_combine]
  exact hx.combine hy ..

theorem entry_blend (hx : x.Fits n) (hy : y.Fits n) (val wx wy : ℝ) (j : Fin n) :
    (blend x y val wx wy).entry j = wx * x.entry j + wy * y.entry j := by
  rw [blend_eq_combine]
  exact entry_combine hx hy _ (fun p => by ring) (fun q => by ring) (by ring) j

theorem share_lt_iff {s t sum : ℝ} (pos : 0 < sum) :
    Real.exp s / sum < Real.exp t / sum ↔ s < t := by
  rw [div_lt_div_iff_of_pos_right pos, Real.exp_lt_exp]

theorem isBlend_smoothMax (pos : 0 < tau) (hx : x.Fits n) (hy : y.Fits n) :
    IsBlend n x y (smoothMax tau x y) (· > ·) := by
  rw [smoothMax_eq_blendOf, blendOf]
  generalize hm : max (x.value / tau) (y.value / tau) = m
  have hsum : 0 < Real.exp (x.value / tau - m) + Real.exp (y.value / tau - m) := by positivity
  refine ⟨_, _, ?_, ?_, ?_, ?_, ?_, hx.blend hy _ _ _, entry_blend hx hy _ _ _⟩
  · positivity
  · positivity
  · rw [← add_div, div_self hsum.ne']
  · rw [share_lt_iff hsum, sub_lt_sub_iff_right, div_lt_div_iff_of_pos_right pos]
  · rw [share_lt_iff hsum, sub_lt_sub_iff_right, div_lt_div_iff_of_pos_right pos]

theorem isBlend_smoothMin (pos : 0 < tau) (hx : x.Fits n) (hy : y.Fits n) :
    IsBlend n x y (smoothMin tau x y) (· < ·) := by
  have hnx : (-x).Fits n := hx.elementary .neg
  have hny : (-y).Fits n := hy.elementary .neg
  obtain ⟨wx, wy, hwx, hwy, hone, hfirst, hsecond, fits, hentry⟩ := isBlend_smoothMax pos hnx hny
  rw [smoothMin_eq_neg]
  refine ⟨wx, wy, hwx, hwy, hone, ?_, ?_, fits.elementary .neg, fun j => ?_⟩
  · simpa using hfirst
  · simpa using hsecond
  · rw [entry_neg fits, hentry, entry_neg hx, entry_neg hy]
    ring

/-! ## All together -/

/-- In exact arithmetic and at a positive temperature, the smooth extrema are within
`tau * log 2` of the exact ones, on the outer side of them; they do not depend on the order of the
operands, and are reflections of each other; the gradient is a weighted mean of the gradients, in
which the operand that wins weighs more; and the exponential function is never applied to a positive
number. -/
theorem smooth_extrema (pos : 0 < tau) (hx : x.Fits n) (hy : y.Fits n) :
    (max x.value y.value ≤ (smoothMax tau x y).value
      ∧ (smoothMax tau x y).value ≤ max x.value y.value + tau * Real.log 2)
    ∧ (min x.value y.value - tau * Real.log 2 ≤ (smoothMin tau x y).value
      ∧ (smoothMin tau x y).value ≤ min x.value y.value)
    ∧ smoothMax tau x y = smoothMax tau y x
    ∧ smoothMin tau x y = smoothMin tau y x
    ∧ smoothMin tau x y = -smoothMax tau (-x) (-y)
    ∧ IsBlend n x y (smoothMax tau x y) (· > ·)
    ∧ IsBlend n x y (smoothMin tau x y) (· < ·)
    ∧ ShiftedExponentials x y (fun e => @smoothMax ℝ (Exact.withExp e) tau x y)
    ∧ ShiftedExponentials x y (fun e => @smoothMin ℝ (Exact.withExp e) tau x y) :=
  ⟨value_smoothMax_bounds pos x y, value_smoothMin_bounds pos x y, smoothMax_comm tau x y,
    smoothMin_comm tau x y, smoothMin_eq_neg tau x y, isBlend_smoothMax pos hx hy,
    isBlend_smoothMin pos hx hy,
    shiftedExponentials_of_blendOf fun e => smoothMax_withExp e tau x y,
    shiftedExponentials_of_blendOf fun e => smoothMin_withExp e tau x y⟩

/-- A low temperature, and two operands that are far from each other. -/
theorem smooth_extrema_far_apart :
    let x : Dual ℝ := varying 1000 [1, 0]
    let y : Dual ℝ := varying (-999) [0, 1]
    (0 : ℝ) < 1 / 100 ∧ x.Fits 2 ∧ y.Fits 2
      ∧ 1000 ≤ (smoothMax (1 / 100) x y).value
      ∧ (smoothMin (1 / 100) x y).value ≤ -999
      ∧ IsBlend 2 x y (smoothMax (1 / 100) x y) (· > ·)
      ∧ ShiftedExponentials x y (fun e => @smoothMax ℝ (Exact.withExp e) (1 / 100) x y) := by
  intro x y
  have pos : (0 : ℝ) < 1 / 100 := by norm_num
  have hx : x.Fits 2 := rfl
  have hy : y.Fits 2 := rfl
  obtain ⟨⟨hmax, -⟩, ⟨-, hmin⟩, -, -, -, blend, -, shifted, -⟩ := smooth_extrema pos hx hy
  exact ⟨pos, hx, hy, (le_max_left _ _).trans hmax, hmin.trans (min_le_right _ _), blend, shifted⟩

end Dual

end LeastSquares
