/-
LeastSquares.Proofs.Double.Order — the order of doubles is the order of the numbers.

Doubles are compared by sign, exponent and mantissa. In the form that unpacking returns, the one
with the larger exponent has the larger magnitude (`mul_zpow_lt`), so this is the order of the
extended real numbers that they stand for. Only what is no number is apart: it is neither smaller
nor larger than anything (`lt_iff_value`, `le_iff_value`).
-/
import Mathlib
import LeastSquares.Proofs.Double

namespace LeastSquares.Double

open Float.Model Float.Model.UnpackedFloat

/-! ## The numbers that doubles stand for -/

/-- The extended real number that an unpacked double stands for; zero if it is no number. -/
noncomputable def extended : UnpackedFloat → EReal
  | .notANumber => 0
  | .infinity .positive => ⊤
  | .infinity .negative => ⊥
  | .zero _ => 0
  | .finite s m e _ => ((s.apply m * (2 : ℕ) ^ e : ℝ) : EReal)

/-- The form with the powers of the real number two. -/
theorem extended_finite (s : Sign) (m : Nat) (e : Int) (h : 0 < m) :
    extended (.finite s m e h) = ((s.apply m * 2 ^ e : ℝ) : EReal) :=
  rfl

/-- The extended real number that a double stands for; zero if it is no number. -/
noncomputable def value (x : Float) : EReal :=
  extended x.toModel.unpack

/-! ## Comparison -/

/-- Of two doubles in their own form the one with the larger exponent is the larger one. -/
theorem mul_zpow_lt {m₁ m₂ : Nat} {e₁ e₂ : Int} (hm₁ : m₁ < 2 ^ 53)
    (hm₂ : 2 ^ 52 ≤ m₂ ∨ e₂ = -1074) (he₁ : -1074 ≤ e₁) (h : e₁ < e₂) :
    (m₁ : ℝ) * 2 ^ e₁ < m₂ * 2 ^ e₂ := by
  have hlow : (2 : ℝ) ^ (52 : ℤ) ≤ m₂ := by
    exact_mod_cast hm₂.resolve_right (by omega)
  have hhigh : (m₁ : ℝ) < 2 ^ (53 : ℤ) := by exact_mod_cast hm₁
  calc (m₁ : ℝ) * 2 ^ e₁ < 2 ^ (53 : ℤ) * 2 ^ e₁ := by gcongr
    _ = 2 ^ (53 + e₁) := (zpow_add₀ two_ne_zero _ _).symm
    _ ≤ 2 ^ (52 + e₂) := zpow_le_zpow_right₀ one_le_two (by omega)
    _ = 2 ^ (52 : ℤ) * 2 ^ e₂ := zpow_add₀ two_ne_zero _ _
    _ ≤ m₂ * 2 ^ e₂ := by gcongr

/-- Magnitudes are compared by the exponents first and by the mantissas then. -/
theorem compare_magnitude {m₁ m₂ : Nat} {e₁ e₂ : Int} {s₁ s₂ : Sign} {h₁ : 0 < m₁} {h₂ : 0 < m₂}
    (hd₁ : IsDouble (.finite s₁ m₁ e₁ h₁)) (hd₂ : IsDouble (.finite s₂ m₂ e₂ h₂)) :
    (compare e₁ e₂).then (compare m₁ m₂) = compare ((m₁ : ℝ) * 2 ^ e₁) (m₂ * 2 ^ e₂) := by
  obtain ⟨hm₁, hl₁, he₁, -⟩ := hd₁
  obtain ⟨hm₂, hl₂, he₂, -⟩ := hd₂
  rcases lt_trichotomy e₁ e₂ with h | rfl | h
  · rw [compare_lt_iff_lt.2 h, compare_lt_iff_lt.2 (mul_zpow_lt hm₁ hl₂ he₁ h)]
    rfl
  · -- at equal exponents the mantissas decide
    have hpow : (0 : ℝ) < 2 ^ e₁ := by positivity
    rw [compare_eq_iff_eq.2 rfl]
    show compare m₁ m₂ = _
    refine ((compare_iff ..).2 ?_).symm
    have horder := (compare_iff m₁ m₂).1 rfl
    cases hc : compare m₁ m₂ <;> rw [hc] at horder
    · exact mul_lt_mul_of_pos_right (Nat.cast_lt.2 horder) hpow
    · exact congrArg (fun m : Nat => (m : ℝ) * 2 ^ e₁) horder
    · exact mul_lt_mul_of_pos_right (Nat.cast_lt.2 horder) hpow
  · rw [compare_gt_iff_gt.2 h, compare_gt_iff_gt.2 (mul_zpow_lt hm₂ hl₁ he₂ h)]
    rfl

/-- Only zeros have no magnitude. -/
theorem magnitude_pos {m : Nat} (h : 0 < m) (e : Int) : (0 : ℝ) < m * 2 ^ e := by
  have : (0 : ℝ) < m := Nat.cast_pos.2 h
  positivity

theorem extended_positive {m : Nat} {e : Int} (h : 0 < m) :
    extended (.finite .positive m e h) = ((m * 2 ^ e : ℝ) : EReal) := by
  simp [extended, Sign.apply]

theorem extended_negative {m : Nat} {e : Int} (h : 0 < m) :
    extended (.finite .negative m e h) = -((m * 2 ^ e : ℝ) : EReal) := by
  simp [extended, Sign.apply, EReal.coe_mul]

/-- The real numbers keep their order among the extended ones. -/
theorem compare_coe (a b : ℝ) : compare (a : EReal) b = compare a b := by
  rw [← cmp_eq_compare, ← cmp_eq_compare, EReal.coe_strictMono.cmp_map_eq]

/-- Between opposite numbers the order is turned around. -/
theorem compare_neg (a b : EReal) : compare (-a) (-b) = (compare a b).swap := by
  rw [← Std.OrientedCmp.eq_swap, ← cmp_eq_compare, ← cmp_eq_compare]
  exact EReal.neg_strictAnti.cmp_map_eq a b

/-- Doubles are compared as the extended real numbers that they stand for. -/
theorem compare_eq {u v : UnpackedFloat} (hu : IsDouble u) (hv : IsDouble v)
    (hu' : u ≠ .notANumber) (hv' : v ≠ .notANumber) :
    UnpackedFloat.compare u v = some (compare (extended u) (extended v)) := by
  -- signs decide unless they are the same, and then magnitudes do, in turned order if negative
  have lt {a b : EReal} (h : a < b) : compare a b = .lt := compare_lt_iff_lt.2 h
  have gt {a b : EReal} (h : b < a) : compare a b = .gt := compare_gt_iff_gt.2 h
  have pos {m : Nat} (h : 0 < m) (e : Int) : (0 : EReal) < ((m * 2 ^ e : ℝ) : EReal) :=
    EReal.coe_pos.2 (magnitude_pos h e)
  have neg {m : Nat} (h : 0 < m) (e : Int) : -((m * 2 ^ e : ℝ) : EReal) < 0 :=
    EReal.neg_lt_zero.2 (pos h e)
  cases u with
  | notANumber => exact absurd rfl hu'
  | infinity s =>
    cases v with
    | notANumber => exact absurd rfl hv'
    | infinity t => cases s <;> cases t <;> simp [UnpackedFloat.compare, extended, lt, gt] <;> rfl
    | zero t => cases s <;> simp [UnpackedFloat.compare, extended, lt, gt]
    | finite t n f hn => cases s <;> simp [UnpackedFloat.compare, extended, lt, gt, -EReal.coe_mul]
  | zero s =>
    cases v with
    | notANumber => exact absurd rfl hv'
    | infinity t => cases t <;> simp [UnpackedFloat.compare, extended, lt, gt]
    | zero t => simp [UnpackedFloat.compare, extended]
    | finite t n f hn =>
      cases t
      · rw [extended_negative, extended, gt (neg hn f)]
        rfl
      · rw [extended_positive, extended, lt (pos hn f)]
        rfl
  | finite s m e hm =>
    cases v with
    | notANumber => exact absurd rfl hv'
    | infinity t => cases t <;> simp [UnpackedFloat.compare, extended, lt, gt, -EReal.coe_mul]
    | zero t =>
      cases s
      · rw [extended_negative, extended, lt (neg hm e)]
        rfl
      · rw [extended_positive, extended, gt (pos hm e)]
        rfl
    | finite t n f hn =>
      cases s <;> cases t
      · rw [extended_negative, extended_negative, UnpackedFloat.compare, compare_magnitude hu hv,
          compare_neg, compare_coe]
      · rw [extended_negative, extended_positive, lt ((neg hm e).trans (pos hn f))]
        rfl
      · rw [extended_negative, extended_positive, gt ((neg hn f).trans (pos hm e))]
        rfl
      · rw [extended_positive, extended_positive, UnpackedFloat.compare, compare_magnitude hu hv,
          compare_coe]

/-- Being a number is seen on the unpacked form. -/
theorem isNaN_eq_false_iff {x : Float} :
    x.isNaN = false ↔ x.toModel.unpack ≠ .notANumber := by
  show x.toModel.unpack.isNaN = false ↔ _
  cases x.toModel.unpack <;> simp [UnpackedFloat.isNaN]

/-- One double is smaller than another if both are numbers and the one stands for the smaller
number. -/
theorem lt_iff_value {x y : Float} :
    x < y ↔ x.isNaN = false ∧ y.isNaN = false ∧ value x < value y := by
  constructor
  · intro h
    have hx : x.isNaN = false := Bool.not_eq_true _ ▸ fun hnan => not_gt_of_isNaN hnan y h
    have hy : y.isNaN = false := Bool.not_eq_true _ ▸ fun hnan => not_lt_of_isNaN hnan x h
    rw [lt_iff, compare_eq (isDouble_unpack x) (isDouble_unpack y) (isNaN_eq_false_iff.1 hx)
      (isNaN_eq_false_iff.1 hy)] at h
    exact ⟨hx, hy, compare_lt_iff_lt.1 (Option.some.inj h)⟩
  · rintro ⟨hx, hy, h⟩
    rw [lt_iff, compare_eq (isDouble_unpack x) (isDouble_unpack y) (isNaN_eq_false_iff.1 hx)
      (isNaN_eq_false_iff.1 hy)]
    exact congrArg some (compare_lt_iff_lt.2 h)

/-- Not larger is the comparison with one more of its results. -/
theorem le_iff (x y : Float) :
    x ≤ y ↔ (UnpackedFloat.compare x.toModel.unpack y.toModel.unpack).any (·.isLE) = true := by
  show decide (UnpackedFloat.le x.toModel.unpack y.toModel.unpack = true) = true ↔ _
  rw [decide_eq_true_iff]
  rfl

/-- One double is at most another if both are numbers, and so are the numbers that they stand
for. -/
theorem le_iff_value {x y : Float} :
    x ≤ y ↔ x.isNaN = false ∧ y.isNaN = false ∧ value x ≤ value y := by
  rw [le_iff]
  by_cases hx : x.toModel.unpack = .notANumber
  · rw [isNaN_eq_false_iff, hx]
    simp [UnpackedFloat.compare]
  by_cases hy : y.toModel.unpack = .notANumber
  · rw [isNaN_eq_false_iff, isNaN_eq_false_iff, hy]
    cases x.toModel.unpack <;> simp [UnpackedFloat.compare]
  rw [compare_eq (isDouble_unpack x) (isDouble_unpack y) hx hy, Option.any_some,
    isNaN_eq_false_iff, isNaN_eq_false_iff]
  simp only [hx, hy, ne_eq, not_false_eq_true, true_and]
  rw [Ordering.isLE_iff_ne_gt, compare_gt_iff_gt, not_lt]
  rfl

end LeastSquares.Double
