/-
LeastSquares.Proofs.Double.Bounds — operations that do not overflow.

Rounding does not move a number over a power of two, as long as that is a double itself. So bounds
by powers of two are kept through sums, products and quotients as they are in exact arithmetic
(`Within.add`, `Within.mul`, `Within.div`), and a result whose bound is a double is finite.
-/
import Mathlib
import LeastSquares.Proofs.Double.Special

namespace LeastSquares.Double

open Float.Model Float.Model.UnpackedFloat

/-! ## Rounding within a bound -/

theorem representable_two_pow (k : Nat) : Representable (2 ^ k) :=
  ⟨1, k, by norm_num, by omega, by push_cast; rw [one_mul, zpow_natCast]⟩

/-- Rounding does not move a number over a power of two. -/
theorem Nearest.abs_le {v x : ℝ} {k : Nat} (hv : Nearest v x) (hx : |x| ≤ 2 ^ k) : |v| ≤ 2 ^ k := by
  have hupper := hv.2 _ (representable_two_pow k)
  have hlower := hv.2 _ (representable_two_pow k).neg
  grind [abs_le, le_abs]

theorem isFinite_of_extended {u : UnpackedFloat} {x : ℝ} (hnumber : u ≠ .notANumber)
    (h : extended u = x) : u.isFinite = true := by
  match u with
  | .notANumber => exact absurd rfl hnumber
  | .infinity .positive => exact absurd h.symm (EReal.coe_ne_top x)
  | .infinity .negative => exact absurd h.symm (EReal.coe_ne_bot x)
  | .zero _ => rfl
  | .finite .. => rfl

/-- A number within a power of two that is a double is not rounded to an infinite one. -/
theorem Rounds.exists_stands {x : ℝ} {u : UnpackedFloat} {k : Nat} (h : Rounds x u)
    (hx : |x| ≤ 2 ^ k) (hk : k ≤ 1023) : ∃ v, Stands u v ∧ |v| ≤ 2 ^ k := by
  obtain ⟨v, hv, hclamp⟩ := h.nearest
  have hbound := hv.abs_le hx
  have hlt : (2 : ℝ) ^ k < 2 ^ (1024 : ℤ) := by
    rw [← zpow_natCast]
    exact zpow_lt_zpow_right₀ one_lt_two (by omega)
  rw [clamp_of_abs_lt (hbound.trans_lt hlt)] at hclamp
  exact ⟨v, ⟨isFinite_of_extended h.isNumber hclamp, hclamp⟩, hbound⟩

/-! ## Bounds of doubles -/

/-- The double is a finite number, of magnitude `2 ^ k` at most. -/
def Within (k : Nat) (a : Float) : Prop :=
  ∃ x : ℝ, Stands a.toModel.unpack x ∧ |x| ≤ (2 : ℕ) ^ k

theorem within_iff {k : Nat} {a : Float} :
    Within k a ↔ ∃ x : ℝ, Stands a.toModel.unpack x ∧ |x| ≤ 2 ^ k :=
  Iff.rfl

namespace Within

variable {a b : Float} {j k : Nat}

theorem isFinite (h : Within k a) : a.isFinite = true := by
  obtain ⟨x, hx, -⟩ := h
  exact hx.1

theorem neg (h : Within k a) : Within k (-a) := by
  obtain ⟨x, hx, hbound⟩ := within_iff.1 h
  refine within_iff.2 ⟨-x, ?_, (abs_neg x).trans_le hbound⟩
  rw [unpack_neg]
  exact hx.neg

theorem add (ha : Within k a) (hb : Within k b) (hk : k + 1 ≤ 1023) : Within (k + 1) (a + b) := by
  obtain ⟨x, hx, hxk⟩ := within_iff.1 ha
  obtain ⟨y, hy, hyk⟩ := within_iff.1 hb
  have hsum : |x + y| ≤ 2 ^ (k + 1) := by
    calc |x + y| ≤ |x| + |y| := abs_add_le x y
      _ ≤ 2 ^ k + 2 ^ k := add_le_add hxk hyk
      _ = 2 ^ (k + 1) := by ring
  exact within_iff.2 <|
    (hx.add (isDouble_unpack a) (isDouble_unpack b) hy).exists_stands hsum hk

theorem sub (ha : Within k a) (hb : Within k b) (hk : k + 1 ≤ 1023) : Within (k + 1) (a - b) := by
  rw [← add_neg_eq_sub]
  exact ha.add hb.neg hk

theorem mul (ha : Within j a) (hb : Within k b) (hk : j + k ≤ 1023) : Within (j + k) (a * b) := by
  obtain ⟨x, hx, hxj⟩ := within_iff.1 ha
  obtain ⟨y, hy, hyk⟩ := within_iff.1 hb
  have hproduct : |x * y| ≤ 2 ^ (j + k) := by
    rw [abs_mul, pow_add]
    exact mul_le_mul hxj hyk (abs_nonneg y) (by positivity)
  exact within_iff.2 <|
    (hx.mul (isDouble_unpack a) (isDouble_unpack b) hy).exists_stands hproduct hk

/-- A quotient by a number that is not smaller than a negative power of two. -/
theorem div {y : ℝ} (ha : Within j a) (hb : Stands b.toModel.unpack y) (hy : (2 ^ k)⁻¹ ≤ y)
    (hk : j + k ≤ 1023) : Within (j + k) (a / b) := by
  obtain ⟨x, hx, hxj⟩ := within_iff.1 ha
  have hpos : 0 < y := (by positivity : (0 : ℝ) < (2 ^ k)⁻¹).trans_le hy
  have hquotient : |x / y| ≤ 2 ^ (j + k) := by
    rw [abs_div, abs_of_pos hpos, div_le_iff₀ hpos]
    calc |x| ≤ 2 ^ j := hxj
      _ = 2 ^ (j + k) * (2 ^ k)⁻¹ := by rw [pow_add, mul_assoc, mul_inv_cancel₀ (by positivity),
          mul_one]
      _ ≤ 2 ^ (j + k) * y := by gcongr
  exact within_iff.2 <|
    (hx.div (isDouble_unpack a) hb hpos.ne').exists_stands hquotient hk

end Within

/-! ## Decimal bounds -/

theorem unpack_of_bits {a : Float} (bits : BitVec 64) (h : a.toModel.toBits.toBitVec = bits) :
    a.toModel.unpack = UnpackedFloat.unpack .binary64 bits :=
  congrArg (UnpackedFloat.unpack .binary64) h

/-- A number of magnitude `1e100` at most is within a power of two. -/
theorem within_of_abs_le {a : Float} (h : a.abs ≤ 1e100) : Within 333 a := by
  have hlimit : (1e100 : Float).toModel.unpack
      = .finite .positive 0x1249AD2594C37D 280 (by decide) :=
    unpack_of_bits 0x54B249AD2594C37D#64 (by decide +kernel)
  obtain ⟨hnan, -, hle⟩ := le_iff_value.1 h
  rw [isNaN_abs, isNaN_eq_false_iff] at hnan
  rw [value, value, unpack_abs, hlimit, extended_positive] at hle
  have hpow : ((0x1249AD2594C37D : ℕ) : ℝ) * 2 ^ (280 : ℤ) ≤ 2 ^ 333 := calc
    ((0x1249AD2594C37D : ℕ) : ℝ) * 2 ^ (280 : ℤ) ≤ 2 ^ (53 : ℤ) * 2 ^ (280 : ℤ) := by
      gcongr
      norm_num
    _ = 2 ^ 333 := by rw [← zpow_add₀ two_ne_zero, ← zpow_natCast]; rfl
  have hdouble := isDouble_unpack a
  cases hu : a.toModel.unpack with
  | notANumber => exact absurd hu hnan
  | infinity s =>
    rw [hu] at hle
    exact absurd hle (EReal.coe_lt_top _).not_ge
  | zero s => exact within_iff.2 ⟨0, hu ▸ ⟨rfl, rfl⟩, by rw [abs_zero]; positivity⟩
  | finite s m e hm =>
    rw [hu, UnpackedFloat.abs, extended_positive, EReal.coe_le_coe_iff] at hle
    exact within_iff.2
      ⟨s.apply m * 2 ^ e, hu ▸ ⟨rfl, rfl⟩, (abs_apply s m e).trans_le (hle.trans hpow)⟩

/-- The double nearest to `1e-15` is not smaller than `2 ^ -50`. -/
theorem exists_stands_guard :
    ∃ y : ℝ, Stands (1e-15 : Float).toModel.unpack y ∧ (2 ^ 50)⁻¹ ≤ y := by
  have hguard : (1e-15 : Float).toModel.unpack
      = .finite .positive 0x1203AF9EE75616 (-102) (by decide) :=
    unpack_of_bits 0x3CD203AF9EE75616#64 (by decide +kernel)
  refine ⟨(0x1203AF9EE75616 : ℕ) * 2 ^ (-102 : ℤ), ⟨?_, ?_⟩, by norm_num⟩
  · rw [hguard]
    rfl
  · rw [hguard, extended_positive]

end LeastSquares.Double
