/-
LeastSquares.Proofs.Double.SignedZero — numbers that are equal up to the sign of a zero.

A zero that is added changes nothing but the sign of another zero, and the order in which signs and
zeros come in may change the sign of the result. `Alike` is the equality that does not see such
differences. Numbers that are alike compare equal, unless they are no numbers.

Not every operation gives results that are alike for operands that are: one divided by a zero is
infinite, with the sign of the zero. So what is proved here is about single operations.
-/
import Mathlib
import LeastSquares.Proofs.Double.Bounds

namespace LeastSquares.Double

open Float.Model Float.Model.UnpackedFloat

variable {a b c : Float}

/-! ## Signs

Doubles are stored as a sign and a magnitude, and rounding looks at the magnitude only. -/

theorem sign_neg_mul (s t : Sign) : -s * t = -(s * t) := by
  cases s <;> cases t <;> rfl

theorem roundWithAccuracy_neg (s : Sign) (m : Nat) (e : Int) (a : Accuracy) :
    roundWithAccuracy .binary64 (-s) m e a = (roundWithAccuracy .binary64 s m e a).neg := by
  unfold roundWithAccuracy
  dsimp only
  split <;> rfl

theorem unpack_packComponents_neg (s : Sign) (exponent : BitVec 11) (mantissa : BitVec 52) :
    UnpackedFloat.unpack .binary64 (packComponents .binary64 (-s) exponent mantissa)
      = (UnpackedFloat.unpack .binary64 (packComponents .binary64 s exponent mantissa)).neg := by
  unfold UnpackedFloat.unpack
  simp only [unpackMantissa_packComponents, unpackExponent_packComponents,
    unpackSign_packComponents]
  cases s <;> split_ifs <;> rfl

/-- Packing treats both signs alike. -/
theorem repack_neg (u : UnpackedFloat) : repack u.neg = (repack u).neg := by
  cases u with
  | notANumber => rfl
  | infinity s => cases s <;> rfl
  | zero s => cases s <;> rfl
  | finite s m e hm =>
    simp only [repack, UnpackedFloat.neg, UnpackedFloat.pack]
    split_ifs
    · cases s <;> rfl
    · exact unpack_packComponents_neg ..
    · exact unpack_packComponents_neg ..

/-- To turn the sign of a factor is to turn the sign of the product. -/
theorem neg_mul_left (a b : Float) : -a * b = -(a * b) := by
  have hmul (u v : UnpackedFloat) : UnpackedFloat.mul .binary64 u.neg v
      = (UnpackedFloat.mul .binary64 u v).neg := by
    cases u <;> cases v <;>
      simp [UnpackedFloat.mul, UnpackedFloat.neg, sign_neg_mul, roundWithAccuracy_neg]
  refine unpack_injective ?_
  show (-a * b).toModel.unpack = (-(a * b)).toModel.unpack
  rw [unpack_mul, unpack_neg, unpack_neg, unpack_mul, hmul, repack_neg]

/-! ## Multiplication by one -/

/-- A number that is a double is not changed by rounding. -/
theorem Rounds.stands {x : ℝ} {u w : UnpackedFloat} (h : Rounds x u) (hw : IsDouble w)
    (hx : Stands w x) : Stands u x := by
  obtain ⟨-, v, hv, hv'⟩ := rounds_self hw hx
  obtain ⟨hnumber, r, hr, hr'⟩ := h
  rw [repack_of_isDouble hw, hx.2] at hv'
  obtain rfl : v = x := by
    rw [clamp_eq] at hv'
    split_ifs at hv'
    · exact absurd hv' (EReal.coe_ne_top x)
    · exact absurd hv' (EReal.coe_ne_bot x)
    · exact EReal.coe_injective hv'.symm
  have hclose : |r - v| ≤ 0 := (hr.2 v hv.1).trans_eq (by simp)
  obtain rfl : r = v := sub_eq_zero.1 (abs_nonpos_iff.1 hclose)
  rw [← hv'] at hr'
  exact ⟨isFinite_of_extended hnumber hr', hr'⟩

/-- A product with one is rounded to the other factor, which is a double already. -/
theorem one_mul_eq (a : Float) : 1.0 * a = a := by
  have hone : (1.0 : Float).toModel.unpack = .finite .positive (2 ^ 52) (-52) (by decide) := rfl
  have hone' : Stands (1.0 : Float).toModel.unpack 1 := by
    rw [hone]
    exact ⟨rfl, by rw [extended_positive]; norm_num⟩
  have hdouble := isDouble_unpack a
  refine unpack_injective ?_
  show (1.0 * a).toModel.unpack = a.toModel.unpack
  cases hu : a.toModel.unpack with
  | notANumber => rw [unpack_mul, hu]; rfl
  | infinity s => rw [unpack_mul, hu]; cases s <;> rfl
  | zero s => rw [unpack_mul, hu]; cases s <;> rfl
  | finite s m e hm =>
    rw [hu] at hdouble
    have hx : Stands (.finite s m e hm) (s.apply m * 2 ^ e) := ⟨rfl, rfl⟩
    have hrounds : Rounds (s.apply m * 2 ^ e) (1.0 * a).toModel.unpack := by
      have h := hone'.mul (isDouble_unpack 1.0) hdouble hx
      rwa [one_mul, ← hu] at h
    refine eq_of_stands (isDouble_unpack (1.0 * a)) hdouble (hrounds.stands hdouble hx) hx ?_
    rw [← abs_pos, abs_apply]
    exact magnitude_pos hm e

theorem mul_minus_one (a : Float) : a * -1.0 = -a := by
  rw [mul_comm, neg_mul_left, one_mul_eq]

/-! ## Numbers that are alike -/

/-- The two numbers are the same, or both of them are zeros. -/
def Alike (a b : Float) : Prop :=
  a = b ∨ (a == 0.0) = true ∧ (b == 0.0) = true

/-- A result is a given double if it is that double before it is rounded. -/
theorem eq_of_unpack {u : UnpackedFloat} (hb : b.toModel.unpack = repack u)
    (hu : u = a.toModel.unpack) : b = a := by
  refine unpack_injective ?_
  show b.toModel.unpack = a.toModel.unpack
  rw [hb, hu, repack_of_isDouble (isDouble_unpack a)]

namespace Alike

theorem refl (a : Float) : Alike a a :=
  .inl rfl

theorem symm (h : Alike a b) : Alike b a :=
  h.imp Eq.symm And.symm

theorem trans (h : Alike a b) (h' : Alike b c) : Alike a c := by
  obtain rfl | ⟨ha, hb⟩ := h
  · exact h'
  · obtain rfl | ⟨-, hc⟩ := h'
    · exact .inr ⟨ha, hb⟩
    · exact .inr ⟨ha, hc⟩

theorem equivalence : Equivalence Alike :=
  ⟨refl, symm, trans⟩

/-- Numbers that are alike compare equal, unless they are no numbers. -/
theorem eq_or_beq (h : Alike a b) : a = b ∨ (a == b) = true := by
  refine h.imp_right fun ⟨ha, hb⟩ => ?_
  obtain ⟨s, hs⟩ := beq_zero_iff.1 ha
  obtain ⟨t, ht⟩ := beq_zero_iff.1 hb
  show a.toModel.unpack.beq b.toModel.unpack = true
  rw [hs, ht]
  rfl

/-- A zero that is added changes nothing. -/
theorem zero_add (h : (c == 0.0) = true) (a : Float) : Alike (c + a) a := by
  obtain ⟨t, ht⟩ := beq_zero_iff.1 h
  cases hu : a.toModel.unpack with
  | zero s =>
    have ha := beq_zero_iff.2 ⟨s, hu⟩
    exact .inr ⟨beq_zero_add h ha, ha⟩
  | _ => exact .inl (eq_of_unpack (unpack_add c a) (by rw [ht, hu]; rfl))

/-- On the other side, too. -/
theorem add_zero (h : (c == 0.0) = true) (a : Float) : Alike (a + c) a := by
  obtain ⟨t, ht⟩ := beq_zero_iff.1 h
  cases hu : a.toModel.unpack with
  | zero s =>
    have ha := beq_zero_iff.2 ⟨s, hu⟩
    exact .inr ⟨beq_zero_add ha h, ha⟩
  | _ => exact .inl (eq_of_unpack (unpack_add a c) (by rw [ht, hu]; rfl))

theorem zero_sub (h : (c == 0.0) = true) (a : Float) : Alike (c - a) (-a) :=
  add_neg_eq_sub c a ▸ zero_add h (-a)

theorem sub_zero (h : (c == 0.0) = true) (a : Float) : Alike (a - c) a := by
  rw [← add_neg_eq_sub]
  exact add_zero ((beq_zero_neg c).trans h) a

end Alike

end LeastSquares.Double
