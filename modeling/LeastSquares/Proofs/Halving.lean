/-
LeastSquares.Proofs.Halving — half of a double.

Division by two only lowers the exponent, so it is exact, unless the exponent is the smallest one
already and the mantissa is odd: then half of the number is no double. `toRat_half` says so without
speaking of exponents.

The proof follows the division of the model. The dividend is shifted so that the quotient has enough
bits (`div_two`), by an amount that differs in the three cases: above the smallest exponents, next
to the smallest one, and at it. In none of them is there a remainder, so the quotient is rounded to
itself (`roundWithAccuracy_eq`).
-/
import Mathlib
import LeastSquares.Proofs.Double

namespace LeastSquares.Double

open Float.Model Float.Model.UnpackedFloat

/-! ## Rounding -/

/-- The exponent of a double is the one that rounding aims at. -/
theorem targetExponent_eq {m : Nat} {e : Int} {s : Sign} {hpos : 0 < m}
    (h : IsDouble (.finite s m e hpos)) :
    Format.binary64.targetExponent (totalExponent m e) = e := by
  obtain ⟨hlt, hlow, hmin, -⟩ := h
  have hlog : m.log2 < 53 := (Nat.log2_lt hpos.ne').2 hlt
  have hlow' : m.log2 = 52 ∨ e = -1074 :=
    hlow.imp_left fun hm => (Nat.log2_eq_iff hpos.ne').2 ⟨hm, hlt⟩
  show max ((m.log2 + 1 + e) - (53 : Nat)) (-1074) = e
  omega

/-- Shifting `k` zeros out of a mantissa loses nothing. -/
theorem repeat_shiftRightOne (m k : Nat) :
    Nat.repeat ExtendedMantissa.shiftRightOne k ⟨m * 2 ^ k, false, false⟩ = ⟨m, false, false⟩ := by
  induction k generalizing m with
  | zero => simp [Nat.repeat]
  | succ k ih =>
    have hpow : m * 2 ^ (k + 1) = 2 * m * 2 ^ k := by ring
    rw [Nat.repeat, hpow, ih]
    simp [ExtendedMantissa.shiftRightOne]

/-- Zeros behind a number count as bits of it. -/
theorem log2_mul_two_pow {m : Nat} (hpos : 0 < m) (k : Nat) : (m * 2 ^ k).log2 = m.log2 + k := by
  have hm := (Nat.log2_eq_iff hpos.ne').1 rfl
  rw [Nat.log2_eq_iff (Nat.mul_pos hpos (Nat.two_pow_pos k)).ne', pow_add, add_right_comm, pow_add]
  exact ⟨Nat.mul_le_mul_right _ hm.1, Nat.mul_lt_mul_of_pos_right hm.2 (Nat.two_pow_pos k)⟩

/-- Rounding does not change a number that is a double, also if its mantissa comes with zeros
behind it. -/
theorem roundWithAccuracy_eq {s : Sign} {m : Nat} {e : Int} {hpos : 0 < m}
    (h : IsDouble (.finite s m e hpos)) (k : Nat) :
    roundWithAccuracy .binary64 s (m * 2 ^ k) (e - k) .exact = .finite s m e hpos := by
  -- rounding shifts twice, the second time in case the mantissa has got a bit more; here `j` is `0`
  have shift (j : Nat) :
      shiftToTargetExponent .binary64 (m * 2 ^ j) (e - j) .exact = (⟨m, false, false⟩, e) := by
    have htotal : totalExponent (m * 2 ^ j) (e - j) = totalExponent m e := by
      rw [totalExponent, totalExponent, log2_mul_two_pow hpos]
      omega
    have hamount : (e - (e - j)).toNat = j := by omega
    have hexponent : e - j + ((e - (e - j)).toNat : Int) = e := by omega
    rw [shiftToTargetExponent, htotal, targetExponent_eq h, shiftToExponent]
    rw [hexponent, hamount]
    exact congrArg (·, e) (repeat_shiftRightOne m j)
  have again := shift 0
  simp only [pow_zero, mul_one, Nat.cast_zero, sub_zero] at again
  rw [roundWithAccuracy, shift]
  dsimp only [ExtendedMantissa.roundedMantissa, ExtendedMantissa.accuracy,
    Accuracy.roundToNearestEven]
  rw [again]
  exact dif_neg hpos.ne'

/-! ## Division by two -/

/-- Above the smallest exponent a double stays one if the exponent is lowered. -/
theorem IsDouble.pred {s : Sign} {m : Nat} {e : Int} {hpos : 0 < m}
    (h : IsDouble (.finite s m e hpos)) (hlt : -1074 < e) :
    IsDouble (.finite s m (e - 1) hpos) := by
  obtain ⟨hbits, hlow, -, hmax⟩ := h
  exact ⟨hbits, .inl (hlow.resolve_right hlt.ne'), by omega, by omega⟩

/-- At the smallest exponent any shorter mantissa is one of a double. -/
theorem IsDouble.half {s : Sign} {m : Nat} {hpos : 0 < m} {hpos' : 0 < 2 * m}
    (h : IsDouble (.finite s (2 * m) (-1074) hpos')) : IsDouble (.finite s m (-1074) hpos) := by
  have hbits := h.1
  exact ⟨by omega, .inr rfl, by omega, by omega⟩

/-- The number two, unpacked. -/
def two : UnpackedFloat :=
  .finite .positive (2 ^ 52) (-51) (by decide)

/-- Division by two, if the quotient `m' * 2 ^ e'` is known and the dividend is shifted far enough.
The quotient comes with `k` zeros behind its mantissa, and they are rounded away. -/
theorem div_two {s : Sign} {m m' : Nat} {e e' : Int} {hpos : 0 < m} {hpos' : 0 < m'} {k : Nat}
    (h : IsDouble (.finite s m' e' hpos'))
    (htarget : min (e + 51) (Format.binary64.targetExponent (totalExponent m e - 2)) = e' - k)
    (hshift : m * 2 ^ (e + 51 - (e' - k)).toNat = m' * 2 ^ k * 2 ^ 52) :
    UnpackedFloat.div .binary64 (.finite s m e hpos) two = .finite s m' e' hpos' := by
  have hcore : divCore .binary64 m e (2 ^ 52) (-51) = (m' * 2 ^ k, e' - k, .exact) := by
    have htotal : totalExponent (2 ^ 52) (-51) = 2 := by
      rw [totalExponent, Nat.log2_two_pow]
      rfl
    rw [divCore, htotal, sub_neg_eq_add, htarget]
    rw [Nat.shiftLeft_eq, hshift, Nat.mul_div_cancel _ (by decide), Nat.mul_mod_left]
    rfl
  have hsign : s / Sign.positive = s := by cases s <;> rfl
  rw [two, UnpackedFloat.div, hcore, hsign]
  exact roundWithAccuracy_eq h k

/-- Above the smallest exponent the mantissa stays, and the exponent is lowered. -/
theorem div_two_of_lt {s : Sign} {m : Nat} {e : Int} {hpos : 0 < m}
    (h : IsDouble (.finite s m e hpos)) (hlt : -1074 < e) :
    UnpackedFloat.div .binary64 (.finite s m e hpos) two = .finite s m (e - 1) hpos := by
  have half := h.pred hlt
  obtain ⟨hbits, hlow, hmin, hmax⟩ := h
  have hlog : m.log2 = 52 := (Nat.log2_eq_iff hpos.ne').2 ⟨hlow.resolve_right hlt.ne', hbits⟩
  have htarget : Format.binary64.targetExponent (totalExponent m e - 2) = max (e - 2) (-1074) := by
    rw [totalExponent, hlog]
    show max ((52 : Nat) + 1 + e - 2 - (53 : Nat)) (-1074) = max (e - 2) (-1074)
    omega
  rcases eq_or_ne e (-1073) with rfl | hne
  · -- the quotient is cut off at the smallest exponent
    refine div_two (k := 0) half (by rw [htarget]; rfl) ?_
    rw [pow_zero, mul_one]
    rfl
  · -- there is one bit more than needed, a zero
    refine div_two (k := 1) half (by rw [htarget]; omega) ?_
    rw [show (e + 51 - (e - 1 - (1 : Nat))).toNat = 53 by omega]
    ring

/-- At the smallest exponent the mantissa is halved. -/
theorem div_two_of_even {s : Sign} {m : Nat} {hpos : 0 < m} {hpos' : 0 < 2 * m}
    (h : IsDouble (.finite s (2 * m) (-1074) hpos')) :
    UnpackedFloat.div .binary64 (.finite s (2 * m) (-1074) hpos') two
      = .finite s m (-1074) hpos := by
  have hlog : (2 * m).log2 < 53 := (Nat.log2_lt hpos'.ne').2 h.1
  have htarget : Format.binary64.targetExponent (totalExponent (2 * m) (-1074) - 2) = -1074 := by
    rw [totalExponent]
    show max (((2 * m).log2 : Int) + 1 + -1074 - 2 - (53 : Nat)) (-1074) = -1074
    omega
  refine div_two (k := 0) h.half (by rw [htarget]; rfl) ?_
  rw [show (-1074 + 51 - (-1074 - ((0 : Nat) : Int))).toNat = 51 from rfl]
  ring

/-! ## The numbers that doubles stand for -/

/-- The number that a finite double stands for. -/
def toRat (x : Float) : ℚ :=
  match x.toModel.unpack with
  | .finite s m e _ => s.apply m * 2 ^ e
  | _ => 0

/-- The number of a double that has been unpacked. -/
theorem toRat_of_unpack {x : Float} {s : Sign} {m : Nat} {e : Int} {hpos : 0 < m}
    (h : x.toModel.unpack = .finite s m e hpos) : toRat x = s.apply m * 2 ^ e := by
  rw [toRat, h]

/-- Every double is a whole multiple of the smallest positive one. -/
theorem exists_toRat_eq (x : Float) : ∃ k : ℤ, toRat x = k * 2 ^ (-1074 : ℤ) := by
  match hx : x.toModel.unpack with
  | .notANumber => exact ⟨0, by rw [toRat, hx]; simp⟩
  | .infinity _ => exact ⟨0, by rw [toRat, hx]; simp⟩
  | .zero _ => exact ⟨0, by rw [toRat, hx]; simp⟩
  | .finite s m e hpos =>
    have hdouble := isDouble_unpack x
    rw [hx] at hdouble
    obtain ⟨-, -, hmin, -⟩ := hdouble
    -- no exponent is smaller, so the difference is one of a natural number
    refine ⟨s.apply m * 2 ^ (e + 1074).toNat, ?_⟩
    rw [toRat_of_unpack hx, Int.cast_mul, Int.cast_pow, mul_assoc, Int.cast_ofNat, ← zpow_natCast,
      ← zpow_add₀ two_ne_zero]
    congr 2
    omega

/-- Packing and unpacking the quotient changes nothing if it is a double. -/
theorem unpack_half {x : Float} {u : UnpackedFloat} (h : IsDouble u)
    (hdiv : UnpackedFloat.div .binary64 x.toModel.unpack two = u) :
    (x / 2.0).toModel.unpack = u := by
  show UnpackedFloat.unpack .binary64 (UnpackedFloat.pack .binary64
    (UnpackedFloat.div .binary64 x.toModel.unpack two)) = u
  rw [hdiv, unpack_pack h]

/-- Above the smallest exponent there is nothing to round. -/
theorem toRat_half_of_lt {x : Float} {s : Sign} {m : Nat} {e : Int} {hpos : 0 < m}
    (hx : x.toModel.unpack = .finite s m e hpos) (hlt : -1074 < e) :
    toRat (x / 2.0) = toRat x / 2 := by
  have hdouble := isDouble_unpack x
  rw [hx] at hdouble
  have hhalf : (x / 2.0).toModel.unpack = .finite s m (e - 1) hpos :=
    unpack_half (hdouble.pred hlt) (by rw [hx, div_two_of_lt hdouble hlt])
  rw [toRat_of_unpack hhalf, toRat_of_unpack hx, zpow_sub_one₀ two_ne_zero]
  ring

theorem apply_two_mul (s : Sign) (m : Nat) : s.apply (2 * m : Nat) = 2 * s.apply m := by
  cases s <;> simp [Sign.apply]

/-- Half of a finite double is computed exactly if it is a double at all. -/
theorem toRat_half {x : Float} (finite : x.isFinite = true) (h : ∃ y, toRat y = toRat x / 2) :
    toRat (x / 2.0) = toRat x / 2 := by
  have hfinite : x.toModel.unpack.isFinite = true := finite
  have hdouble := isDouble_unpack x
  match hx : x.toModel.unpack with
  | .notANumber => rw [hx] at hfinite; contradiction
  | .infinity _ => rw [hx] at hfinite; contradiction
  | .zero s =>
    have hhalf : (x / 2.0).toModel.unpack = .zero (s / .positive) :=
      unpack_half trivial (by rw [hx]; rfl)
    rw [toRat, toRat, hhalf, hx, zero_div]
  | .finite s m e hpos =>
    rw [hx] at hdouble
    have hmin : -1074 ≤ e := hdouble.2.2.1
    rcases hmin.lt_or_eq with hlt | rfl
    · exact toRat_half_of_lt hx hlt
    · -- at the smallest exponent the mantissa has to be even
      obtain ⟨y, hy⟩ := h
      obtain ⟨k, hk⟩ := exists_toRat_eq y
      rw [hk, toRat_of_unpack hx, mul_div_right_comm] at hy
      have hk2 : (k : ℚ) * 2 = s.apply m := by
        rw [mul_right_cancel₀ (by positivity) hy, div_mul_cancel₀ _ two_ne_zero]
      have heven : k * 2 = s.apply m := by exact_mod_cast hk2
      obtain ⟨q, rfl⟩ : ∃ q, m = 2 * q := by
        refine ⟨k.natAbs, ?_⟩
        cases s <;> simp only [Sign.apply] at heven <;> omega
      have hq : 0 < q := by omega
      have hhalf : (x / 2.0).toModel.unpack = .finite s q (-1074) hq :=
        unpack_half hdouble.half (by rw [hx, div_two_of_even hdouble])
      rw [toRat_of_unpack hhalf, toRat_of_unpack hx, apply_two_mul, Int.cast_mul]
      ring

/-- Half of a double that is not too small is a double. -/
theorem exists_half {x : Float} (h : (2 : ℚ) ^ (-1021 : ℤ) ≤ |toRat x|) :
    ∃ y, toRat y = toRat x / 2 := by
  have hne : ¬ (2 : ℚ) ^ (-1021 : ℤ) ≤ |0| := by
    rw [abs_zero, not_le]
    positivity
  have hdouble := isDouble_unpack x
  match hx : x.toModel.unpack with
  | .notANumber => rw [toRat, hx] at h; contradiction
  | .infinity _ => rw [toRat, hx] at h; contradiction
  | .zero _ => rw [toRat, hx] at h; contradiction
  | .finite s m e hpos =>
    rw [hx] at hdouble
    obtain ⟨hbits, -, hmin, -⟩ := hdouble
    refine ⟨x / 2.0, toRat_half_of_lt hx (hmin.lt_of_ne ?_)⟩
    -- at the smallest exponent a mantissa of 53 bits is too small for the bound
    rintro rfl
    have habs : |((s.apply m : ℤ) : ℚ)| = m := by
      cases s <;> simp [Sign.apply]
    have hm : (m : ℚ) < 2 ^ (53 : ℤ) := by exact_mod_cast hbits
    have hpow : (0 : ℚ) < 2 ^ (-1074 : ℤ) := by positivity
    rw [toRat_of_unpack hx, abs_mul, habs, abs_of_pos hpow] at h
    have := mul_lt_mul_of_pos_right hm hpow
    rw [← zpow_add₀ two_ne_zero] at this
    exact absurd h this.not_ge

end LeastSquares.Double
