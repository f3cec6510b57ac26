/-
LeastSquares.Proofs.Double.Rounding — what rounding does to a number.

A result is computed exactly, as a mantissa with a note of what was cut off below it (`Locates`).
Rounding shifts the mantissa until 53 bits are left, and takes the neighbour that is nearer. Its
result is a number that a double can stand for, and no such number is nearer to the exact result
(`nearest_mantissa`); if it is too large for a double, it becomes infinite. `Rounds` puts the two
together. All that follows from it is about the order: rounding keeps it (`Rounds.le`), and it does
not move a number over zero (`Rounds.pos`, `Rounds.nonneg`).
-/
import Mathlib
import LeastSquares.Proofs.Double.Order
import LeastSquares.Proofs.Exact
import LeastSquares.Proofs.Halving

namespace LeastSquares.Double

open Float.Model Float.Model.UnpackedFloat

/-! ## Rounding a mantissa

Below its mantissa an `ExtendedMantissa` keeps two bits: the one that was cut off last, and whether
one of those cut off before was set. Rounding looks at nothing else, and nothing else is needed:
together with the mantissa they say on which side of the middle between two integers the exact
number lies (`Locates`). Cutting off another bit keeps what they say true. -/

/-- The mantissa and its residual bits say where `x` lies: at the mantissa, or between it and the
next integer, nearer to the one, in the middle, or nearer to the other. -/
def Locates (m : ExtendedMantissa) (x : ℝ) : Prop :=
  match m.accuracy with
  | .exact => x = m.mantissa
  | .inexact .lt => m.mantissa < x ∧ x - m.mantissa < m.mantissa + 1 - x
  | .inexact .eq => x - m.mantissa = m.mantissa + 1 - x
  | .inexact .gt => m.mantissa + 1 - x < x - m.mantissa ∧ x < m.mantissa + 1

/-- One place further to the right stands half of the number. -/
theorem Locates.shiftRightOne {m : ExtendedMantissa} {x : ℝ} (h : Locates m x) :
    Locates m.shiftRightOne (x / 2) := by
  obtain ⟨m, r, s⟩ := m
  -- by the bit that is cut off now, and by the two bits that were kept until now
  obtain ⟨q, rfl | rfl⟩ := Nat.even_or_odd' m
  · have hhalf : 2 * q / 2 = q := by omega
    have hbit : 2 * q % 2 = 0 := by omega
    cases r <;> cases s <;>
      simp only [Locates, ExtendedMantissa.accuracy, ExtendedMantissa.shiftRightOne, hhalf, hbit,
        bne_self_eq_false, Bool.or_false, Bool.or_true, Nat.cast_mul, Nat.cast_ofNat] at h ⊢ <;>
      grind
  · have hhalf : (2 * q + 1) / 2 = q := by omega
    have hbit : (2 * q + 1) % 2 = 1 := by omega
    cases r <;> cases s <;>
      simp [Locates, ExtendedMantissa.accuracy, ExtendedMantissa.shiftRightOne, hhalf, hbit]
        at h ⊢ <;>
      grind

theorem Locates.shiftRight {m : ExtendedMantissa} {x : ℝ} (h : Locates m x) (k : Nat) :
    Locates (m >>> k) (x / 2 ^ k) := by
  induction k with
  | zero =>
    rw [pow_zero, div_one]
    exact h
  | succ k ih =>
    rw [pow_succ, ← div_div]
    exact ih.shiftRightOne

/-- Rounding moves a number by at most one half. -/
theorem Locates.abs_sub_le {m : ExtendedMantissa} {x : ℝ} (h : Locates m x) :
    |m.roundedMantissa - x| ≤ 1 / 2 := by
  obtain ⟨m, r, s⟩ := m
  rw [abs_le]
  rcases Nat.mod_two_eq_zero_or_one m with hbit | hbit <;> cases r <;> cases s <;>
    simp [Locates, ExtendedMantissa.accuracy, ExtendedMantissa.roundedMantissa,
      Accuracy.roundToNearestEven, hbit] at h ⊢ <;>
    grind

/-- The mantissa itself forgets the bits that are cut off. -/
theorem mantissa_shiftRight (m : ExtendedMantissa) (k : Nat) :
    (m >>> k).mantissa = m.mantissa / 2 ^ k := by
  induction k with
  | zero =>
    rw [pow_zero, Nat.div_one]
    rfl
  | succ k ih =>
    rw [pow_succ, ← Nat.div_div_eq_div_mul, ← ih]
    rfl

/-- Rounding takes the mantissa or its successor. -/
theorem le_roundedMantissa (m : ExtendedMantissa) : m.mantissa ≤ m.roundedMantissa := by
  obtain ⟨m, r, s⟩ := m
  cases r <;> cases s <;>
    simp [ExtendedMantissa.accuracy, ExtendedMantissa.roundedMantissa,
      Accuracy.roundToNearestEven]

theorem roundedMantissa_le (m : ExtendedMantissa) : m.roundedMantissa ≤ m.mantissa + 1 := by
  obtain ⟨m, r, s⟩ := m
  cases r <;> cases s <;>
    simp [ExtendedMantissa.accuracy, ExtendedMantissa.roundedMantissa,
      Accuracy.roundToNearestEven]
  omega

/-! ## The grid of doubles

The grid has no largest number: what is too large for a double is dealt with afterwards (`clamp`).
It is finer near zero than far from it, so a number is compared with all others in three steps.
Around `x` the grid consists of the multiples of some `2 ^ e`. Where it is coarser, its numbers are
multiples of `2 ^ e` too. Where it is finer, it does not reach as far as `x`, and it ends in a
multiple of `2 ^ e`. -/

/-- The numbers that doubles of unbounded exponent stand for. -/
def Representable (x : ℝ) : Prop :=
  ∃ (k e : ℤ), |k| ≤ 2 ^ 53 ∧ -1074 ≤ e ∧ x = k * (2 : ℕ) ^ e

/-- `v` is a representable number, and none is closer to `x`. -/
def Nearest (v x : ℝ) : Prop :=
  Representable v ∧ ∀ g, Representable g → |v - x| ≤ |g - x|

theorem Representable.neg {x : ℝ} (h : Representable x) : Representable (-x) := by
  obtain ⟨k, e, hk, he, rfl⟩ := h
  exact ⟨-k, e, by rwa [abs_neg], he, by push_cast; ring⟩

theorem Nearest.neg {v x : ℝ} (h : Nearest v x) : Nearest (-v) (-x) := by
  refine ⟨h.1.neg, fun g hg => ?_⟩
  have hflip : |-v - -x| = |v - x| := by rw [← abs_neg]; congr 1; ring
  have hflip' : |g - -x| = |-g - x| := by rw [← abs_neg]; congr 1; ring
  rw [hflip, hflip']
  exact h.2 _ hg.neg

/-- A larger number has no smaller nearest neighbour. -/
theorem Nearest.le {v w x y : ℝ} (hv : Nearest v x) (hw : Nearest w y) (h : x < y) : v ≤ w := by
  have h₁ := hv.2 w hw.1
  have h₂ := hw.2 v hv.1
  -- if `w < v`, then `x` is not below the middle between the two, and `y` is not above it
  by_contra hlt
  grind [abs_le, le_abs]

/-- A multiple of `2 ^ e` that is within half of `2 ^ e` of `x` is nearest to `x`, if no finer grid
reaches as far as `x`. -/
theorem nearest_of_abs_sub_le {r : ℕ} {e : ℤ} {x : ℝ} (hr : r ≤ 2 ^ 53) (he : -1074 ≤ e)
    (hx : 2 ^ (e + 52) ≤ x ∨ e = -1074) (hclose : |r * 2 ^ e - x| ≤ 2 ^ e / 2) :
    Nearest (r * 2 ^ e) x := by
  have hpow : (0 : ℝ) < 2 ^ e := by positivity
  -- every other multiple is farther away
  have multiple (k : ℤ) : |r * 2 ^ e - x| ≤ |k * 2 ^ e - x| := by
    rcases eq_or_ne (k : ℤ) r with rfl | hne
    · simp
    · have hdist : (1 : ℝ) ≤ |(k : ℝ) - r| := by
        exact_mod_cast Int.one_le_abs (sub_ne_zero.2 hne)
      have : 2 ^ e ≤ |(k : ℝ) * 2 ^ e - r * 2 ^ e| := by
        rw [← sub_mul, abs_mul, abs_of_pos hpow]
        nlinarith
      grind [abs_sub_abs_le_abs_sub, abs_sub_comm, abs_sub_le]
  refine ⟨⟨r, e, by exact_mod_cast (by simpa using hr), he, by simp⟩, ?_⟩
  rintro g ⟨k, f, hk, hf, rfl⟩
  rw [Nat.cast_ofNat]
  rcases le_or_gt e f with hle | hlt
  · -- g is a multiple too
    obtain ⟨d, rfl⟩ : ∃ d : ℕ, f = e + d := ⟨(f - e).toNat, by omega⟩
    have := multiple (k * 2 ^ d)
    rw [zpow_add₀ two_ne_zero, zpow_natCast]
    calc _ ≤ _ := this
      _ = _ := by push_cast; ring_nf
  · -- g is on a finer grid, the end of which lies between g and x
    have hbig : 2 ^ (e + 52) ≤ x := hx.resolve_right (by omega)
    have hsmall : (k : ℝ) * 2 ^ f ≤ 2 ^ (e + 52) := by
      have hk' : (k : ℝ) ≤ 2 ^ (53 : ℤ) := by exact_mod_cast (abs_le.1 hk).2
      calc (k : ℝ) * 2 ^ f ≤ 2 ^ (53 : ℤ) * 2 ^ f := by gcongr
        _ = 2 ^ (53 + f) := (zpow_add₀ two_ne_zero _ _).symm
        _ ≤ 2 ^ (e + 52) := zpow_le_zpow_right₀ one_le_two (by omega)
    have := multiple (2 ^ 52)
    have heq : ((2 ^ 52 : ℤ) : ℝ) * 2 ^ e = 2 ^ (e + 52) := by
      rw [zpow_add₀ two_ne_zero]; push_cast; ring_nf
    rw [heq] at this
    refine this.trans ?_
    rw [abs_sub_comm, abs_sub_comm (_ * _), abs_of_nonneg, abs_of_nonneg] <;> linarith

/-! ## Rounding

`roundWithAccuracy` shifts the mantissa to the exponent of the result (`exponent`) and rounds it
(`mantissa`). This may carry into a bit too many, so the mantissa is shifted once more
(`shiftToTargetExponent_eq`). A result is subnormal, with the least exponent of all, or it has all
its 53 bits. The lemmas suppose `e ≤ exponent m e`: bits may have to be cut off, but none are
missing. What computes a result has to see to it that it has enough of them. -/

section Round

variable {s : Sign} {m : Nat} {e : Int} {a : Accuracy} {x : ℝ}

/-- The exponent of the rounded number. -/
def exponent (m : Nat) (e : Int) : Int := max (m.log2 + e - 52) (-1074)

/-- The target exponent leaves at most 53 bits. -/
theorem targetExponent_eq_exponent (m : Nat) (e : Int) :
    Format.binary64.targetExponent (totalExponent m e) = exponent m e := by
  show max ((m.log2 + 1 + e) - (53 : Nat)) (-1074) = max (m.log2 + e - 52) (-1074)
  omega

/-- The mantissa of the rounded number. -/
def mantissa (m : Nat) (e : Int) (a : Accuracy) : Nat :=
  (ExtendedMantissa.ofMantissaAndAccuracy m a >>> (exponent m e - e).toNat).roundedMantissa

theorem ofMantissaAndAccuracy_mantissa (m : Nat) (a : Accuracy) :
    (ExtendedMantissa.ofMantissaAndAccuracy m a).mantissa = m := by
  cases a with
  | exact => rfl
  | inexact o => cases o <;> rfl

/-- Rounding may carry as far as `2 ^ 53`. -/
theorem mantissa_le (h : e ≤ exponent m e) : mantissa m e a ≤ 2 ^ 53 := by
  have hdiv : m / 2 ^ (exponent m e - e).toNat < 2 ^ 53 := by
    rw [Nat.div_lt_iff_lt_mul (by positivity), ← pow_add]
    refine Nat.lt_log2_self.trans_le (Nat.pow_le_pow_right (by decide) ?_)
    unfold exponent at h ⊢
    omega
  have hround := roundedMantissa_le
    (ExtendedMantissa.ofMantissaAndAccuracy m a >>> (exponent m e - e).toNat)
  rw [mantissa_shiftRight, ofMantissaAndAccuracy_mantissa] at hround
  unfold mantissa
  omega

/-- A result that is not subnormal has its leading bit. -/
theorem le_mantissa (h : e ≤ exponent m e) : 2 ^ 52 ≤ mantissa m e a ∨ exponent m e = -1074 := by
  by_cases hmin : exponent m e = -1074
  · exact .inr hmin
  refine .inl (le_trans ?_ (le_roundedMantissa _))
  rw [mantissa_shiftRight, ofMantissaAndAccuracy_mantissa, Nat.le_div_iff_mul_le (by positivity),
    ← pow_add]
  have hlog : 52 + (exponent m e - e).toNat = m.log2 := by
    unfold exponent at h hmin ⊢
    omega
  rw [hlog]
  refine Nat.log2_self_le ?_
  rintro rfl
  simp at hlog

/-- A mantissa of at most 53 bits stays as it is, and `2 ^ 53` loses one bit. -/
theorem shiftToTargetExponent_eq {r : Nat} {e : Int} (hr : r ≤ 2 ^ 53) (he : -1074 ≤ e)
    (hlow : 2 ^ 52 ≤ r ∨ e = -1074) :
    ∃ r' e', shiftToTargetExponent .binary64 r e .exact = (⟨r', false, false⟩, e')
      ∧ r' < 2 ^ 53 ∧ (2 ^ 52 ≤ r' ∨ e' = -1074) ∧ -1074 ≤ e' ∧ (r' * 2 ^ e' : ℝ) = r * 2 ^ e := by
  have shift : shiftToTargetExponent .binary64 r e .exact
      = (ExtendedMantissa.mk r false false >>> (exponent r e - e).toNat,
        e + (exponent r e - e).toNat) := by
    rw [shiftToTargetExponent, targetExponent_eq_exponent]
    rfl
  rcases hr.lt_or_eq with hlt | rfl
  · have hlog : r.log2 ≤ 52 := by
      rcases eq_or_ne r 0 with rfl | hne
      · simp
      · exact Nat.lt_succ_iff.1 ((Nat.log2_lt hne).2 hlt)
    have hzero : (exponent r e - e).toNat = 0 := by
      unfold exponent
      omega
    rw [hzero, Nat.cast_zero, add_zero] at shift
    exact ⟨r, e, shift, hlt, hlow, he, rfl⟩
  · have hone : (exponent (2 ^ 53) e - e).toNat = 1 := by
      rw [exponent, Nat.log2_two_pow]
      omega
    rw [hone] at shift
    refine ⟨2 ^ 52, e + 1, shift, by decide, .inl le_rfl, by omega, ?_⟩
    rw [zpow_add_one₀ two_ne_zero]
    norm_num
    ring

/-- A rounded number is zero, or it has the mantissa and the exponent of a double; only the
exponent may be too large. -/
def Canonical : UnpackedFloat → Prop
  | .finite _ m e _ => m < 2 ^ 53 ∧ (2 ^ 52 ≤ m ∨ e = -1074) ∧ -1074 ≤ e
  | .zero _ => True
  | _ => False

/-- The rounded number has the form of a double, but for the size of its exponent, and the value of
the rounded mantissa at its exponent. -/
theorem roundWithAccuracy_spec (s : Sign) (a : Accuracy) (h : e ≤ exponent m e) :
    Canonical (roundWithAccuracy .binary64 s m e a)
      ∧ extended (roundWithAccuracy .binary64 s m e a)
        = ((s.apply (mantissa m e a) * 2 ^ exponent m e : ℝ) : EReal) := by
  -- the first shift cuts the bits off, the second one undoes a carry
  have first : shiftToTargetExponent .binary64 m e a
      = (ExtendedMantissa.ofMantissaAndAccuracy m a >>> (exponent m e - e).toNat,
        exponent m e) := by
    have hexp : e + ((exponent m e - e).toNat : Int) = exponent m e := by omega
    rw [shiftToTargetExponent, targetExponent_eq_exponent, shiftToExponent]
    exact congrArg _ hexp
  have hexp : -1074 ≤ exponent m e := le_max_right _ _
  obtain ⟨r, f, second, hlt, hlow, hmin, hvalue⟩ :=
    shiftToTargetExponent_eq (mantissa_le (a := a) h) hexp (le_mantissa h)
  have hround : roundWithAccuracy .binary64 s m e a
      = if h : r = 0 then .zero s else .finite s r f (Nat.pos_of_ne_zero h) := by
    rw [roundWithAccuracy, first]
    dsimp only
    rw [← mantissa, second]
  have hvalue' : (s.apply r * 2 ^ f : ℝ) = s.apply (mantissa m e a) * 2 ^ exponent m e := by
    cases s <;> simp [Sign.apply, hvalue]
  rw [hround, ← hvalue']
  by_cases hr : r = 0
  · rw [dif_pos hr, hr]
    exact ⟨trivial, by cases s <;> simp [extended, Sign.apply]⟩
  · rw [dif_neg hr]
    exact ⟨⟨hlt, hlow, hmin⟩, rfl⟩

/-- Rounding finds a nearest number. -/
theorem nearest_mantissa (hx : Locates (.ofMantissaAndAccuracy m a) x) (h : e ≤ exponent m e) :
    Nearest (mantissa m e a * 2 ^ exponent m e) (x * 2 ^ e) := by
  have hpow : (0 : ℝ) < 2 ^ exponent m e := by positivity
  have hshift : (2 : ℝ) ^ exponent m e = 2 ^ (exponent m e - e).toNat * 2 ^ e := by
    rw [← zpow_natCast, ← zpow_add₀ two_ne_zero]
    congr 1
    omega
  have hle : (m : ℝ) ≤ x := by
    cases a with
    | exact => exact hx.ge
    | inexact o =>
      cases o <;>
        simp [Locates, ExtendedMantissa.ofMantissaAndAccuracy, ExtendedMantissa.accuracy] at hx <;>
        linarith [hx]
  refine nearest_of_abs_sub_le (mantissa_le h) (le_max_right _ _) ?_ ?_
  · -- the exponent of the result was chosen by the leading bit of the mantissa
    by_cases hmin : exponent m e = -1074
    · exact .inr hmin
    have hlog : exponent m e + 52 = m.log2 + e := by
      unfold exponent at h hmin ⊢
      omega
    have hm : m ≠ 0 := by
      rintro rfl
      unfold exponent at h hmin
      simp at h hmin
      omega
    have hself : (2 : ℝ) ^ (m.log2 : ℤ) ≤ m := by exact_mod_cast Nat.log2_self_le hm
    left
    rw [hlog, zpow_add₀ two_ne_zero]
    gcongr
    exact hself.trans hle
  · -- at the exponent of the result, one half is half of the spacing of the grid
    have hclose := (hx.shiftRight (exponent m e - e).toNat).abs_sub_le
    calc |mantissa m e a * 2 ^ exponent m e - x * 2 ^ e|
        = |mantissa m e a - x / 2 ^ (exponent m e - e).toNat| * 2 ^ exponent m e := by
          rw [← abs_of_pos hpow, ← abs_mul, abs_of_pos hpow, sub_mul, hshift]
          field_simp
      _ ≤ 1 / 2 * 2 ^ exponent m e := by
          gcongr
          exact hclose
      _ = 2 ^ exponent m e / 2 := by ring

end Round

/-! ## Overflow

The largest exponent of a double is 971. A number with a larger one has all its 53 bits, so it is
`2 ^ 1024` at least, and packing makes it infinite. -/

/-- What becomes of a rounded number if there is no double that large. -/
noncomputable def clamp (v : ℝ) : EReal :=
  if (2 : ℕ) ^ (1024 : ℤ) ≤ v then ⊤ else if v ≤ -(2 : ℕ) ^ (1024 : ℤ) then ⊥ else v

theorem clamp_eq (v : ℝ) :
    clamp v = if 2 ^ (1024 : ℤ) ≤ v then ⊤ else if v ≤ -2 ^ (1024 : ℤ) then ⊥ else (v : EReal) :=
  rfl

theorem clamp_mono {v w : ℝ} (h : v ≤ w) : clamp v ≤ clamp w := by
  unfold clamp
  split_ifs <;> first | linarith | simp [h]

theorem clamp_of_abs_lt {v : ℝ} (h : |v| < 2 ^ (1024 : ℤ)) : clamp v = v := by
  rw [abs_lt] at h
  rw [clamp_eq, if_neg (not_le.2 h.2), if_neg (not_le.2 h.1)]

/-- Packing has no room for a larger exponent. -/
theorem unpack_pack_of_lt {s : Sign} {m : Nat} {e : Int} {hpos : 0 < m} (h : 971 < e) :
    UnpackedFloat.unpack .binary64 (UnpackedFloat.pack .binary64 (.finite s m e hpos))
      = .infinity s := by
  have hbig : 2 ^ Format.binary64.exponentBits ≤ (e + Format.binary64.exponentBias
      + Format.binary64.mantissaBitsWithoutImplicit).toNat + 1 := by
    show 2 ^ 11 ≤ (e + (1023 : Nat) + (52 : Nat)).toNat + 1
    omega
  rw [UnpackedFloat.pack]
  dsimp only
  rw [if_pos hbig]
  cases s <;> rfl

theorem abs_apply (s : Sign) (m : Nat) (e : Int) : |(s.apply m * 2 ^ e : ℝ)| = m * 2 ^ e := by
  have hpow : (0 : ℝ) < 2 ^ e := by positivity
  rw [abs_mul, abs_of_pos hpow]
  cases s <;> simp [Sign.apply]

/-- A rounded number that is packed and unpacked again is the same number, unless it is too large:
then it is infinite. -/
theorem extended_unpack_pack {u : UnpackedFloat} {v : ℝ} (h : Canonical u)
    (hv : extended u = v) :
    UnpackedFloat.unpack .binary64 (UnpackedFloat.pack .binary64 u) ≠ .notANumber
      ∧ extended (UnpackedFloat.unpack .binary64 (UnpackedFloat.pack .binary64 u)) = clamp v := by
  match u with
  | .zero s =>
    obtain rfl : v = 0 := (EReal.coe_eq_zero.1 hv.symm)
    have hzero : IsDouble (.zero s) := trivial
    rw [unpack_pack hzero, clamp_of_abs_lt (by rw [abs_zero]; positivity)]
    exact ⟨nofun, rfl⟩
  | .finite s m e hpos =>
    obtain rfl : s.apply m * 2 ^ e = v := EReal.coe_injective hv
    obtain ⟨hlt, hlow, hmin⟩ := h
    rcases le_or_gt e 971 with hmax | hbig
    · -- a double, which packing does not change
      have hm : (m : ℝ) < 2 ^ (53 : ℤ) := by exact_mod_cast hlt
      have hsmall : (m * 2 ^ e : ℝ) < 2 ^ (1024 : ℤ) := calc
        (m * 2 ^ e : ℝ) < 2 ^ (53 : ℤ) * 2 ^ e := by gcongr
        _ = 2 ^ (53 + e) := (zpow_add₀ two_ne_zero _ _).symm
        _ ≤ 2 ^ (1024 : ℤ) := zpow_le_zpow_right₀ one_le_two (by omega)
      have hdouble : IsDouble (.finite s m e hpos) := ⟨hlt, hlow, hmin, hmax⟩
      rw [unpack_pack hdouble, clamp_of_abs_lt (by rwa [abs_apply])]
      exact ⟨nofun, hv⟩
    · -- the number is out of range, on the side of its sign
      have hm : (2 : ℝ) ^ (52 : ℤ) ≤ m := by exact_mod_cast hlow.resolve_right (by omega)
      have hlarge : (2 : ℝ) ^ (1024 : ℤ) ≤ m * 2 ^ e := calc
        (2 : ℝ) ^ (1024 : ℤ) ≤ 2 ^ (52 + e) := zpow_le_zpow_right₀ one_le_two (by omega)
        _ = 2 ^ (52 : ℤ) * 2 ^ e := zpow_add₀ two_ne_zero _ _
        _ ≤ m * 2 ^ e := by gcongr
      have hbound : (0 : ℝ) < 2 ^ (1024 : ℤ) := by positivity
      rw [unpack_pack_of_lt hbig]
      refine ⟨nofun, ?_⟩
      cases s
      · have hneg : ((Sign.negative.apply m : ℤ) : ℝ) * 2 ^ e = -(m * 2 ^ e) := by
          simp [Sign.apply]
        have hsign : -(m * 2 ^ e : ℝ) < 2 ^ (1024 : ℤ) :=
          (neg_nonpos.2 (hbound.le.trans hlarge)).trans_lt hbound
        rw [hneg, clamp_eq, if_neg (not_le.2 hsign), if_pos (neg_le_neg hlarge)]
        rfl
      · rw [clamp_eq, if_pos (by simpa [Sign.apply] using hlarge)]
        rfl

/-! ## Rounded results

From here on a result is known by `Rounds` alone: it is a nearest number of the grid, cut off where
doubles end. Neither step changes an order, and zero is on the grid, so signs are kept as well. -/

/-- `u` is what rounding makes of `x`. -/
structure Rounds (x : ℝ) (u : UnpackedFloat) : Prop where
  isNumber : u ≠ .notANumber
  nearest : ∃ v, Nearest v x ∧ extended u = clamp v

/-- Rounding does not change the order of two numbers. -/
theorem Rounds.le {x x' : ℝ} {u u' : UnpackedFloat} (h : Rounds x u) (h' : Rounds x' u')
    (hlt : x < x') : extended u ≤ extended u' := by
  obtain ⟨v, hv, hu⟩ := h.nearest
  obtain ⟨w, hw, hu'⟩ := h'.nearest
  rw [hu, hu']
  exact clamp_mono (hv.le hw hlt)

theorem representable_zero : Representable 0 :=
  ⟨0, 0, by simp, by simp, by simp⟩

theorem clamp_zero : clamp 0 = 0 :=
  clamp_of_abs_lt (by rw [abs_zero]; positivity)

/-- Only a positive number is rounded to a positive one. -/
theorem Rounds.pos {x : ℝ} {u : UnpackedFloat} (h : Rounds x u) (hu : 0 < extended u) : 0 < x := by
  obtain ⟨v, hv, hvu⟩ := h.nearest
  have hclose := hv.2 0 representable_zero
  by_contra hx
  have hv0 : v ≤ 0 := by grind [abs_le, le_abs]
  have := clamp_mono hv0
  rw [clamp_zero, ← hvu] at this
  exact absurd hu this.not_gt

/-- A number that is not negative is not rounded to a negative one. -/
theorem Rounds.nonneg {x : ℝ} {u : UnpackedFloat} (h : Rounds x u) (hx : 0 ≤ x) :
    0 ≤ extended u := by
  obtain ⟨v, hv, hvu⟩ := h.nearest
  have hclose := hv.2 0 representable_zero
  have hv0 : 0 ≤ v := by grind [abs_le, le_abs]
  have := clamp_mono hv0
  rwa [clamp_zero, ← hvu] at this

/-- Zero is the only number that is nearest to zero. -/
theorem Rounds.eq_zero {u : UnpackedFloat} (h : Rounds 0 u) : extended u = 0 :=
  le_antisymm (not_lt.1 fun hpos => lt_irrefl 0 (h.pos hpos)) (h.nonneg le_rfl)

/-- The double that packing makes of `u`, unpacked. An operation on doubles packs its result, so
this is how the next operation sees it. -/
abbrev repack (u : UnpackedFloat) : UnpackedFloat :=
  UnpackedFloat.unpack .binary64 (UnpackedFloat.pack .binary64 u)

/-- A magnitude that is known up to what was cut off below its mantissa is rounded correctly. -/
theorem rounds_roundWithAccuracy (s : Sign) {m : Nat} {e : Int} {a : Accuracy} {x : ℝ}
    (hx : Locates (.ofMantissaAndAccuracy m a) x) (h : e ≤ exponent m e) :
    Rounds (s.apply 1 * (x * 2 ^ e)) (repack (roundWithAccuracy .binary64 s m e a)) := by
  obtain ⟨hcanonical, hvalue⟩ := roundWithAccuracy_spec s a h
  obtain ⟨hnumber, hclamp⟩ := extended_unpack_pack hcanonical hvalue
  refine ⟨hnumber, _, ?_, hclamp⟩
  have hnear := nearest_mantissa hx h
  cases s
  · simpa [Sign.apply] using hnear.neg
  · simpa [Sign.apply] using hnear

/-- So is one whose mantissa may be too short: it is filled up first. -/
theorem rounds_round (s : Sign) {m : Nat} (hm : 0 < m) (e : Int) :
    Rounds (s.apply 1 * (m * 2 ^ e)) (repack (UnpackedFloat.round .binary64 s m e)) := by
  -- zeros behind the mantissa change neither the number nor the exponent of the result
  have hexp : exponent (m * 2 ^ (e - exponent m e).toNat) (e - (e - exponent m e).toNat)
      = exponent m e := by
    rw [exponent, log2_mul_two_pow hm, exponent]
    omega
  have h := rounds_roundWithAccuracy s (m := m * 2 ^ (e - exponent m e).toNat)
    (e := e - (e - exponent m e).toNat) (a := .exact) rfl (by rw [hexp]; omega)
  have hvalue : ((m * 2 ^ (e - exponent m e).toNat : ℕ) : ℝ) * 2 ^ (e - (e - exponent m e).toNat)
      = m * 2 ^ e := by
    rw [Nat.cast_mul, mul_assoc]
    push_cast
    rw [← zpow_natCast, ← zpow_add₀ two_ne_zero]
    congr 2
    omega
  dsimp only [ExtendedMantissa.ofMantissaAndAccuracy] at h
  rw [hvalue] at h
  rwa [UnpackedFloat.round, targetExponent_eq_exponent, decreaseExponent, Nat.shiftLeft_eq]

/-- Neither zero is changed. -/
theorem rounds_zero (s : Sign) : Rounds 0 (repack (.zero s)) := by
  have hzero : IsDouble (.zero s) := trivial
  rw [repack, unpack_pack hzero]
  exact ⟨nofun, 0, ⟨representable_zero, fun g _ => by simp⟩, clamp_zero.symm⟩

/-- And so is a sum, whose mantissa has its sign with it. -/
theorem rounds_normalize (m : Int) (e : Int) :
    Rounds (m * 2 ^ e) (repack (UnpackedFloat.normalize .binary64 m e .positive)) := by
  rcases lt_trichotomy m 0 with h | rfl | h
  · have hcast : (((-m).toNat : ℕ) : ℝ) = -m := by
      have : (((-m).toNat : ℤ) : ℝ) = ((-m : ℤ) : ℝ) := by
        rw [Int.toNat_of_nonneg (by omega)]
      exact_mod_cast this
    rw [UnpackedFloat.normalize, compare_lt_iff_lt.2 h]
    have := rounds_round .negative (m := (-m).toNat) (by omega) e
    rw [hcast] at this
    simpa [Sign.apply] using this
  · rw [Int.cast_zero, zero_mul]
    exact rounds_zero .positive
  · have hcast : ((m.toNat : ℕ) : ℝ) = m := by
      have : ((m.toNat : ℤ) : ℝ) = m := by
        rw [Int.toNat_of_nonneg h.le]
      exact_mod_cast this
    rw [UnpackedFloat.normalize, compare_gt_iff_gt.2 h]
    have := rounds_round .positive (m := m.toNat) (by omega) e
    rw [hcast] at this
    simpa [Sign.apply] using this

end LeastSquares.Double
