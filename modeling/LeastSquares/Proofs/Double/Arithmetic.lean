/-
LeastSquares.Proofs.Double.Arithmetic — the operations on doubles, and the order of their results.

Each operation on finite doubles rounds the exact result (`Stands.add`, `Stands.mul`, `Stands.div`).
With what rounding keeps of the order, and a look at the infinite operands, this says which
operands a result of known sign can come from.

No bound on the rounding error is needed for this. The solvers compare computed numbers, and it is
the order of what has been computed that their theory has to speak of. Rounding is monotone, so most
facts about the order of exact results survive it, without any condition on the operands.

* `lt_of_sub_pos` — a positive difference has the larger number first.
* `pos_of_div_pos` — a positive quotient by a positive number has a positive dividend.
* `half_le_half` — halves are in the order of the numbers that they are halves of.
* `add_nonneg`, `mul_self_nonneg` — sums of squares are not negative, and are numbers.
-/
import Mathlib
import LeastSquares.Proofs.Double.Rounding

namespace LeastSquares.Double

open Float.Model Float.Model.UnpackedFloat

/-! ## Operations

An operation first computes its result as a sign, a mantissa and an exponent: that of a product or a
sum is exact, that of a quotient comes with a note of the remainder. Then it is rounded. So there
are two things to say about what the rounding is given. It is the exact result, up to the note
(`hvalue`), and it lacks none of the bits that the result keeps (`hexp`). Zeros have no mantissa,
and are cases of their own. -/

/-- `u` stands for the real number `x`. -/
def Stands (u : UnpackedFloat) (x : ℝ) : Prop :=
  u.isFinite = true ∧ extended u = x

/-- By the forms of what is finite. A zero stands for a number, too, but has no mantissa to compute
with. -/
theorem Stands.cases {u : UnpackedFloat} {x : ℝ} (h : Stands u x) :
    (∃ s, u = .zero s ∧ x = 0) ∨ ∃ s m e hpos, u = .finite s m e hpos ∧ x = s.apply m * 2 ^ e := by
  obtain ⟨hfinite, hx⟩ := h
  match u with
  | .notANumber => contradiction
  | .infinity _ => contradiction
  | .zero s => exact .inl ⟨s, rfl, EReal.coe_eq_zero.1 hx.symm⟩
  | .finite s m e hpos => exact .inr ⟨s, m, e, hpos, rfl, (EReal.coe_injective hx).symm⟩

/-- A double is what rounding makes of the number that it stands for. -/
theorem rounds_self {u : UnpackedFloat} {x : ℝ} (hu : IsDouble u) (h : Stands u x) :
    Rounds x (repack u) := by
  rcases h.cases with ⟨s, rfl, rfl⟩ | ⟨s, m, e, hpos, rfl, rfl⟩
  · exact rounds_zero s
  · obtain ⟨hlt, hlow, hmin, -⟩ := hu
    obtain ⟨hnumber, hclamp⟩ :=
      extended_unpack_pack (u := .finite s m e hpos) ⟨hlt, hlow, hmin⟩ h.2
    refine ⟨hnumber, s.apply m * 2 ^ e, ⟨⟨s.apply m, e, ?_, hmin, rfl⟩, fun g _ => ?_⟩, hclamp⟩
    · cases s <;> simp only [Sign.apply, abs_le] <;> omega
    · -- no number is nearer to it than itself
      rw [sub_self, abs_zero]
      exact abs_nonneg _

/-- A sign is a factor. -/
theorem apply_eq (s : Sign) (m : Nat) : ((s.apply m : ℤ) : ℝ) = (s.apply 1 : ℤ) * m := by
  cases s <;> simp [Sign.apply]

/-- Signs are multiplied as the factors that they are. -/
theorem apply_mul (s t : Sign) :
    (((s * t).apply 1 : ℤ) : ℝ) = (s.apply 1 : ℤ) * (t.apply 1 : ℤ) := by
  cases s <;> cases t <;> simp [Sign.apply]

section Operations

variable {u v : UnpackedFloat} {x y : ℝ}

/-- The product of two doubles is rounded once. -/
theorem Stands.mul (hu : IsDouble u) (hv : IsDouble v) (hx : Stands u x) (hy : Stands v y) :
    Rounds (x * y) (repack (UnpackedFloat.mul .binary64 u v)) := by
  rcases hx.cases with ⟨s, rfl, rfl⟩ | ⟨s, m, e, hm, rfl, rfl⟩
  · rw [zero_mul]
    rcases hy.cases with ⟨t, rfl, -⟩ | ⟨t, n, f, hn, rfl, -⟩ <;> exact rounds_zero (s * t)
  rcases hy.cases with ⟨t, rfl, rfl⟩ | ⟨t, n, f, hn, rfl, rfl⟩
  · rw [mul_zero]
    exact rounds_zero (s * t)
  · obtain ⟨hlt₁, hlow₁, hmin₁, -⟩ := hu
    obtain ⟨hlt₂, hlow₂, hmin₂, -⟩ := hv
    -- one full mantissa makes the product long enough, and two short ones have the least exponent
    have hexp : e + f ≤ exponent (m * n) (e + f) := by
      have hlog (hbig : 2 ^ 52 ≤ m ∨ 2 ^ 52 ≤ n) : 52 ≤ (m * n).log2 := by
        rw [Nat.le_log2 (Nat.mul_pos hm hn).ne']
        rcases hbig with h | h
        · exact h.trans (Nat.le_mul_of_pos_right m hn)
        · exact h.trans (Nat.le_mul_of_pos_left n hm)
      unfold exponent
      rcases hlow₁ with h | h
      · have := hlog (.inl h)
        omega
      · rcases hlow₂ with h' | h'
        · have := hlog (.inr h')
          omega
        · omega
    have h := rounds_roundWithAccuracy (s * t) (a := .exact) (m := m * n) (x := (m * n : ℕ)) rfl
      hexp
    have hvalue : ((s * t).apply 1 : ℝ) * ((m * n : ℕ) * 2 ^ (e + f))
        = s.apply m * 2 ^ e * (t.apply n * 2 ^ f) := by
      rw [zpow_add₀ two_ne_zero, apply_mul, apply_eq s m, apply_eq t n, Nat.cast_mul]
      ring
    rw [hvalue] at h
    exact h

/-- The remainder of a division says where the quotient lies. -/
theorem locates_div (m : Nat) {n : Nat} (hn : 0 < n) :
    Locates (.ofMantissaAndAccuracy (m / n) (accuracyOfFraction (m % n) n)) (m / n : ℝ) := by
  have hn' : (0 : ℝ) < n := Nat.cast_pos.2 hn
  have hmod : (m : ℝ) = (m / n : ℕ) * n + (m % n : ℕ) := by
    exact_mod_cast (Nat.div_add_mod' m n).symm
  have hsplit : (m / n : ℝ) = (m / n : ℕ) + (m % n : ℕ) / n := by
    rw [div_eq_iff hn'.ne', add_mul, div_mul_cancel₀ _ hn'.ne']
    exact hmod
  have hlt : ((m % n : ℕ) : ℝ) / n < 1 := (div_lt_one hn').2 (Nat.cast_lt.2 (Nat.mod_lt m hn))
  rw [hsplit, accuracyOfFraction]
  -- there is no remainder, or it is compared with one half of the divisor
  split_ifs with hzero
  · rw [hzero, Nat.cast_zero, zero_div, add_zero]
    rfl
  · -- the fraction lies in the lower half, in the middle or in the upper half
    have hpos : (0 : ℝ) < (m % n : ℕ) / n := div_pos (Nat.cast_pos.2 (Nat.pos_of_ne_zero hzero)) hn'
    have horder := (compare_iff (2 * (m % n)) n).1 rfl
    cases hc : compare (2 * (m % n)) n <;> rw [hc] at horder
    · have hhalf : ((m % n : ℕ) : ℝ) / n < 1 / 2 := by
        rw [div_lt_iff₀ hn']
        have : (2 * (m % n : ℕ) : ℝ) < n := by exact_mod_cast horder
        linarith
      have hnear : ((m / n : ℕ) : ℝ) + (m % n : ℕ) / n - (m / n : ℕ)
          < (m / n : ℕ) + 1 - ((m / n : ℕ) + (m % n : ℕ) / n) := by linarith
      exact ⟨lt_add_of_pos_right _ hpos, hnear⟩
    · have hhalf : ((m % n : ℕ) : ℝ) / n = 1 / 2 := by
        rw [div_eq_iff hn'.ne']
        have : (2 * (m % n : ℕ) : ℝ) = n := by exact_mod_cast horder
        linarith
      have hmiddle : ((m / n : ℕ) : ℝ) + (m % n : ℕ) / n - (m / n : ℕ)
          = (m / n : ℕ) + 1 - ((m / n : ℕ) + (m % n : ℕ) / n) := by linarith
      exact hmiddle
    · have hhalf : 1 / 2 < ((m % n : ℕ) : ℝ) / n := by
        rw [lt_div_iff₀ hn']
        have : (n : ℝ) < 2 * (m % n : ℕ) := by exact_mod_cast horder
        linarith
      have hfar : ((m / n : ℕ) : ℝ) + 1 - ((m / n : ℕ) + (m % n : ℕ) / n)
          < (m / n : ℕ) + (m % n : ℕ) / n - (m / n : ℕ) := by linarith
      exact ⟨hfar, add_lt_add_right hlt _⟩

/-- The dividend is shifted far enough that the quotient has all bits of a double. -/
theorem divCore_eq {m n : Nat} (e f : Int) (hm : 0 < m) (hn : 0 < n) (hlt : m < 2 ^ 53) :
    ∃ k : Nat, divCore .binary64 m e n f
        = (m * 2 ^ k / n, e - f - k, accuracyOfFraction (m * 2 ^ k % n) n)
      ∧ e - f - k ≤ exponent (m * 2 ^ k / n) (e - f - k) := by
  have hlog : m.log2 < 53 := (Nat.log2_lt hm.ne').2 hlt
  have htarget : Format.binary64.targetExponent (totalExponent m e - totalExponent n f)
      = max (m.log2 + e - n.log2 - f - 53) (-1074) := by
    show max ((m.log2 + 1 + e - (n.log2 + 1 + f)) - (53 : Nat)) (-1074) = _
    omega
  -- the exponent of the quotient is lowered only, so the shift is a natural number
  obtain ⟨k, hk⟩ : ∃ k : Nat,
      min (e - f) (max (m.log2 + e - n.log2 - f - 53) (-1074)) = e - f - k :=
    ⟨(e - f - min (e - f) (max (m.log2 + e - n.log2 - f - 53) (-1074))).toNat, by omega⟩
  refine ⟨k, ?_, ?_⟩
  · have hshift : (e - f - (e - f - k)).toNat = k := by omega
    rw [divCore, htarget, hk, hshift, Nat.shiftLeft_eq]
  · rcases le_or_gt (e - f - k) (-1074) with hle | hgt
    · -- the smallest exponent is as low as that of any double
      exact hle.trans (le_max_right _ _)
    · -- with 53 bits more than the divisor, the dividend has a quotient of 53 bits at least
      have hbits : m.log2 + k = n.log2 + 53 := by omega
      have hquotient : 2 ^ 52 ≤ m * 2 ^ k / n := by
        rw [Nat.le_div_iff_mul_le hn]
        calc 2 ^ 52 * n ≤ 2 ^ 52 * 2 ^ (n.log2 + 1) := Nat.mul_le_mul_left _ Nat.lt_log2_self.le
          _ = 2 ^ m.log2 * 2 ^ k := by
            rw [← pow_add, ← pow_add, hbits]
            congr 1
            omega
          _ ≤ m * 2 ^ k := Nat.mul_le_mul_right _ (Nat.log2_self_le hm.ne')
      have : 52 ≤ (m * 2 ^ k / n).log2 :=
        (Nat.le_log2 (Nat.two_pow_pos 52 |>.trans_le hquotient).ne').2 hquotient
      unfold exponent
      omega

/-- The quotient of two doubles is rounded once. -/
theorem Stands.div (hu : IsDouble u) (hx : Stands u x) (hy : Stands v y) (hne : y ≠ 0) :
    Rounds (x / y) (repack (UnpackedFloat.div .binary64 u v)) := by
  rcases hy.cases with ⟨t, rfl, rfl⟩ | ⟨t, n, f, hn, rfl, rfl⟩
  · exact absurd rfl hne
  rcases hx.cases with ⟨s, rfl, rfl⟩ | ⟨s, m, e, hm, rfl, rfl⟩
  · rw [zero_div]
    exact rounds_zero (s / t)
  · obtain ⟨k, hcore, hexp⟩ := divCore_eq e f hm hn hu.1
    have h := rounds_roundWithAccuracy (s / t) (locates_div (m * 2 ^ k) hn) hexp
    have hvalue : ((s / t).apply 1 : ℝ) * ((m * 2 ^ k : ℕ) / n * 2 ^ (e - f - k))
        = s.apply m * 2 ^ e / (t.apply n * 2 ^ f) := by
      have hsign : (((s / t).apply 1 : ℤ) : ℝ) = (s.apply 1 : ℤ) / (t.apply 1 : ℤ) := by
        have hdiv : s / t = s * t := by cases s <;> cases t <;> rfl
        rw [hdiv, apply_mul]
        cases s <;> cases t <;> simp [Sign.apply]
      have ht : ((t.apply 1 : ℤ) : ℝ) ≠ 0 := by cases t <;> simp [Sign.apply]
      have hn' : (n : ℝ) ≠ 0 := Nat.cast_ne_zero.2 hn.ne'
      -- the shift is in the mantissa and in the exponent, and cancels
      rw [hsign, apply_eq s m, apply_eq t n, zpow_sub₀ two_ne_zero, zpow_sub₀ two_ne_zero,
        zpow_natCast]
      push_cast
      field_simp
    rw [hvalue] at h
    rw [UnpackedFloat.div, hcore]
    exact h

/-- The sum of two doubles is rounded once. -/
theorem Stands.add (hu : IsDouble u) (hv : IsDouble v) (hx : Stands u x) (hy : Stands v y) :
    Rounds (x + y) (repack (UnpackedFloat.add .binary64 u v)) := by
  rcases hx.cases with ⟨s, rfl, rfl⟩ | ⟨s, m, e, hm, rfl, rfl⟩
  · rw [zero_add]
    rcases hy.cases with ⟨t, rfl, rfl⟩ | ⟨t, n, f, hn, rfl, rfl⟩
    · cases s <;> cases t <;> exact rounds_zero _
    · -- the other number itself, which rounding leaves alone
      exact rounds_self hv hy
  rcases hy.cases with ⟨t, rfl, rfl⟩ | ⟨t, n, f, hn, rfl, rfl⟩
  · rw [add_zero]
    exact rounds_self hu hx
  · have h := rounds_normalize (s.apply (decreaseExponent m e (min e f)).1
      + t.apply (decreaseExponent n f (min e f)).1) (min e f)
    -- both numbers are brought to the smaller exponent, which changes neither
    have hvalue (s : Sign) (m : Nat) (e g : Int) (hg : g ≤ e) :
        ((s.apply (decreaseExponent m e g).1 : ℤ) : ℝ) * 2 ^ g = s.apply m * 2 ^ e := by
      have hpow : ((2 ^ (e - g).toNat : ℕ) : ℝ) * 2 ^ g = 2 ^ e := by
        push_cast
        rw [← zpow_natCast, ← zpow_add₀ two_ne_zero]
        congr 1
        omega
      rw [decreaseExponent, apply_eq, Nat.shiftLeft_eq, Nat.cast_mul, apply_eq s m, ← hpow]
      ring
    rw [Int.cast_add, add_mul, hvalue _ _ _ _ (min_le_left e f), hvalue _ _ _ _ (min_le_right e f)]
      at h
    exact h

end Operations

/-! ## Signs of results

Rounding does not move a number over zero (`Rounds.pos`), so between finite operands the sign of a
result is the sign of the exact one. With an infinite operand, or one that is no number, nothing is
rounded, and the result can be looked up: it is one of the few forms without a mantissa. The proofs
are tables of all forms of the operands, in which `finite` stands for the first kind of entries and
`result` for the second. -/

section Signs

variable {u v : UnpackedFloat}

/-- The opposite sign gives the opposite number. -/
theorem apply_neg (s : Sign) (n : Int) : (-s).apply n = -s.apply n := by
  cases s with
  | negative => exact (neg_neg n).symm
  | positive => rfl

/-- A difference is computed like the sum with the negative number. -/
theorem sub_eq_add_neg (u v : UnpackedFloat) :
    UnpackedFloat.sub .binary64 u v = UnpackedFloat.add .binary64 u v.neg := by
  cases u with
  | finite s m e hm =>
    cases v with
    | finite t n f hn =>
      simp only [UnpackedFloat.sub, UnpackedFloat.neg, UnpackedFloat.add, apply_neg,
        Int.sub_eq_add_neg]
    | _ => rfl
  | _ => cases v <;> rfl

/-- The bounds of `IsDouble` do not speak of the sign. -/
theorem isDouble_neg (h : IsDouble u) : IsDouble u.neg := by
  cases u <;> exact h

/-- Negation is exact. -/
theorem Stands.neg {x : ℝ} (h : Stands u x) : Stands u.neg (-x) := by
  rcases h.cases with ⟨s, rfl, rfl⟩ | ⟨s, m, e, hm, rfl, rfl⟩
  · exact ⟨rfl, by simp [UnpackedFloat.neg, extended]⟩
  · refine ⟨rfl, ?_⟩
    rw [UnpackedFloat.neg, extended_finite, apply_neg, Int.cast_neg, neg_mul]

/-- Everything finite stands for a number, and a zero for zero. -/
theorem exists_stands (h : u.isFinite = true) : ∃ x, Stands u x := by
  match u with
  | .notANumber => contradiction
  | .infinity _ => contradiction
  | .zero s => exact ⟨0, rfl, rfl⟩
  | .finite s m e _ => exact ⟨s.apply m * 2 ^ e, rfl, rfl⟩

/-- What has the form of a double already is not rounded. -/
theorem repack_of_isDouble (h : IsDouble u) : repack u = u :=
  unpack_pack h

/-- What stands for a number is one. -/
theorem Stands.ne_notANumber {x : ℝ} (h : Stands u x) : u ≠ .notANumber := by
  rintro rfl
  exact absurd h.1 Bool.false_ne_true

/-- A difference is positive only if the first number is the larger one. -/
theorem lt_of_sub_pos_unpacked (hu : IsDouble u) (hv : IsDouble v)
    (hnumber : repack (UnpackedFloat.sub .binary64 u v) ≠ .notANumber)
    (hpos : 0 < extended (repack (UnpackedFloat.sub .binary64 u v))) :
    u ≠ .notANumber ∧ v ≠ .notANumber ∧ extended v < extended u := by
  have finite (hu' : u.isFinite = true) (hv' : v.isFinite = true) :
      u ≠ .notANumber ∧ v ≠ .notANumber ∧ extended v < extended u := by
    obtain ⟨x, hx⟩ := exists_stands hu'
    obtain ⟨y, hy⟩ := exists_stands hv'
    rw [sub_eq_add_neg] at hpos
    have hlt := (hx.add hu (isDouble_neg hv) hy.neg).pos hpos
    refine ⟨hx.ne_notANumber, hy.ne_notANumber, ?_⟩
    rw [hx.2, hy.2, EReal.coe_lt_coe_iff]
    linarith
  have result {w : UnpackedFloat} (h : UnpackedFloat.sub .binary64 u v = w) (hw : IsDouble w) :
      w ≠ .notANumber ∧ 0 < extended w := by
    rw [h, repack_of_isDouble hw] at hnumber hpos
    exact ⟨hnumber, hpos⟩
  -- with an infinite operand the result is infinite or no number, and needs no rounding
  match u, v with
  | .notANumber, _ => exact absurd rfl (result rfl trivial).1
  | .infinity _, .notANumber => exact absurd rfl (result rfl trivial).1
  | .zero _, .notANumber => exact absurd rfl (result rfl trivial).1
  | .finite .., .notANumber => exact absurd rfl (result rfl trivial).1
  | .infinity .positive, .infinity .positive => exact absurd rfl (result rfl trivial).1
  | .infinity .negative, .infinity .negative => exact absurd rfl (result rfl trivial).1
  | .infinity .negative, .infinity .positive => exact absurd (result rfl trivial).2 not_lt_bot
  | .infinity .negative, .zero _ => exact absurd (result rfl trivial).2 not_lt_bot
  | .infinity .negative, .finite .. => exact absurd (result rfl trivial).2 not_lt_bot
  | .zero _, .infinity .positive => exact absurd (result rfl trivial).2 not_lt_bot
  | .finite .., .infinity .positive => exact absurd (result rfl trivial).2 not_lt_bot
  | .infinity .positive, .infinity .negative => exact ⟨nofun, nofun, bot_lt_top⟩
  | .infinity .positive, .zero _ => exact ⟨nofun, nofun, EReal.coe_lt_top _⟩
  | .infinity .positive, .finite .. => exact ⟨nofun, nofun, EReal.coe_lt_top _⟩
  | .zero _, .infinity .negative => exact ⟨nofun, nofun, EReal.bot_lt_coe _⟩
  | .finite .., .infinity .negative => exact ⟨nofun, nofun, EReal.bot_lt_coe _⟩
  | .zero _, .zero _ => exact finite rfl rfl
  | .zero _, .finite .. => exact finite rfl rfl
  | .finite .., .zero _ => exact finite rfl rfl
  | .finite .., .finite .. => exact finite rfl rfl

/-- A quotient by a positive number is positive only if the dividend is. -/
theorem pos_of_div_pos_unpacked (hu : IsDouble u) (hv : 0 < extended v)
    (hnumber : repack (UnpackedFloat.div .binary64 u v) ≠ .notANumber)
    (hpos : 0 < extended (repack (UnpackedFloat.div .binary64 u v))) :
    u ≠ .notANumber ∧ 0 < extended u := by
  have result {w : UnpackedFloat} (h : UnpackedFloat.div .binary64 u v = w) (hw : IsDouble w) :
      w ≠ .notANumber ∧ 0 < extended w := by
    rw [h, repack_of_isDouble hw] at hnumber hpos
    exact ⟨hnumber, hpos⟩
  -- first the divisors that are not positive, then the dividends with an infinite or finite divisor
  match u, v with
  | _, .notANumber => exact absurd hv (lt_irrefl 0)
  | _, .infinity .negative => exact absurd hv not_lt_bot
  | _, .zero _ => exact absurd hv (lt_irrefl 0)
  | .notANumber, .infinity .positive => exact absurd rfl (result rfl trivial).1
  | .notANumber, .finite .. => exact absurd rfl (result rfl trivial).1
  | .infinity _, .infinity .positive => exact absurd rfl (result rfl trivial).1
  | .zero _, .infinity .positive => exact absurd (result rfl trivial).2 (lt_irrefl 0)
  | .finite .., .infinity .positive => exact absurd (result rfl trivial).2 (lt_irrefl 0)
  | .zero _, .finite .. => exact absurd (result rfl trivial).2 (lt_irrefl 0)
  | .infinity .negative, .finite .positive .. => exact absurd (result rfl trivial).2 not_lt_bot
  | .infinity .positive, .finite .. => exact ⟨nofun, EReal.coe_lt_top 0⟩
  | .infinity .negative, .finite .negative n f hn =>
    rw [extended_negative] at hv
    exact absurd hv (EReal.neg_lt_zero.2 (EReal.coe_pos.2 (magnitude_pos hn f))).not_gt
  | .finite s m e hm, .finite t n f hn =>
    have hy : (0 : ℝ) < t.apply n * 2 ^ f := EReal.coe_pos.1 hv
    have hx := (Stands.div hu ⟨rfl, rfl⟩ ⟨rfl, rfl⟩ hy.ne').pos hpos
    exact ⟨nofun, EReal.coe_pos.2 ((div_pos_iff_of_pos_right hy).1 hx)⟩

end Signs

/-! ## Products with a positive number

Rounding keeps the order of two different numbers (`Rounds.le`). For halves this is not enough: they
have to be in order where the numbers are equal, too. Equal numbers are the same double, apart from
zero, and a product with zero is zero in either form. -/

section Scale

variable {u v : UnpackedFloat} {x y : ℝ}

/-- Only zero has two forms. -/
theorem eq_of_stands (hu : IsDouble u) (hv : IsDouble v) (hx : Stands u x) (hy : Stands v x)
    (hne : x ≠ 0) : u = v := by
  have hcompare : UnpackedFloat.compare u v = some .eq := by
    rw [compare_eq hu hv hx.ne_notANumber hy.ne_notANumber, hx.2, hy.2, compare_eq_iff_eq.2 rfl]
  rcases hx.cases with ⟨s, rfl, rfl⟩ | ⟨s, m, e, hm, rfl, hs⟩
  · exact absurd rfl hne
  rcases hy.cases with ⟨t, rfl, rfl⟩ | ⟨t, n, f, hn, rfl, ht⟩
  · exact absurd rfl hne
  cases s <;> cases t <;> simp_all [UnpackedFloat.compare, Ordering.then_eq_eq, Ordering.swap_eq_eq]

variable {c : UnpackedFloat} {m : Nat} {e : Int} {hm : 0 < m}

/-- Multiplication by a positive number does not change the order of two numbers. -/
theorem extended_mul_le (hc : IsDouble (.finite .positive m e hm)) (hu : IsDouble u)
    (hv : IsDouble v) (hu' : u ≠ .notANumber) (hv' : v ≠ .notANumber)
    (h : extended u ≤ extended v) :
    extended (repack (UnpackedFloat.mul .binary64 (.finite .positive m e hm) u))
      ≤ extended (repack (UnpackedFloat.mul .binary64 (.finite .positive m e hm) v)) := by
  -- an infinite operand stays what it is
  have bottom : extended (repack (UnpackedFloat.mul .binary64 (.finite .positive m e hm)
      (.infinity .negative))) = ⊥ := by
    rw [repack_of_isDouble (u := UnpackedFloat.mul .binary64 (.finite .positive m e hm)
      (.infinity .negative)) trivial]
    rfl
  have top : extended (repack (UnpackedFloat.mul .binary64 (.finite .positive m e hm)
      (.infinity .positive))) = ⊤ := by
    rw [repack_of_isDouble (u := UnpackedFloat.mul .binary64 (.finite .positive m e hm)
      (.infinity .positive)) trivial]
    rfl
  have finite (hu' : u.isFinite = true) (hv' : v.isFinite = true) :
      extended (repack (UnpackedFloat.mul .binary64 (.finite .positive m e hm) u))
      ≤ extended (repack (UnpackedFloat.mul .binary64 (.finite .positive m e hm) v)) := by
    obtain ⟨x, hx⟩ := exists_stands hu'
    obtain ⟨y, hy⟩ := exists_stands hv'
    rw [hx.2, hy.2, EReal.coe_le_coe_iff] at h
    have hr : Stands (.finite .positive m e hm) (m * 2 ^ e) := ⟨rfl, extended_positive hm⟩
    rcases h.lt_or_eq with hlt | rfl
    · -- the exact products are in order, so the rounded ones are
      exact (hr.mul hc hu hx).le (hr.mul hc hv hy)
        (mul_lt_mul_of_pos_left hlt (magnitude_pos hm e))
    · rcases eq_or_ne x 0 with rfl | hne
      · have hzero := hr.mul hc hu hx
        rw [mul_zero] at hzero
        have hzero' := hr.mul hc hv hy
        rw [mul_zero] at hzero'
        rw [hzero.eq_zero, hzero'.eq_zero]
      · rw [eq_of_stands hu hv hx hy hne]
  match u, v with
  | .notANumber, _ => exact absurd rfl hu'
  | _, .notANumber => exact absurd rfl hv'
  | .infinity .negative, _ => exact bottom.trans_le bot_le
  | _, .infinity .positive => exact le_top.trans_eq top.symm
  | .infinity .positive, .infinity .negative => exact absurd h bot_lt_top.not_ge
  | .infinity .positive, .zero _ => exact absurd h (EReal.coe_lt_top 0).not_ge
  | .infinity .positive, .finite .. => exact absurd h (EReal.coe_lt_top _).not_ge
  | .zero _, .infinity .negative => exact absurd h (EReal.bot_lt_coe 0).not_ge
  | .finite .., .infinity .negative => exact absurd h (EReal.bot_lt_coe _).not_ge
  | .zero _, .zero _ => exact finite rfl rfl
  | .zero _, .finite .. => exact finite rfl rfl
  | .finite .., .zero _ => exact finite rfl rfl
  | .finite .., .finite .. => exact finite rfl rfl

/-- A product with a positive number is a number if and only if the other factor is one. -/
theorem mul_eq_notANumber_iff (hc : IsDouble (.finite .positive m e hm)) (hu : IsDouble u) :
    repack (UnpackedFloat.mul .binary64 (.finite .positive m e hm) u) = .notANumber
      ↔ u = .notANumber := by
  have finite (hu' : u.isFinite = true) :
      repack (UnpackedFloat.mul .binary64 (.finite .positive m e hm) u) = .notANumber
        ↔ u = .notANumber := by
    obtain ⟨x, hx⟩ := exists_stands hu'
    have hr : Stands (.finite .positive m e hm) (m * 2 ^ e) := ⟨rfl, extended_positive hm⟩
    exact iff_of_false (hr.mul hc hu hx).isNumber hx.ne_notANumber
  have other {w : UnpackedFloat}
      (h : UnpackedFloat.mul .binary64 (.finite .positive m e hm) u = w) (hw : IsDouble w)
      (hiff : w = .notANumber ↔ u = .notANumber) :
      repack (UnpackedFloat.mul .binary64 (.finite .positive m e hm) u) = .notANumber
        ↔ u = .notANumber := by
    rw [h, repack_of_isDouble hw, hiff]
  match u with
  | .notANumber => exact other rfl trivial Iff.rfl
  | .infinity _ => exact other rfl trivial (iff_of_false nofun nofun)
  | .zero _ => exact finite rfl
  | .finite .. => exact finite rfl

end Scale

/-! ## Sums of squares

What the solvers minimize is a sum of squares, and they take it for granted that it is not negative.
Nothing can go wrong but that a result is no number, and that takes two infinite terms of different
signs in a sum, or zero and an infinite factor in a product: neither occurs among squares. -/

section Squares

variable {u v : UnpackedFloat}

/-- A number that is not negative. -/
def IsNonneg (u : UnpackedFloat) : Prop :=
  u ≠ .notANumber ∧ 0 ≤ extended u

/-- A sum of two terms that are not negative is a number: opposite infinities do not meet in it. -/
theorem IsNonneg.add (hu : IsDouble u) (hv : IsDouble v) (hu' : IsNonneg u) (hv' : IsNonneg v) :
    IsNonneg (repack (UnpackedFloat.add .binary64 u v)) := by
  have finite (hfu : u.isFinite = true) (hfv : v.isFinite = true) :
      IsNonneg (repack (UnpackedFloat.add .binary64 u v)) := by
    obtain ⟨x, hx⟩ := exists_stands hfu
    obtain ⟨y, hy⟩ := exists_stands hfv
    have hx0 : 0 ≤ x := EReal.coe_nonneg.1 (hx.2 ▸ hu'.2)
    have hy0 : 0 ≤ y := EReal.coe_nonneg.1 (hy.2 ▸ hv'.2)
    have h := hx.add hu hv hy
    exact ⟨h.isNumber, h.nonneg (add_nonneg hx0 hy0)⟩
  have top (h : UnpackedFloat.add .binary64 u v = .infinity .positive) :
      IsNonneg (repack (UnpackedFloat.add .binary64 u v)) := by
    rw [h]
    exact ⟨nofun, le_top⟩
  have bot : ¬ (0 : EReal) ≤ ⊥ := EReal.bot_lt_zero.not_ge
  match u, v with
  | .notANumber, _ => exact absurd rfl hu'.1
  | _, .notANumber => exact absurd rfl hv'.1
  | .infinity .negative, _ => exact absurd hu'.2 bot
  | _, .infinity .negative => exact absurd hv'.2 bot
  | .infinity .positive, .infinity .positive => exact top rfl
  | .infinity .positive, .zero _ => exact top rfl
  | .infinity .positive, .finite .. => exact top rfl
  | .zero _, .infinity .positive => exact top rfl
  | .finite .., .infinity .positive => exact top rfl
  | .zero _, .zero _ => exact finite rfl rfl
  | .zero _, .finite .. => exact finite rfl rfl
  | .finite .., .zero _ => exact finite rfl rfl
  | .finite .., .finite .. => exact finite rfl rfl

/-- A square is infinite, or the square of a finite number. -/
theorem isNonneg_mul_self (hu : IsDouble u) (hu' : u ≠ .notANumber) :
    IsNonneg (repack (UnpackedFloat.mul .binary64 u u)) := by
  have finite (hfu : u.isFinite = true) : IsNonneg (repack (UnpackedFloat.mul .binary64 u u)) := by
    obtain ⟨x, hx⟩ := exists_stands hfu
    have h := hx.mul hu hu hx
    exact ⟨h.isNumber, h.nonneg (mul_self_nonneg x)⟩
  match u with
  | .notANumber => exact absurd rfl hu'
  | .infinity s => cases s <;> exact ⟨nofun, le_top⟩
  | .zero _ => exact finite rfl
  | .finite .. => exact finite rfl

end Squares

/-! ## Doubles

An operation on `Float` unpacks its operands and packs its result. So `repack` is what stands
between the lemmas above and those about doubles. -/

section Doubles

variable {a b : Float}

/-! The three operations in this form, by definition. -/

theorem unpack_sub (a b : Float) : (a - b).toModel.unpack
    = repack (UnpackedFloat.sub .binary64 a.toModel.unpack b.toModel.unpack) :=
  rfl

theorem unpack_mul (a b : Float) : (a * b).toModel.unpack
    = repack (UnpackedFloat.mul .binary64 a.toModel.unpack b.toModel.unpack) :=
  rfl

theorem unpack_div (a b : Float) : (a / b).toModel.unpack
    = repack (UnpackedFloat.div .binary64 a.toModel.unpack b.toModel.unpack) :=
  rfl

theorem isDouble_one_half : IsDouble (0.5 : Float).toModel.unpack :=
  isDouble_unpack 0.5

theorem value_zero : value (0.0 : Float) = 0 :=
  rfl

theorem pos_iff_value : (0.0 : Float) < a ↔ a.isNaN = false ∧ 0 < value a := by
  rw [lt_iff_value, value_zero]
  simp only [and_iff_right_iff_imp]
  exact fun _ => rfl

/-- Comparing with zero finds out what is not negative, and leaves out what is no number. -/
theorem nonneg_iff : (0.0 : Float) ≤ a ↔ IsNonneg a.toModel.unpack := by
  rw [le_iff_value, value_zero, isNaN_eq_false_iff, isNaN_eq_false_iff]
  exact and_iff_right nofun

/-- What is finite is a number. -/
theorem isNaN_of_isFinite (h : a.isFinite = true) : a.isNaN = false := by
  have hfinite : a.toModel.unpack.isFinite = true := h
  obtain ⟨x, hx⟩ := exists_stands hfinite
  exact isNaN_eq_false_iff.2 hx.ne_notANumber

/-- A positive difference has the larger number first. -/
theorem lt_of_sub_pos (h : (0.0 : Float) < a - b) : b < a := by
  rw [pos_iff_value, isNaN_eq_false_iff, value, unpack_sub] at h
  obtain ⟨ha, hb, hlt⟩ := lt_of_sub_pos_unpacked (isDouble_unpack a) (isDouble_unpack b) h.1 h.2
  exact lt_iff_value.2 ⟨isNaN_eq_false_iff.2 hb, isNaN_eq_false_iff.2 ha, hlt⟩

/-- A positive quotient by a positive number has a positive dividend. -/
theorem pos_of_div_pos (hb : (0.0 : Float) < b) (h : (0.0 : Float) < a / b) :
    (0.0 : Float) < a := by
  rw [pos_iff_value, isNaN_eq_false_iff, value, unpack_div] at h
  obtain ⟨ha, hlt⟩ := pos_of_div_pos_unpacked (isDouble_unpack a) (pos_iff_value.1 hb).2 h.1 h.2
  exact pos_iff_value.2 ⟨isNaN_eq_false_iff.2 ha, hlt⟩

/-- Half of a number is a number. -/
theorem isNaN_half (a : Float) : (0.5 * a).isNaN = a.isNaN := by
  rw [Bool.eq_iff_iff, ← not_iff_not, Bool.not_eq_true, Bool.not_eq_true, isNaN_eq_false_iff,
    isNaN_eq_false_iff, not_iff_not, unpack_mul]
  exact mul_eq_notANumber_iff isDouble_one_half (isDouble_unpack a)

/-- Halves are in the order of the numbers. -/
theorem half_le_half (h : a ≤ b) : 0.5 * a ≤ 0.5 * b := by
  obtain ⟨ha, hb, hle⟩ := le_iff_value.1 h
  refine le_iff_value.2 ⟨(isNaN_half a).trans ha, (isNaN_half b).trans hb, ?_⟩
  exact extended_mul_le isDouble_one_half (isDouble_unpack a) (isDouble_unpack b)
    (isNaN_eq_false_iff.1 ha) (isNaN_eq_false_iff.1 hb) hle

/-- A sum of numbers that are not negative is not negative, however it is rounded. -/
theorem add_nonneg (ha : (0.0 : Float) ≤ a) (hb : (0.0 : Float) ≤ b) : (0.0 : Float) ≤ a + b :=
  nonneg_iff.2 ((nonneg_iff.1 ha).add (isDouble_unpack a) (isDouble_unpack b) (nonneg_iff.1 hb))

/-- A square is not negative, and is a number, also where it overflows. -/
theorem mul_self_nonneg (h : a.isNaN = false) : (0.0 : Float) ≤ a * a :=
  nonneg_iff.2 (isNonneg_mul_self (isDouble_unpack a) (isNaN_eq_false_iff.1 h))

end Doubles

end LeastSquares.Double
