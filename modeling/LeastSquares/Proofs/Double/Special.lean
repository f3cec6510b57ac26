/-
LeastSquares.Proofs.Double.Special — zeros, infinities, and what is no number.

Rounding is about finite numbers. Here is what the operations do with the other doubles: a result
is no number if an operand is none (`isNaN_add`, `isNaN_mul`, ..), an infinite number swallows what
is added to it and leaves only a zero of what is divided by it, and subtracting zero changes nothing
but the sign of a zero (`sub_eq_self_or`). Magnitudes that are not smaller than each other are the
same double (`abs_antisymm`). Multiplication by two or more moves a number away from zero, unless it
is zero or infinite already (`mul_cases`).
-/
import Mathlib
import LeastSquares.Proofs.Double.Arithmetic

namespace LeastSquares.Double

open Float.Model Float.Model.UnpackedFloat

variable {a b : Float}

/-! ## Unpacking

Each fact below is looked up on the unpacked forms: an operation with a zero, an infinity or no
number among its operands has its result by definition, and such a result needs no rounding. -/

/-- A double is determined by what unpacking it returns. -/
theorem unpack_injective : Function.Injective fun x : Float => x.toModel.unpack := by
  rintro ⟨⟨⟨x⟩, hx⟩⟩ ⟨⟨⟨y⟩, hy⟩⟩ h
  obtain rfl : x = y := (unpack_inj_of_valid hx hy).1 h
  rfl

/-- There are finitely many doubles. -/
instance finite : Finite Float :=
  Finite.of_injective (fun x : Float => x.toModel.toBits.toBitVec) fun _ _ h =>
    unpack_injective (congrArg (UnpackedFloat.unpack .binary64) h)

theorem unpack_add (a b : Float) : (a + b).toModel.unpack
    = repack (UnpackedFloat.add .binary64 a.toModel.unpack b.toModel.unpack) :=
  rfl

/-- A magnitude is a double, so it is not rounded; neither is an opposite number. -/
theorem unpack_abs (a : Float) : a.abs.toModel.unpack = a.toModel.unpack.abs := by
  have habs : IsDouble a.toModel.unpack.abs := by
    have h := isDouble_unpack a
    cases hu : a.toModel.unpack <;> rw [hu] at h <;> exact h
  exact repack_of_isDouble habs

theorem unpack_neg (a : Float) : (-a).toModel.unpack = a.toModel.unpack.neg :=
  repack_of_isDouble (isDouble_neg (isDouble_unpack a))

/-- A difference is a sum with the opposite number, also in the signs of zeros. -/
theorem add_neg_eq_sub (a b : Float) : a + -b = a - b := by
  refine unpack_injective ?_
  show (a + -b).toModel.unpack = (a - b).toModel.unpack
  rw [unpack_sub, unpack_add, unpack_neg, sub_eq_add_neg]

theorem isNaN_iff : a.isNaN = true ↔ a.toModel.unpack = .notANumber := by
  rw [← UnpackedFloat.isNaN_iff]
  rfl

theorem isInf_iff : a.isInf = true ↔ ∃ s, a.toModel.unpack = .infinity s := by
  show a.toModel.unpack.isInf = true ↔ _
  cases a.toModel.unpack <;> simp [UnpackedFloat.isInf]

/-- A double that is not finite is infinite or no number. -/
theorem isInf_of_not_finite (hfinite : a.isFinite = false) (hnan : a.isNaN = false) :
    a.isInf = true := by
  have hfinite' : a.toModel.unpack.isFinite = false := hfinite
  have hnan' : a.toModel.unpack.isNaN = false := hnan
  show a.toModel.unpack.isInf = true
  cases hu : a.toModel.unpack <;> rw [hu] at hfinite' hnan' <;> first | rfl | contradiction

theorem isFinite_of_isInf (h : a.isInf = true) : a.isFinite = false := by
  obtain ⟨s, hs⟩ := isInf_iff.1 h
  show a.toModel.unpack.isFinite = false
  rw [hs]
  rfl

/-! ## What is no number

It is passed on by all operations. The solvers rely on this: if any residual is no number, then no
error computed from it is one, and no comparison with such an error holds. -/

theorem isNaN_of_unpack {u : UnpackedFloat} (ha : a.toModel.unpack = repack u)
    (hu : u = .notANumber) : a.isNaN = true := by
  rw [isNaN_iff, ha, hu]
  exact repack_of_isDouble trivial

/-- An operation gives no number if an operand is none, provided that it does so on unpacked
doubles. -/
theorem isNaN_of_operand {op : UnpackedFloat → UnpackedFloat → UnpackedFloat} {c : Float}
    (hc : c.toModel.unpack = repack (op a.toModel.unpack b.toModel.unpack))
    (left : ∀ v, op .notANumber v = .notANumber) (right : ∀ u, op u .notANumber = .notANumber)
    (h : a.isNaN = true ∨ b.isNaN = true) : c.isNaN = true := by
  rw [isNaN_iff, isNaN_iff] at h
  refine isNaN_of_unpack hc ?_
  rcases h with h | h <;> rw [h]
  · exact left _
  · exact right _

theorem isNaN_add : a.isNaN = true ∨ b.isNaN = true → (a + b).isNaN = true :=
  isNaN_of_operand (unpack_add a b) (fun _ => rfl) fun u => by cases u <;> rfl

theorem isNaN_sub : a.isNaN = true ∨ b.isNaN = true → (a - b).isNaN = true :=
  isNaN_of_operand (unpack_sub a b) (fun _ => rfl) fun u => by cases u <;> rfl

theorem isNaN_mul : a.isNaN = true ∨ b.isNaN = true → (a * b).isNaN = true :=
  isNaN_of_operand (unpack_mul a b) (fun _ => rfl) fun u => by cases u <;> rfl

theorem isNaN_div : a.isNaN = true ∨ b.isNaN = true → (a / b).isNaN = true :=
  isNaN_of_operand (unpack_div a b) (fun _ => rfl) fun u => by cases u <;> rfl

/-- If a result is a number only for operands that are numbers, they are so where it is one. -/
theorem operands_of_number {c : Float} (h : a.isNaN = true ∨ b.isNaN = true → c.isNaN = true)
    (hc : c.isNaN = false) : a.isNaN = false ∧ b.isNaN = false := by
  rw [← Bool.not_eq_true] at hc ⊢
  rw [← Bool.not_eq_true]
  exact ⟨fun ha => hc (h (.inl ha)), fun hb => hc (h (.inr hb))⟩

theorem isNaN_of_add (h : (a + b).isNaN = false) : a.isNaN = false ∧ b.isNaN = false :=
  operands_of_number isNaN_add h

theorem isNaN_of_mul (h : (a * b).isNaN = false) : a.isNaN = false ∧ b.isNaN = false :=
  operands_of_number isNaN_mul h

theorem isNaN_of_div (h : (a / b).isNaN = false) : a.isNaN = false ∧ b.isNaN = false :=
  operands_of_number isNaN_div h

theorem isNaN_abs (a : Float) : a.abs.isNaN = a.isNaN := by
  show a.abs.toModel.unpack.isNaN = a.toModel.unpack.isNaN
  rw [unpack_abs]
  cases a.toModel.unpack <;> rfl

theorem isNaN_neg (a : Float) : (-a).isNaN = a.isNaN := by
  show (-a).toModel.unpack.isNaN = a.toModel.unpack.isNaN
  rw [unpack_neg]
  cases a.toModel.unpack <;> rfl

/-- What is no number differs from everything. -/
theorem beq_of_isNaN (h : a.isNaN = true) (b : Float) : (a == b) = false := by
  show a.toModel.unpack.beq b.toModel.unpack = false
  rw [isNaN_iff.1 h, UnpackedFloat.beq, UnpackedFloat.compare]
  rfl

/-! ## Zeros

There are two of them, and they compare as equal. So the facts are stated with the comparison, and
hold of both; which one a result is matters only where two doubles are said to be the same. -/

/-- Comparing with zero finds both zeros, and nothing else. -/
theorem beq_zero_iff : (a == 0.0) = true ↔ ∃ s, a.toModel.unpack = .zero s := by
  have hzero : (0.0 : Float).toModel.unpack = .zero .positive := rfl
  show a.toModel.unpack.beq (0.0 : Float).toModel.unpack = true ↔ _
  rw [hzero, UnpackedFloat.beq]
  cases hu : a.toModel.unpack with
  | notANumber => simp [UnpackedFloat.compare]
  | infinity s => cases s <;> simp [UnpackedFloat.compare]
  | zero s => simp [UnpackedFloat.compare]
  | finite s m e h => cases s <;> simp [UnpackedFloat.compare]

theorem isFinite_of_beq_zero (h : (a == 0.0) = true) : a.isFinite = true := by
  obtain ⟨s, hs⟩ := beq_zero_iff.1 h
  show a.toModel.unpack.isFinite = true
  rw [hs]
  rfl

theorem beq_zero_of_unpack {u : UnpackedFloat} {s : Sign} (ha : a.toModel.unpack = repack u)
    (hu : u = .zero s) : (a == 0.0) = true := by
  rw [beq_zero_iff, ha, hu]
  exact ⟨s, repack_of_isDouble trivial⟩

theorem beq_zero_neg (a : Float) : (-a == 0.0) = (a == 0.0) := by
  rw [Bool.eq_iff_iff, beq_zero_iff, beq_zero_iff, unpack_neg]
  cases a.toModel.unpack <;> simp [UnpackedFloat.neg]

theorem beq_zero_add (ha : (a == 0.0) = true) (hb : (b == 0.0) = true) : (a + b == 0.0) = true := by
  obtain ⟨s, hs⟩ := beq_zero_iff.1 ha
  obtain ⟨t, ht⟩ := beq_zero_iff.1 hb
  cases s <;> cases t <;> exact beq_zero_of_unpack (unpack_add a b) (by rw [hs, ht]; rfl)

theorem beq_zero_sub (ha : (a == 0.0) = true) (hb : (b == 0.0) = true) : (a - b == 0.0) = true := by
  obtain ⟨s, hs⟩ := beq_zero_iff.1 ha
  obtain ⟨t, ht⟩ := beq_zero_iff.1 hb
  cases s <;> cases t <;> exact beq_zero_of_unpack (unpack_sub a b) (by rw [hs, ht]; rfl)

/-- Zero times a finite number is zero. -/
theorem beq_zero_mul (ha : (a == 0.0) = true) (hb : b.isFinite = true) : (a * b == 0.0) = true := by
  obtain ⟨s, hs⟩ := beq_zero_iff.1 ha
  have hb' : b.toModel.unpack.isFinite = true := hb
  cases hu : b.toModel.unpack with
  | notANumber => rw [hu] at hb'; contradiction
  | infinity t => rw [hu] at hb'; contradiction
  | zero t => exact beq_zero_of_unpack (unpack_mul a b) (by rw [hs, hu]; rfl)
  | finite t m e h => exact beq_zero_of_unpack (unpack_mul a b) (by rw [hs, hu]; rfl)

/-- Zero times a number that is not finite is no number. -/
theorem isNaN_beq_zero_mul (ha : (a == 0.0) = true) (hb : b.isFinite = false) :
    (a * b).isNaN = true := by
  obtain ⟨s, hs⟩ := beq_zero_iff.1 ha
  have hb' : b.toModel.unpack.isFinite = false := hb
  cases hu : b.toModel.unpack with
  | notANumber => exact isNaN_mul (.inr (isNaN_iff.2 hu))
  | infinity t => exact isNaN_of_unpack (unpack_mul a b) (by rw [hs, hu]; rfl)
  | zero t => rw [hu] at hb'; contradiction
  | finite t m e h => rw [hu] at hb'; contradiction

/-- Zero divided by anything but a zero is zero. -/
theorem beq_zero_div (ha : (a == 0.0) = true) (hb : b.isNaN = false) (hne : (b == 0.0) = false) :
    (a / b == 0.0) = true := by
  obtain ⟨s, hs⟩ := beq_zero_iff.1 ha
  cases hu : b.toModel.unpack with
  | notANumber => exact absurd hu (isNaN_eq_false_iff.1 hb)
  | infinity t => exact beq_zero_of_unpack (unpack_div a b) (by rw [hs, hu]; rfl)
  | zero t => exact absurd (beq_zero_iff.2 ⟨t, hu⟩) (by simp [hne])
  | finite t m e h => exact beq_zero_of_unpack (unpack_div a b) (by rw [hs, hu]; rfl)

/-- Zero divided by zero is no number. -/
theorem isNaN_beq_zero_div (ha : (a == 0.0) = true) (hb : (b == 0.0) = true) :
    (a / b).isNaN = true := by
  obtain ⟨s, hs⟩ := beq_zero_iff.1 ha
  obtain ⟨t, ht⟩ := beq_zero_iff.1 hb
  exact isNaN_of_unpack (unpack_div a b) (by rw [hs, ht]; rfl)

/-- Subtracting a zero changes nothing but the sign of a zero. -/
theorem sub_eq_self_or (h : (b == 0.0) = true) : a - b = a ∨ a = -0.0 := by
  obtain ⟨t, ht⟩ := beq_zero_iff.1 h
  have hdouble := isDouble_unpack a
  by_cases ha : a.toModel.unpack = .zero .negative
  · have hzero : (-0.0 : Float).toModel.unpack = .zero .negative := rfl
    exact .inr (unpack_injective (ha.trans hzero.symm))
  · have hsub : UnpackedFloat.sub .binary64 a.toModel.unpack (.zero t) = a.toModel.unpack := by
      cases hu : a.toModel.unpack with
      | notANumber => rfl
      | infinity s => rfl
      | zero s =>
        cases s
        · exact absurd hu ha
        · cases t <;> rfl
      | finite s m e h => rfl
    left
    refine unpack_injective ?_
    show (a - b).toModel.unpack = a.toModel.unpack
    rw [unpack_sub, ht, hsub, repack_of_isDouble hdouble]

/-- A finite number minus itself is zero. -/
theorem sub_self (h : a.isFinite = true) : a - a = 0.0 := by
  have hfinite : a.toModel.unpack.isFinite = true := h
  have hzero : (0.0 : Float).toModel.unpack = .zero .positive := rfl
  have hsub : UnpackedFloat.sub .binary64 a.toModel.unpack a.toModel.unpack
      = .zero .positive := by
    cases hu : a.toModel.unpack with
    | notANumber => rw [hu] at hfinite; contradiction
    | infinity s => rw [hu] at hfinite; contradiction
    | zero s => cases s <;> rfl
    | finite s m e h =>
      simp only [UnpackedFloat.sub, Int.sub_self]
      rfl
  refine unpack_injective ?_
  show (a - a).toModel.unpack = (0.0 : Float).toModel.unpack
  rw [unpack_sub, hsub, hzero]
  exact repack_of_isDouble trivial

/-! ## Magnitudes -/

theorem zero_le_abs (h : a.isNaN = false) : 0.0 ≤ a.abs := by
  have hzero : (0.0 : Float).toModel.unpack = .zero .positive := rfl
  rw [le_iff, hzero, unpack_abs]
  cases hu : a.toModel.unpack with
  | notANumber => exact absurd hu (isNaN_eq_false_iff.1 h)
  | infinity s => rfl
  | zero s => rfl
  | finite s m e hm => rfl

/-- Magnitudes that are not smaller than each other are the same double: only one of the two zeros
is a magnitude. -/
theorem abs_antisymm (hab : a.abs ≤ b.abs) (hba : b.abs ≤ a.abs) : a.abs = b.abs := by
  obtain ⟨ha, hb, hle⟩ := le_iff_value.1 hab
  obtain ⟨-, -, hge⟩ := le_iff_value.1 hba
  have hbeq : a.abs.toModel.unpack.beq b.abs.toModel.unpack = true := by
    rw [UnpackedFloat.beq, compare_eq (isDouble_unpack _) (isDouble_unpack _)
      (isNaN_eq_false_iff.1 ha) (isNaN_eq_false_iff.1 hb), beq_iff_eq]
    exact congrArg some (compare_eq_iff_eq.2 (le_antisymm hle hge))
  have notNegative (x : Float) : x.abs.toModel.unpack ≠ .zero .negative := by
    rw [unpack_abs]
    cases x.toModel.unpack <;> simp [UnpackedFloat.abs]
  obtain ⟨-, -, h | ⟨-, h⟩ | ⟨h, -⟩⟩ := (beq_iff_ne_notANumber_and_eq _ _).1 hbeq
  · exact unpack_injective h
  · exact absurd h (notNegative b)
  · exact absurd h (notNegative a)

/-! ## Infinities

An infinite operand leads to an infinite result, to a zero or to no number. Which one it is may
depend on signs, so most facts leave it open. -/

/-- Zero times an infinite number is no number. -/
theorem isNaN_zero_mul (h : a.isInf = true) : (0.0 * a).isNaN = true := by
  obtain ⟨s, hs⟩ := isInf_iff.1 h
  exact isNaN_of_unpack (unpack_mul 0.0 a) (by rw [hs]; rfl)

theorem isInf_of_unpack {u : UnpackedFloat} {s : Sign} (ha : a.toModel.unpack = repack u)
    (hu : u = .infinity s) : a.isInf = true := by
  rw [isInf_iff, ha, hu]
  exact ⟨s, repack_of_isDouble trivial⟩

theorem isInf_one_mul (h : a.isInf = true) : (1.0 * a).isInf = true := by
  obtain ⟨s, hs⟩ := isInf_iff.1 h
  exact isInf_of_unpack (unpack_mul 1.0 a) (by rw [hs]; rfl)

/-- A sum with an infinite number is infinite, or no number. -/
theorem isInf_add_or (h : b.isInf = true) : (a + b).isInf = true ∨ (a + b).isNaN = true := by
  obtain ⟨t, ht⟩ := isInf_iff.1 h
  cases ha : a.toModel.unpack with
  | notANumber => exact .inr (isNaN_add (.inl (isNaN_iff.2 ha)))
  | infinity s =>
    by_cases hsign : (s == t) = true
    · refine .inl (isInf_of_unpack (unpack_add a b) ?_ (s := s))
      rw [ha, ht, UnpackedFloat.add, if_pos hsign]
    · refine .inr (isNaN_of_unpack (unpack_add a b) ?_)
      rw [ha, ht, UnpackedFloat.add, if_neg hsign]
  | zero s => exact .inl (isInf_of_unpack (unpack_add a b) (by rw [ha, ht]; rfl))
  | finite s m e h => exact .inl (isInf_of_unpack (unpack_add a b) (by rw [ha, ht]; rfl))

/-- An infinite number is not zero. -/
theorem beq_zero_of_isInf (h : a.isInf = true) : (a == 0.0) = false := by
  obtain ⟨s, hs⟩ := isInf_iff.1 h
  rw [← Bool.not_eq_true, beq_zero_iff, hs]
  rintro ⟨t, ht⟩
  contradiction

/-- A quotient by an infinite number is zero, or no number. -/
theorem div_isInf_or (h : b.isInf = true) : (a / b == 0.0) = true ∨ (a / b).isNaN = true := by
  obtain ⟨t, ht⟩ := isInf_iff.1 h
  have zero {s : Sign} (hdiv : UnpackedFloat.div .binary64 a.toModel.unpack (.infinity t)
      = .zero s) : (a / b == 0.0) = true := by
    refine beq_zero_iff.2 ⟨s, ?_⟩
    rw [unpack_div, ht, hdiv]
    exact repack_of_isDouble trivial
  cases ha : a.toModel.unpack with
  | notANumber => exact .inr (isNaN_div (.inl (isNaN_iff.2 ha)))
  | infinity s => exact .inr (isNaN_of_unpack (unpack_div a b) (by rw [ha, ht]; rfl))
  | zero s => exact .inl (zero (by rw [ha]; rfl))
  | finite s m e h => exact .inl (zero (by rw [ha]; rfl))

/-! ## Multiplication by two or more

By such a number the damping parameter is multiplied whenever a trial is rejected. The product is
larger in magnitude, in spite of rounding: twice a double is a double, unless it overflows, and
rounding does not pass over a double. -/

theorem value_two : value 2.0 = (2 : ℝ) := by
  have h : (2.0 : Float).toModel.unpack = .finite .positive (2 ^ 52) (-51) (by decide) := rfl
  rw [value, h, extended_positive]
  norm_num

/-- What is two or more is infinite, or a positive number as large as it says. -/
theorem two_le_cases (h : 2.0 ≤ b) : b.toModel.unpack = .infinity .positive
    ∨ ∃ (m : Nat) (e : Int) (hm : 0 < m),
        b.toModel.unpack = .finite .positive m e hm ∧ (2 : ℝ) ≤ m * 2 ^ e := by
  obtain ⟨-, hnan, hle⟩ := le_iff_value.1 h
  rw [value_two, value] at hle
  rw [isNaN_eq_false_iff] at hnan
  cases hb : b.toModel.unpack with
  | notANumber => exact absurd hb hnan
  | infinity s =>
    cases s
    · rw [hb] at hle
      exact absurd hle (EReal.bot_lt_coe 2).not_ge
    · exact .inl rfl
  | zero s =>
    rw [hb] at hle
    have : (2 : ℝ) ≤ 0 := EReal.coe_le_coe_iff.1 hle
    norm_num at this
  | finite s m e hm =>
    rw [hb, extended_finite] at hle
    have hle : (2 : ℝ) ≤ s.apply m * 2 ^ e := EReal.coe_le_coe_iff.1 hle
    cases s with
    | positive => exact .inr ⟨m, e, hm, rfl, by simpa [Sign.apply] using hle⟩
    | negative =>
      have hpos : (0 : ℝ) < m * 2 ^ e := magnitude_pos hm e
      simp only [Sign.apply, Int.cast_neg, Int.cast_natCast, neg_mul] at hle
      linarith

/-- The rounded double of a number, and more, is larger than the number. -/
theorem abs_lt_of_nearest {x y v : ℝ} (hx : x ≠ 0) (hdouble : Representable (2 * x)) (hy : 2 ≤ y)
    (hv : Nearest v (x * y)) : |x| < |v| := by
  have hpos : 0 < |x| := abs_pos.2 hx
  -- twice the number is representable, so rounding does not fall farther behind
  have hclose : |v - x * y| ≤ |x| * (y - 2) := by
    calc |v - x * y| ≤ |2 * x - x * y| := hv.2 _ hdouble
      _ = |x| * |2 - y| := by rw [← abs_mul]; ring_nf
      _ = |x| * (y - 2) := by
        rw [abs_sub_comm 2 y, abs_of_nonneg (by linarith : (0 : ℝ) ≤ y - 2)]
  have hproduct : |x * y| = |x| * y := by rw [abs_mul, abs_of_nonneg (by linarith : 0 ≤ y)]
  have htriangle : |x * y| - |v| ≤ |v - x * y| := by
    rw [abs_sub_comm]
    exact abs_sub_abs_le_abs_sub _ _
  nlinarith

/-- Overflow makes a magnitude larger only. -/
theorem abs_lt_abs_clamp {x v : ℝ} (h : |x| < |v|) : (x : EReal).abs < (clamp v).abs := by
  rw [clamp_eq, EReal.abs_def]
  split_ifs
  · exact ENNReal.ofReal_lt_top
  · exact ENNReal.ofReal_lt_top
  · rw [EReal.abs_def]
    exact (ENNReal.ofReal_lt_ofReal_iff (lt_of_le_of_lt (abs_nonneg x) h)).2 h

/-- Multiplication by two or more moves a finite number away from zero. -/
theorem abs_value_lt_mul {s : Sign} {m : Nat} {e : Int} {hm : 0 < m}
    (ha : a.toModel.unpack = .finite s m e hm) (hb : 2.0 ≤ b) :
    (value a).abs < (value (a * b)).abs := by
  have hdouble := isDouble_unpack a
  rw [value, value, unpack_mul, ha, extended_finite]
  rcases two_le_cases hb with hb | ⟨n, d, hn, hb, hy⟩
  · rw [hb]
    have hinf : repack (UnpackedFloat.mul .binary64 (.finite s m e hm) (.infinity .positive))
        = .infinity (s * .positive) := repack_of_isDouble trivial
    rw [hinf, EReal.abs_def]
    cases s <;> exact ENNReal.ofReal_lt_top
  · rw [ha] at hdouble
    have hx : Stands (.finite s m e hm) (s.apply m * 2 ^ e) := ⟨rfl, rfl⟩
    have hstands : Stands b.toModel.unpack (n * 2 ^ d) := by
      rw [hb]
      exact ⟨rfl, by rw [extended_finite]; simp [Sign.apply]⟩
    obtain ⟨v, hv, hclamp⟩ := (hx.mul hdouble (isDouble_unpack b) hstands).nearest
    rw [hclamp]
    refine abs_lt_abs_clamp (abs_lt_of_nearest ?_ ?_ hy hv)
    · rw [← abs_pos, abs_apply]
      exact magnitude_pos hm e
    · refine ⟨s.apply m, e + 1, ?_, by have := hdouble.2.2.1; omega, ?_⟩
      · have := hdouble.1
        cases s <;> simp only [Sign.apply, abs_le] <;> omega
      · rw [zpow_add_one₀ (by norm_num)]
        push_cast
        ring

/-- Multiplication by two or more leaves a number as it is, or gives no number, or moves it away
from zero. -/
theorem mul_cases (hb : 2.0 ≤ b) (a : Float) :
    a * b = a ∨ (a * b).isNaN = true ∨ (value a).abs < (value (a * b)).abs := by
  have same {u : UnpackedFloat} (ha : a.toModel.unpack = u)
      (hmul : UnpackedFloat.mul .binary64 u b.toModel.unpack = u) : a * b = a := by
    refine unpack_injective ?_
    show (a * b).toModel.unpack = a.toModel.unpack
    rw [unpack_mul, ha, hmul, ← ha, repack_of_isDouble (isDouble_unpack a)]
  cases ha : a.toModel.unpack with
  | notANumber => exact .inr (.inl (isNaN_mul (.inl (isNaN_iff.2 ha))))
  | infinity s =>
    refine .inl (same ha ?_)
    rcases two_le_cases hb with hb | ⟨n, d, hn, hb, -⟩ <;> rw [hb] <;> cases s <;> rfl
  | zero s =>
    rcases two_le_cases hb with hb | ⟨n, d, hn, hb, -⟩
    · exact .inr (.inl (isNaN_of_unpack (unpack_mul a b) (by rw [ha, hb]; rfl)))
    · exact .inl (same ha (by rw [hb]; cases s <;> rfl))
  | finite s m e hm => exact .inr (.inr (abs_value_lt_mul ha hb))

/-- What multiplication by two or more leaves as it is, is no number, infinite, or zero. -/
theorem isInf_or_of_mul_eq_self (hb : 2.0 ≤ b) (h : a * b = a) :
    a.isNaN = true ∨ a.isInf = true ∨ (a == 0.0) = true := by
  cases ha : a.toModel.unpack with
  | notANumber => exact .inl (isNaN_iff.2 ha)
  | infinity s => exact .inr (.inl (isInf_iff.2 ⟨s, ha⟩))
  | zero s => exact .inr (.inr (beq_zero_iff.2 ⟨s, ha⟩))
  | finite s m e hm =>
    have hlt := abs_value_lt_mul ha hb
    rw [h] at hlt
    exact absurd hlt (lt_irrefl _)

end LeastSquares.Double
