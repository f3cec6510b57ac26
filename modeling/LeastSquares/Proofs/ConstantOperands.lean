/-
LeastSquares.Proofs.ConstantOperands — constants, and varying numbers with the gradient zero.

A constant stands for a number whose gradient is zero, and the operations have rules of their own
for it. Such a rule should be the general one without the terms that the zeros make vanish, so that
it makes no difference whether an operand is a constant or stores the zeros (`Padded`).

It never makes one for the value. The entries agree, up to the sign of a zero, in sums, differences,
products, extrema, and in the quotient of a constant (`Padded.exchanges`). For the quotient by a
constant and for the power the two rules are different formulas. In exact arithmetic they give the
same, where neither divides by zero or takes the logarithm of a number that is not positive
(`Padded.entry_operator`).

At other operands it does make a difference. The quotient by a constant zero divides the entries by
the guard. If the zeros are stored, the entries are first multiplied with the divisor, and there is
nothing left that the guard could save (`entry_div_beq_zero`). In a power, a stored zero is
multiplied with the logarithm of the base, whatever that is (`isNaN_entry_pow_of_log`).
-/
import Mathlib
import LeastSquares.Proofs.Double.SignedZero
import LeastSquares.Proofs.Exact
import LeastSquares.Proofs.Singularities
import LeastSquares.Proofs.UnusedParameters

namespace LeastSquares

open Postfix Double

namespace Dual

section Padded

variable {K : Type} [Scalar K] {n : Nat} {x x' y y' : Dual K}

/-- The second number is the first one, which may have got a gradient of zeros if it is a
constant. -/
inductive Padded (n : Nat) : Dual K → Dual K → Prop where
  | same (x : Dual K) : Padded n x x
  | constant (c : K) : Padded n (.constant c) (.varying c (List.replicate n 0))

namespace Padded

theorem value_eq (h : Padded n x x') : x'.value = x.value := by
  cases h <;> rfl

theorem fits (h : Padded n x x') (hx : x.Fits n) : x'.Fits n := by
  cases h with
  | same _ => exact hx
  | constant c => exact List.length_replicate

theorem entry_eq (h : Padded n x x') (j : Fin n) : x'.entry j = x.entry j := by
  cases h with
  | same _ => rfl
  | constant c => simp [entry]

end Padded

theorem entry_of_not_varies (h : ¬ x.Varies) (j : Fin n) : x.entry j = 0 := by
  cases x with
  | constant c => rfl
  | varying u du => exact absurd rfl h

/-- If the formulas of a combination are related to one at the entries of the operands, it makes no
difference which of the operands are padded. -/
theorem Padded.entry_combine {R : K → K → Prop} (hR : Equivalence R) (hx : Padded n x x')
    (hy : Padded n y y') (fx : x.Fits n) (fy : y.Fits n) {val val' : K} {left right : K → K}
    {both : K → K → K} {j : Fin n} (hl : R (left (x.entry j)) (both (x.entry j) 0))
    (hr : R (right (y.entry j)) (both 0 (y.entry j))) (hb : R 0 (both 0 0)) :
    R ((combine x' y' val' left right both).entry j)
      ((combine x y val left right both).entry j) := by
  have h := entry_combine_related hR fx fy val hl hr hb
  rw [← hx.entry_eq j] at hl h
  rw [← hy.entry_eq j] at hr h
  exact hR.trans (entry_combine_related hR (hx.fits fx) (hy.fits fy) val' hl hr hb) (hR.symm h)

end Padded

/-! ## Rounded arithmetic -/

section Doubles

variable {n : Nat} {x x' y y' : Dual Float}

/-- The same value, and entries that compare equal, unless they are no numbers. -/
structure Agrees (n : Nat) (z z' : Dual Float) : Prop where
  value : z'.value = z.value
  entry : ∀ j : Fin n, z'.entry j = z.entry j ∨ (z'.entry j == z.entry j) = true

theorem beq_zero_quotient {num den : Float} (h : (num == 0.0) = true) (hden : den.isNaN = false) :
    (quotient num den == 0.0) = true :=
  (ZeroIf.quotient (P := True) ⟨fun _ => h, fun hfalse => absurd trivial hfalse⟩ den).beq_zero
    ⟨trivial, hden⟩

theorem alike_quotient {num num' den : Float} (h : Alike num num') (hden : den.isNaN = false) :
    Alike (quotient num den) (quotient num' den) := by
  obtain rfl | ⟨hnum, hnum'⟩ := h
  · exact .refl _
  · exact .inr ⟨beq_zero_quotient hnum hden, beq_zero_quotient hnum' hden⟩

theorem beq_zero_mul_zero {a : Float} (h : a.isFinite = true) : (a * 0.0 == 0.0) = true :=
  Double.mul_comm 0.0 a ▸ beq_zero_mul rfl h

/-- A weighted sum, the second term of which is zero. -/
theorem alike_sum_left {a b : Float} (hb : b.isFinite = true) (p : Float) :
    Alike (p * a) (a * p + b * 0.0) := by
  rw [Double.mul_comm p a]
  exact (Alike.add_zero (beq_zero_mul_zero hb) _).symm

/-- A weighted sum, the first term of which is zero. -/
theorem alike_sum_right {a b : Float} (ha : a.isFinite = true) (q : Float) :
    Alike (q * b) (a * 0.0 + b * q) := by
  rw [Double.mul_comm q b]
  exact (Alike.zero_add (beq_zero_mul_zero ha) _).symm

theorem alike_sum_zero {a b : Float} (ha : a.isFinite = true) (hb : b.isFinite = true) :
    Alike 0.0 (a * 0.0 + b * 0.0) :=
  .inr ⟨rfl, beq_zero_add (beq_zero_mul_zero ha) (beq_zero_mul_zero hb)⟩

theorem isNaN_mul_self {a : Float} (h : a.isFinite = true) : (a * a).isNaN = false :=
  (le_iff_value.1 (Double.mul_self_nonneg (isNaN_of_isFinite h))).2.1

namespace Padded

theorem value_operator (hx : Padded n x x') (hy : Padded n y y') (op : Operator) :
    (op.dual x' y').value = (op.dual x y).value := by
  have hu := hx.value_eq
  have hv := hy.value_eq
  cases op with
  | add =>
    show (x' + y').value = (x + y).value
    rw [value_add, value_add, hu, hv]
  | sub =>
    show (x' - y').value = (x - y).value
    rw [value_sub, value_sub, hu, hv]
  | mul =>
    show (x' * y').value = (x * y).value
    rw [value_mul Double.mul_comm, value_mul Double.mul_comm, hu, hv]
  | div =>
    show (x' / y').value = (x / y).value
    rw [value_div, value_div, hu, hv]
  | pow =>
    show (x'.pow y').value = (x.pow y).value
    rw [value_pow, value_pow, hu, hv]

variable (hx : Padded n x x') (hy : Padded n y y') (fx : x.Fits n) (fy : y.Fits n)
include hx hy fx fy

theorem agrees_add : Agrees n (x + y) (x' + y') := by
  refine ⟨hx.value_operator hy .add, fun j => Alike.eq_or_beq ?_⟩
  rw [add_eq_combine, add_eq_combine]
  exact hx.entry_combine Alike.equivalence hy fx fy (Alike.add_zero rfl _).symm
    (Alike.zero_add rfl _).symm (Alike.zero_add rfl _).symm

theorem agrees_sub : Agrees n (x - y) (x' - y') := by
  have hneg (q : Float) : Alike (q * -1.0) (0.0 - q) :=
    mul_minus_one q ▸ (Alike.zero_sub rfl q).symm
  refine ⟨hx.value_operator hy .sub, fun j => Alike.eq_or_beq ?_⟩
  rw [sub_eq_combine, sub_eq_combine]
  exact hx.entry_combine Alike.equivalence hy fx fy (Alike.sub_zero rfl _).symm (hneg _)
    (Alike.sub_zero rfl _).symm

theorem agrees_mul (hu : x.value.isFinite = true) (hv : y.value.isFinite = true) :
    Agrees n (x * y) (x' * y') := by
  refine ⟨hx.value_operator hy .mul, fun j => Alike.eq_or_beq ?_⟩
  rw [mul_eq_combine x, mul_eq_combine x', hx.value_eq, hy.value_eq]
  refine hx.entry_combine Alike.equivalence hy fx fy ?left ?right ?neither
  case left => exact alike_sum_right hu _
  case right => exact alike_sum_left hv _
  case neither => exact alike_sum_zero hu hv

theorem agrees_blend (val : Float) {wx wy : Float} (hwx : wx.isFinite = true)
    (hwy : wy.isFinite = true) : Agrees n (blend x y val wx wy) (blend x' y' val wx wy) := by
  refine ⟨by rw [value_blend, value_blend], fun j => Alike.eq_or_beq ?_⟩
  rw [blend_eq_combine, blend_eq_combine]
  exact hx.entry_combine Alike.equivalence hy fx fy (alike_sum_left hwy _) (alike_sum_right hwx _)
    (alike_sum_zero hwx hwy)

/-- The rule for the quotient of a constant is the general one without a zero. -/
theorem agrees_div (dividend : ¬ x.Varies) (hu : x.value.isFinite = true)
    (hv : y.value.isFinite = true) : Agrees n (x / y) (x' / y') := by
  refine ⟨hx.value_operator hy .div, fun j => Alike.eq_or_beq ?_⟩
  have hzero : (0.0 * y.value == 0.0) = true := beq_zero_mul rfl hv
  have hsquare := isNaN_mul_self hv
  have hnum : (0.0 * y.value - x.value * 0.0 == 0.0) = true :=
    beq_zero_sub hzero (beq_zero_mul_zero hu)
  have hright (q : Float) : Alike (-x.value * q) (0.0 * y.value - x.value * q) :=
    neg_mul_left x.value q ▸ (Alike.zero_sub hzero _).symm
  rw [div_eq_combine x, div_eq_combine x', hx.value_eq, hy.value_eq]
  refine hx.entry_combine Alike.equivalence hy fx fy ?left ?right ?neither
  case left =>
    rw [entry_of_not_varies dividend]
    exact .inr ⟨beq_zero_quotient rfl (isNaN_of_isFinite hv), beq_zero_quotient hnum hsquare⟩
  case right => exact alike_quotient (hright _) hsquare
  case neither => exact .inr ⟨rfl, beq_zero_quotient hnum hsquare⟩

end Padded

/-- Zeros that are stored are put through the rule of the function like any other entry. -/
theorem Padded.zeroIf_elementary (hx : Padded n x x') (fx : x.Fits n) (constant : ¬ x.Varies)
    (f : Elementary) (j : Fin n) :
    ZeroIf (x'.Varies → f.Demands x.value) ((f.dual x').entry j) := by
  have hzero : ZeroIf True (x'.entry j) := by
    rw [hx.entry_eq, entry_of_not_varies constant]
    exact .zero trivial
  rw [← hx.value_eq]
  exact (hzero.elementary (hx.fits fx) f).congr (and_iff_right trivial)

/-- Where the divisor is a constant zero the entries are divided by the guard, and where its zeros
are stored they are multiplied with zero first. -/
theorem entry_div_beq_zero (fx : x.Fits n) (hvaries : x.Varies) (hu : x.value.isFinite = true)
    {c : Float} (hc : (c == 0.0) = true) (j : Fin n) :
    (x / constant c).entry j = x.entry j / divisionGuard
    ∧ ((x.entry j).isFinite = true →
      ((x / varying c (List.replicate n 0)).entry j == 0.0) = true) := by
  have hpadded : Padded n (constant c) (varying c (List.replicate n 0)) := .constant c
  have fc : (constant c).Fits n := trivial
  have fits : (varying c (List.replicate n 0)).Fits n := hpadded.fits fc
  have hzero : (varying c (List.replicate n 0)).entry j = 0.0 := hpadded.entry_eq j
  have hfinite := isFinite_of_beq_zero hc
  cases x with
  | constant u => contradiction
  | varying u du =>
    rw [div_eq_combine, div_eq_combine, entry_combine_select fx fc,
      entry_combine_select fx fits, hzero]
    refine ⟨if_pos hc, fun hp => ?_⟩
    have hleft := Double.mul_comm c _ ▸ beq_zero_mul hc hp
    exact beq_zero_quotient (beq_zero_sub hleft (beq_zero_mul_zero hu)) (isNaN_mul_self hfinite)

/-- Where the term with the logarithm is no number, it is none either if it is multiplied with a
stored zero. -/
theorem isNaN_entry_pow_of_log (fx : x.Fits n) (fy : y.Fits n) (hx : x.Varies) (hy : y.Varies)
    (h : (x.value * Float.log x.value).isNaN = true) (j : Fin n) :
    ((x.pow y).entry j).isNaN = true := by
  rw [pow_eq_combine, entry_combine_select fx fy]
  cases x with
  | constant a => contradiction
  | varying u du =>
    cases y with
    | constant b => contradiction
    | varying v dv =>
      exact isNaN_power_entry h ..

/-- What does not change in rounded arithmetic if `x'` and `y'` take the place of `x` and `y`. -/
structure Exchanges (n : Nat) (x y x' y' : Dual Float) : Prop where
  value_elementary (f : Elementary) : (f.dual x').value = (f.dual x).value
  value_operator (op : Operator) : (op.dual x' y').value = (op.dual x y).value
  value_smoothMax (tau : Float) : (smoothMax tau x' y').value = (smoothMax tau x y).value
  value_smoothMin (tau : Float) : (smoothMin tau x' y').value = (smoothMin tau x y).value
  add : Agrees n (x + y) (x' + y')
  sub : Agrees n (x - y) (x' - y')
  mul : x.value.isFinite = true → y.value.isFinite = true → Agrees n (x * y) (x' * y')
  /-- If the dividend is the constant, the divisor may be any number. -/
  div : ¬ x.Varies → x.value.isFinite = true → y.value.isFinite = true →
    Agrees n (x / y) (x' / y')
  smoothMax (tau : Float) (s : LogSumExp Float) : s = .of (x.value / tau) (y.value / tau) →
    s.first.isFinite = true → s.second.isFinite = true →
      Agrees n (smoothMax tau x y) (smoothMax tau x' y')
  smoothMin (tau : Float) (s : LogSumExp Float) : s = .of (-x.value / tau) (-y.value / tau) →
    s.first.isFinite = true → s.second.isFinite = true →
      Agrees n (smoothMin tau x y) (smoothMin tau x' y')
  /-- A function of a constant has no entries, so the stored zeros should stay zeros. -/
  elementary (f : Elementary) : ¬ x.Varies → ∀ j : Fin n,
    ZeroIf (x'.Varies → f.Demands x.value) ((f.dual x').entry j)

theorem Padded.exchanges (hx : Padded n x x') (hy : Padded n y y') (fx : x.Fits n)
    (fy : y.Fits n) : Exchanges n x y x' y' where
  value_elementary f := by rw [value_elementary, value_elementary, hx.value_eq]
  value_operator op := hx.value_operator hy op
  value_smoothMax tau := by
    rw [Dual.smoothMax, Dual.smoothMax, value_blend, value_blend, hx.value_eq, hy.value_eq]
  value_smoothMin tau := by
    rw [Dual.smoothMin, Dual.smoothMin, value_blend, value_blend, hx.value_eq, hy.value_eq]
  add := hx.agrees_add hy fx fy
  sub := hx.agrees_sub hy fx fy
  mul := hx.agrees_mul hy fx fy
  div := hx.agrees_div hy fx fy
  smoothMax tau s hs hfirst hsecond := by
    subst hs
    rw [Dual.smoothMax, Dual.smoothMax, hx.value_eq, hy.value_eq]
    exact hx.agrees_blend hy fx fy _ hfirst hsecond
  smoothMin tau s hs hfirst hsecond := by
    subst hs
    rw [Dual.smoothMin, Dual.smoothMin, hx.value_eq, hy.value_eq]
    exact hx.agrees_blend hy fx fy _ hfirst hsecond
  elementary f constant j := hx.zeroIf_elementary fx constant f j

end Doubles

end Dual

/-! ## Exact arithmetic -/

open LeastSquares.Dual

/-- Neither the rule for a constant operand nor the general one divides by zero, or takes the
logarithm of a number that is not positive. -/
def Postfix.Operator.RegularAt (x y : Dual ℝ) : Operator → Prop
  | .div => x.Varies → y.value ≠ 0
  | .pow => 0 < x.value
  | _ => True

theorem Exact.quotient_zero (den : ℝ) : quotient 0 den = 0 := by
  unfold quotient
  split_ifs <;> exact zero_div _

/-- In exact arithmetic the two rules are the same formula. -/
theorem Dual.Padded.entry_operator {n : Nat} {x x' y y' : Dual ℝ} (hx : Padded n x x')
    (hy : Padded n y y') (fx : x.Fits n) (fy : y.Fits n) {op : Operator}
    (regular : op.RegularAt x y) (j : Fin n) : (op.dual x' y').entry j = (op.dual x y).entry j := by
  cases op with
  | add =>
    show (x' + y').entry j = (x + y).entry j
    rw [add_eq_combine x, add_eq_combine x', hx.value_eq, hy.value_eq]
    refine hx.entry_combine eq_equivalence hy fx fy ?_ ?_ ?_ <;> simp
  | sub =>
    show (x' - y').entry j = (x - y).entry j
    rw [sub_eq_combine x, sub_eq_combine x', hx.value_eq, hy.value_eq]
    refine hx.entry_combine eq_equivalence hy fx fy ?_ ?_ ?_ <;> simp
  | mul =>
    show (x' * y').entry j = (x * y).entry j
    rw [mul_eq_combine x, mul_eq_combine x', hx.value_eq, hy.value_eq]
    refine hx.entry_combine eq_equivalence hy fx fy ?_ ?_ ?_ <;> ring
  | div =>
    have hneither : quotient (0 * y.value - x.value * 0) (y.value * y.value) = 0 := by
      rw [zero_mul, mul_zero, sub_zero, Exact.quotient_zero]
    show (x' / y').entry j = (x / y).entry j
    rw [div_eq_combine x, div_eq_combine x', hx.value_eq, hy.value_eq]
    refine hx.entry_combine eq_equivalence hy fx fy ?left ?right ?neither
    case left =>
      by_cases varies : x.Varies
      · have hne : y.value ≠ 0 := regular varies
        rw [Exact.quotient_eq hne, Exact.quotient_eq (mul_ne_zero hne hne)]
        field_simp
        ring
      · rw [entry_of_not_varies varies, Exact.quotient_zero, hneither]
    case right => ring_nf
    case neither => exact hneither.symm
  | pow =>
    have hpos : 0 < x.value := regular
    show (x'.pow y').entry j = (x.pow y).entry j
    rw [pow_eq_combine x, pow_eq_combine x', hx.value_eq, hy.value_eq]
    refine hx.entry_combine eq_equivalence hy fx fy ?left ?right ?neither
    case left =>
      have hpow : Scalar.pow x.value (y.value - 1) = Scalar.pow x.value y.value / x.value :=
        Real.rpow_sub_one hpos.ne' _
      rw [Exact.quotient_eq hpos.ne', hpow]
      ring
    case right =>
      rw [Exact.quotient_eq hpos.ne']
      field_simp
      ring
    case neither => simp [Exact.quotient_zero]

/-- A constant operand may be replaced by one that stores its zeros. In rounded arithmetic that
changes no value, and it changes no entry of a sum, a difference, a product, an extremum or the
quotient of a constant; in exact arithmetic, none of a quotient by a number other than zero and none
of a power of a positive base.

It does change the quotient by zero, whose entries are divided by the guard if the zero is a
constant, and are zero if it stores its gradient; and the power of a base for which `u * log u` is
no number, no entry of which is a number if the exponent stores its gradient. -/
theorem padded_operands {n : Nat} :
    (∀ {x x' y y' : Dual Float}, Padded n x x' → Padded n y y' → x.Fits n → y.Fits n →
      Exchanges n x y x' y')
    ∧ (∀ {x x' y y' : Dual ℝ}, Padded n x x' → Padded n y y' → x.Fits n → y.Fits n →
      ∀ op : Operator, op.RegularAt x y →
        ∀ j : Fin n, (op.dual x' y').entry j = (op.dual x y).entry j)
    ∧ (∀ {x : Dual Float}, x.Fits n → x.Varies → x.value.isFinite = true →
      ∀ c : Float, (c == 0.0) = true → ∀ j : Fin n, (x.entry j).isFinite = true →
        (x / constant c).entry j = x.entry j / divisionGuard
        ∧ ((x / varying c (List.replicate n 0)).entry j == 0.0) = true)
    ∧ ∀ {x : Dual Float}, x.Fits n → x.Varies → (x.value * Float.log x.value).isNaN = true →
      ∀ (c : Float) (j : Fin n),
        ((x.pow (varying c (List.replicate n 0))).entry j).isNaN = true := by
  refine ⟨fun hx hy fx fy => hx.exchanges hy fx fy,
    fun hx hy fx fy op regular j => hx.entry_operator hy fx fy regular j,
    fun fx hvaries hu c hc j hp => ?_, fun fx hvaries hlog c j => ?_⟩
  · obtain ⟨hconstant, hstored⟩ := entry_div_beq_zero fx hvaries hu hc j
    exact ⟨hconstant, hstored hp⟩
  · have stored : (varying c (List.replicate n 0)).Fits n := List.length_replicate
    exact isNaN_entry_pow_of_log fx stored hvaries rfl hlog j

/-- A number that varies, multiplied with two, divided by two and by zero, and a power of a base that
is no number. -/
theorem padded_operands_two :
    let x : Dual Float := varying 6.0 [1.0]
    let r : Dual ℝ := varying 6 [1]
    let base : Dual Float := varying (0.0 / 0.0) [1.0]
    Padded 1 (constant 2.0 : Dual Float) (varying 2.0 [0.0])
      ∧ Agrees 1 (x * constant 2.0) (x * varying 2.0 [0.0])
      ∧ Operator.div.RegularAt r (constant 2)
      ∧ (Operator.div.dual r (varying 2 [0])).entry (0 : Fin 1)
        = (Operator.div.dual r (constant 2)).entry (0 : Fin 1)
      ∧ (x / constant 0.0).entry (0 : Fin 1) = x.entry (0 : Fin 1) / divisionGuard
      ∧ ((x / varying 0.0 [0.0]).entry (0 : Fin 1) == 0.0) = true
      ∧ ((base.pow (varying 3.0 [0.0])).entry (0 : Fin 1)).isNaN = true := by
  intro x r base
  obtain ⟨rounded, exact, divided, raised⟩ := @padded_operands 1
  have padded : Padded 1 (constant 2.0 : Dual Float) (varying 2.0 [0.0]) := .constant 2.0
  have regular : Operator.div.RegularAt r (constant 2) := fun _ => two_ne_zero
  have finite : x.value.isFinite = true := by decide +kernel
  have hlog : (base.value * Float.log base.value).isNaN = true :=
    isNaN_mul (.inl (by decide +kernel))
  obtain ⟨hconstant, hstored⟩ :=
    divided (x := x) rfl rfl finite 0.0 (by decide +kernel) 0 (by decide +kernel)
  exact ⟨padded, (rounded (.same x) padded rfl trivial).mul finite (by decide +kernel), regular,
    exact (.same r) (.constant 2) rfl trivial .div regular 0, hconstant, hstored,
    raised (x := base) rfl rfl hlog 3.0 0⟩

/-- A varying number divided by zero: the entry is `1e15` if the zero is a constant, and zero if its
gradient is stored. -/
theorem padded_divisor_zero :
    let x : Dual Float := varying 6.0 [1.0]
    let zero : Dual Float := constant 0.0
    let stored : Dual Float := varying 0.0 [0.0]
    Padded 1 zero stored ∧ x.IsFinite ∧ stored.IsFinite
      ∧ ((x / stored).value == (x / zero).value) = true
      ∧ ((x / zero).entry (0 : Fin 1) == 1.0 / 1e-15) = true
      ∧ ((x / stored).entry (0 : Fin 1) == 0.0) = true
      ∧ ((x / stored).entry (0 : Fin 1) == (x / zero).entry (0 : Fin 1)) = false :=
  ⟨.constant 0.0, by decide +kernel, by decide +kernel, by decide +kernel, by decide +kernel,
    by decide +kernel, by decide +kernel⟩

end LeastSquares
