/-
LeastSquares.Proofs.Singularities — derivatives where a denominator is zero.

`Dual.quotient` puts `1e-15` in the place of a denominator that is exactly zero. The result is then
finite as long as the numerator is not too large, so the derivatives of a quotient, of `tan`, and of
`asin` and `acos` at the ends of their domain are finite (`finite_at_singularities`).

The power of two varying operands is different. Its numerator has the term `u * log u`, and at the
base zero this is no number before there is anything to divide. The value is zero as it should be,
but no entry of the gradient is a number, also in directions in which the exponent does not change.

Which numbers a library returns for the functions of analysis is not fixed by IEEE arithmetic.
Everything here is said of any library (`ElementaryFunctions Float`), and `Documented` collects what
all of them promise at the arguments in question.
-/
import Mathlib
import LeastSquares.Proofs.Double.Bounds
import LeastSquares.Proofs.Dual
import LeastSquares.Proofs.Exact.Linear

namespace LeastSquares

open Double

/-! ## Libraries -/

/-- IEEE doubles with the functions of a library. The square root is not one of them, because IEEE
arithmetic says what it is. -/
@[reducible]
def Scalar.ofLibrary (lib : ElementaryFunctions Float) : Scalar Float where
  zero := 0.0
  one := 1.0
  decideLT := Float.decLt
  decideLE := Float.decLe
  nan := 0.0 / 0.0
  isNaN := Float.isNaN
  isFinite := Float.isFinite
  abs := Float.abs
  sqrt := Float.sqrt
  cbrt := lib.cbrt
  exp := lib.exp
  log := lib.log
  sin := lib.sin
  cos := lib.cos
  tan := lib.tan
  asin := lib.asin
  acos := lib.acos
  atan := lib.atan
  pow := lib.pow

namespace ElementaryFunctions

/-- The functions that the doubles of this program come with. -/
@[reducible]
def system : ElementaryFunctions Float where
  sqrt := Float.sqrt
  cbrt := Float.cbrt
  exp := Float.exp
  log := Float.log
  sin := Float.sin
  cos := Float.cos
  tan := Float.tan
  asin := Float.asin
  acos := Float.acos
  atan := Float.atan
  pow := Float.pow

theorem ofLibrary_system : Scalar.ofLibrary system = (inferInstance : Scalar Float) :=
  rfl

/-- What a library promises where the derivatives are singular. No double is a pole of the
tangent. -/
structure Documented (lib : ElementaryFunctions Float) : Prop where
  log_zero (u : Float) : (u == 0.0) = true → (lib.log u).isInf = true
  pow_zero (u v : Float) : (u == 0.0) = true → 0.0 < v → (lib.pow u v == 0.0) = true
  tan_finite (u : Float) : u.isFinite = true → (lib.tan u).isFinite = true
  asin_finite (u : Float) : u.abs ≤ 1.0 → (lib.asin u).isFinite = true
  acos_finite (u : Float) : u.abs ≤ 1.0 → (lib.acos u).isFinite = true

end ElementaryFunctions

/-! ## Values and entries -/

namespace Dual

variable {P Q : Float → Prop} {x y : Dual Float}

/-- The entries of the gradient; a constant has none. -/
def entries (x : Dual Float) : List Float :=
  x.gradient?.getD []

theorem forall_mem_zipWith {f : Float → Float → Float} {ps qs : List Float}
    (h : ∀ p ∈ ps, ∀ q ∈ qs, Q (f p q)) : ∀ d ∈ List.zipWith f ps qs, Q d := by
  intro d hd
  rw [← List.map_uncurry_zip_eq_zipWith] at hd
  obtain ⟨⟨p, q⟩, hpq, rfl⟩ := List.mem_map.1 hd
  obtain ⟨hp, hq⟩ := List.of_mem_zip hpq
  exact h p hp q hq

theorem forall_entries_lift (h : ∀ d ∈ x.entries, P d) (val : Float) {slope : Float → Float}
    (hslope : ∀ d, P d → Q (slope d)) : ∀ d ∈ (x.lift val slope).entries, Q d := by
  cases x with
  | constant u => exact List.forall_mem_nil _
  | varying u du => exact List.forall_mem_map.2 fun d hd => hslope d (h d hd)

theorem forall_entries_combine (hx : ∀ p ∈ x.entries, P p) (hy : ∀ q ∈ y.entries, P q) (val : Float)
    {left right : Float → Float} {both : Float → Float → Float} (hleft : ∀ p, P p → Q (left p))
    (hright : ∀ q, P q → Q (right q)) (hboth : ∀ p q, P p → P q → Q (both p q)) :
    ∀ d ∈ (Dual.combine x y val left right both).entries, Q d := by
  cases x with
  | constant a =>
    cases y with
    | constant b => exact List.forall_mem_nil _
    | varying v dv => exact List.forall_mem_map.2 fun q hq => hright q (hy q hq)
  | varying u du =>
    cases y with
    | constant b => exact List.forall_mem_map.2 fun p hp => hleft p (hx p hp)
    | varying v dv =>
      exact forall_mem_zipWith fun p hp q hq => hboth p q (hx p hp) (hy q hq)

/-- `P` holds of the value and of all entries. -/
def All (P : Float → Prop) (x : Dual Float) : Prop :=
  P x.value ∧ ∀ d ∈ x.entries, P d

instance [DecidablePred P] (x : Dual Float) : Decidable (x.All P) :=
  inferInstanceAs (Decidable (_ ∧ _))

/-- The value and all entries are finite. -/
def IsFinite (x : Dual Float) : Prop :=
  x.All fun d => d.isFinite = true

instance (x : Dual Float) : Decidable x.IsFinite :=
  inferInstanceAs (Decidable (x.All _))

/-- The value and all entries are of magnitude `1e100` at most. -/
def Bounded (x : Dual Float) : Prop :=
  x.All fun d => d.abs ≤ 1e100

instance (x : Dual Float) : Decidable x.Bounded :=
  inferInstanceAs (Decidable (x.All _))

/-! ## Guarded quotients -/

variable {num den : Float} {k : Nat}

/-- A bounded numerator over zero gives a bounded number. -/
theorem within_quotient (h : Within k num) (hden : (den == 0.0) = true) (hk : k + 50 ≤ 1023) :
    Within (k + 50) (quotient num den) := by
  obtain ⟨y, hy, hbound⟩ := exists_stands_guard
  have hquotient : quotient num den = num / 1e-15 := if_pos hden
  rw [hquotient]
  exact h.div hy hbound hk

theorem isNaN_quotient (h : num.isNaN = true) (den : Float) : (quotient num den).isNaN = true := by
  unfold quotient
  split_ifs <;> exact isNaN_div (.inl h)

/-- The entries of the power of two varying operands have no number left in them if the term that
the logarithm brings is none. -/
theorem isNaN_power_entry {growth : Float} (h : growth.isNaN = true) (val u v p q : Float) :
    (val * quotient (v * p + growth * q) u).isNaN = true :=
  isNaN_mul (.inr (isNaN_quotient (isNaN_add (.inr (isNaN_mul (.inl h)))) u))

/-- A quotient of bounded operands has a finite value and a finite gradient where the divisor is
zero. -/
theorem isFinite_div (hx : x.Bounded) (hy : y.Bounded) (hzero : (y.value == 0.0) = true) :
    (x / y).IsFinite := by
  have hu := within_of_abs_le hx.1
  have hv := within_of_abs_le hy.1
  have hsquare : (y.value * y.value == 0.0) = true := beq_zero_mul hzero hv.isFinite
  rw [div_eq_combine]
  refine ⟨?value, forall_entries_combine hx.2 hy.2 _ ?left ?right ?both⟩
  case value =>
    rw [value_combine]
    exact (within_quotient hu hzero (by decide)).isFinite
  case left =>
    intro p hp
    exact (within_quotient (within_of_abs_le hp) hzero (by decide)).isFinite
  case right =>
    intro q hq
    have hproduct := hu.neg.mul (within_of_abs_le hq) (by decide)
    exact (within_quotient hproduct hsquare (by decide)).isFinite
  case both =>
    intro p q hp hq
    have hleft := (within_of_abs_le hp).mul hv (by decide)
    have hright := hu.mul (within_of_abs_le hq) (by decide)
    exact (within_quotient (hleft.sub hright (by decide)) hsquare (by decide)).isFinite

/-- So has a function of a bounded operand whose derivative has the denominator zero. -/
theorem isFinite_lift (hx : x.Bounded) {val : Float} (hval : val.isFinite = true)
    (hzero : (den == 0.0) = true) : (x.lift val fun d => quotient d den).IsFinite
      ∧ (x.lift val fun d => -quotient d den).IsFinite := by
  have hquotient {d : Float} (hd : d.abs ≤ 1e100) : Within 383 (quotient d den) :=
    within_quotient (within_of_abs_le hd) hzero (by decide)
  have hvalue (slope : Float → Float) : (x.lift val slope).value.isFinite = true := by
    rwa [value_lift]
  exact ⟨⟨hvalue _, forall_entries_lift hx.2 _ fun d hd => (hquotient hd).isFinite⟩,
    hvalue _, forall_entries_lift hx.2 _ fun d hd => (hquotient hd).neg.isFinite⟩

end Dual

/-! ## The singular operands -/

open LeastSquares.Dual

variable (lib : ElementaryFunctions Float)

/-- The numerator of the power of two varying operands is no number at the base zero, and so no
entry is one. -/
theorem isNaN_entry_pow (documented : lib.Documented) {u v : Float} (du dv : List Float)
    (hzero : (u == 0.0) = true) :
    letI := Scalar.ofLibrary lib
    ∀ d ∈ ((varying u du).pow (varying v dv)).entries, d.isNaN = true := by
  have hgrowth : (u * lib.log u).isNaN = true :=
    isNaN_beq_zero_mul hzero (isFinite_of_isInf (documented.log_zero u hzero))
  exact forall_mem_zipWith fun p _ q _ => isNaN_power_entry hgrowth _ u v p q

/-- With any library, bounded operands give a finite value and a finite gradient in a division by
zero, in `tan` where the cosine is zero, and in `asin` and `acos` at the ends of their domain. The
power of two varying operands with the base zero and a positive exponent has a finite value, but no
entry of its gradient is a number. -/
theorem finite_at_singularities (documented : lib.Documented) :
    letI := Scalar.ofLibrary lib
    (∀ x y : Dual Float, x.Bounded → y.Bounded → (y.value == 0.0) = true → (x / y).IsFinite)
    ∧ (∀ x : Dual Float, x.Bounded → (lib.cos x.value == 0.0) = true → x.tan.IsFinite)
    ∧ (∀ x : Dual Float, x.Bounded → x.value = 1.0 ∨ x.value = -1.0 →
      x.asin.IsFinite ∧ x.acos.IsFinite)
    ∧ ∀ (u v : Float) (du dv : List Float), (u == 0.0) = true → 0.0 < v →
      ((varying u du).pow (varying v dv)).value.isFinite = true
      ∧ ∀ d ∈ ((varying u du).pow (varying v dv)).entries, d.isNaN = true := by
  refine ⟨fun x y hx hy hzero => ?_, fun x hx hcos => ?_, fun x hx hone => ?_,
    fun u v du dv hzero hpos => ⟨?_, isNaN_entry_pow lib documented du dv hzero⟩⟩
  · have hdiv := isFinite_div hx hy hzero
    cases x <;> cases y <;> exact hdiv
  · have hfinite : x.value.isFinite = true := (within_of_abs_le hx.1).isFinite
    have hden := beq_zero_mul hcos (isFinite_of_beq_zero hcos)
    exact (isFinite_lift hx (documented.tan_finite _ hfinite) hden).1
  · have habs : x.value.abs ≤ 1.0 := by
      rcases hone with h | h <;> rw [h] <;> decide +kernel
    have hden : (Float.sqrt (1.0 - x.value * x.value) == 0.0) = true := by
      rcases hone with h | h <;> rw [h] <;> decide +kernel
    exact ⟨(isFinite_lift hx (documented.asin_finite _ habs) hden).1,
      (isFinite_lift hx (documented.acos_finite _ habs) hden).2⟩
  · exact isFinite_of_beq_zero (documented.pow_zero u v hzero hpos)

/-- A library that is exact at zero and at one, as far as its results can be. -/
@[reducible]
def ElementaryFunctions.coarse : ElementaryFunctions Float where
  sqrt := Float.sqrt
  cbrt u := u
  exp _ := 1.0
  log u := if u == 0.0 then -1.0 / 0.0 else 0.0
  sin u := u
  cos _ := 1.0
  tan u := u
  asin u := if u == 1.0 then 1.5707963267948966 else 0.0
  acos u := if u == 1.0 then 0.0 else 1.5707963267948966
  atan u := u
  pow u _ := if u == 0.0 then 0.0 else 1.0

theorem ElementaryFunctions.Documented.coarse : ElementaryFunctions.coarse.Documented where
  log_zero u hu := by
    have hlog : ElementaryFunctions.coarse.log u = -1.0 / 0.0 := if_pos hu
    rw [hlog]
    decide +kernel
  pow_zero u v hu _ := by
    have hpow : ElementaryFunctions.coarse.pow u v = 0.0 := if_pos hu
    rw [hpow]
    decide +kernel
  tan_finite _ hu := hu
  asin_finite u _ := by
    show (if u == 1.0 then (1.5707963267948966 : Float) else 0.0).isFinite = true
    split_ifs <;> decide +kernel
  acos_finite u _ := by
    show (if u == 1.0 then (0.0 : Float) else 1.5707963267948966).isFinite = true
    split_ifs <;> decide +kernel

/-- A number divided by zero, the arc sine of one, and zero squared, all of varying operands. -/
theorem finite_at_singularities_coarse :
    let lib := ElementaryFunctions.coarse
    letI := Scalar.ofLibrary lib
    let zero : Dual Float := varying 0.0 [1.0, 0.0]
    let one : Dual Float := varying 1.0 [0.0, 1.0]
    let two : Dual Float := varying 2.0 [0.0, 1.0]
    lib.Documented ∧ zero.Bounded ∧ one.Bounded
      ∧ (one / zero).IsFinite ∧ one.asin.IsFinite ∧ (zero.pow two).value.isFinite = true
      ∧ ∀ d ∈ (zero.pow two).entries, d.isNaN = true := by
  intro lib zero one two
  obtain ⟨hdiv, -, hasin, hpow⟩ := finite_at_singularities lib .coarse
  have hzero : zero.Bounded := by decide +kernel
  have hone : one.Bounded := by decide +kernel
  exact ⟨.coarse, hzero, hone, hdiv one zero hone hzero (by decide +kernel),
    (hasin one hone (.inl rfl)).1, hpow 0.0 2.0 _ _ (by decide +kernel) (by decide +kernel)⟩

/-- Zero squared is zero and has the derivative zero, but it is not finite, although the operands
are. -/
theorem not_isFinite_zero_pow_two :
    letI := Scalar.ofLibrary ElementaryFunctions.coarse
    let zero : Dual Float := varying 0.0 [1.0, 0.0]
    let two : Dual Float := varying 2.0 [0.0, 1.0]
    ElementaryFunctions.coarse.Documented ∧ zero.Bounded ∧ two.Bounded
      ∧ (zero.value == 0.0) = true ∧ 0.0 < two.value ∧ ¬ (zero.pow two).IsFinite :=
  ⟨.coarse, by decide +kernel, by decide +kernel, by decide +kernel, by decide +kernel,
    by decide +kernel⟩

end LeastSquares
