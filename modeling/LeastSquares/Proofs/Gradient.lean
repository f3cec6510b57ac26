/-
LeastSquares.Proofs.Gradient — dual numbers hold the gradient.

The chain rule is proved twice: for an operation on one dual (`Differentiates.lift`) and for one on
two duals (`Differentiates.combine`). An operation of the language then only has to bring the
derivative of the function it is named after. Where that derivative exists is said by
`Expression.Regular`, node by node.

A dual number is what it should be if it has the right length (`Dual.Fits`), the right value and the
right entries. `Differentiates` says all three, and is what each operation preserves. Gradients are
vectors of Euclidean space here: Mathlib's derivatives are those of normed spaces, and the program
has lists.

A power has two rules. At a positive base both operands may vary. At a negative one the exponent has
to be a whole number that does not depend on the point, because the power is not continuous in the
exponent there.
-/
import Mathlib
import LeastSquares.Proofs.Exact

namespace LeastSquares

open Postfix

variable {n : Nat}

/-! ## Points

A tape is evaluated at a vector of coordinates, and gradients are vectors of Euclidean space, where
they stand for linear maps. Both are given by their entries, so one is turned into the other and
back. That a coordinate is replaced in the one is a motion along an axis in the other. -/

/-- The point of Euclidean space with the same coordinates. -/
def Vec.toEuclidean (x : Vec ℝ n) : EuclideanSpace ℝ (Fin n) :=
  WithLp.toLp 2 x.get

/-- The coordinates of a point of Euclidean space. -/
def Vec.ofEuclidean (y : EuclideanSpace ℝ (Fin n)) : Vec ℝ n :=
  Vector.ofFn fun i => y i

@[simp] theorem Vec.get_ofEuclidean (y : EuclideanSpace ℝ (Fin n)) (i : Fin n) :
    (Vec.ofEuclidean y).get i = y i :=
  Vec.get_ofFn _ i

@[simp] theorem Vec.toEuclidean_apply (x : Vec ℝ n) (i : Fin n) : x.toEuclidean i = x.get i :=
  rfl

@[simp] theorem Vec.ofEuclidean_toEuclidean (x : Vec ℝ n) : ofEuclidean x.toEuclidean = x :=
  Vec.ext_get fun i => by simp

@[simp] theorem Vec.toEuclidean_ofEuclidean (y : EuclideanSpace ℝ (Fin n)) :
    (ofEuclidean y).toEuclidean = y := by
  ext i
  simp

/-- Changing one coordinate is a motion along its axis. -/
theorem Vec.toEuclidean_set (x : Vec ℝ n) (j : Fin n) (s : ℝ) :
    Vec.toEuclidean (x.set j s j.isLt)
      = x.toEuclidean + (s - x.get j) • EuclideanSpace.single j (1 : ℝ) := by
  ext i
  rw [toEuclidean_apply]
  rcases eq_or_ne i j with rfl | hij
  · simp [Vector.get_eq_getElem]
  · have hji : (j : ℕ) ≠ i := fun h => hij (Fin.ext h.symm)
    simp [Vector.get_eq_getElem, hij, hji]

/-- The entries of a gradient are the partial derivatives. -/
theorem hasDerivAt_of_hasGradientAt {f : EuclideanSpace ℝ (Fin n) → ℝ}
    {gradient : EuclideanSpace ℝ (Fin n)} {x : Vec ℝ n}
    (h : HasGradientAt f gradient x.toEuclidean) (j : Fin n) :
    HasDerivAt (fun s => f (Vec.toEuclidean (x.set j s j.isLt))) (gradient j) (x.get j) := by
  have haxis : HasDerivAt (fun s : ℝ => Vec.toEuclidean (x.set j s j.isLt))
      ((1 : ℝ) • EuclideanSpace.single j (1 : ℝ)) (x.get j) := by
    simp only [Vec.toEuclidean_set]
    exact (((hasDerivAt_id (x.get j)).sub_const (x.get j)).smul_const _).const_add _
  -- the motion along the axis passes through `x` where the coordinate is the old one
  have hx : x = x.set j (x.get j) j.isLt := by simp [Vector.get_eq_getElem]
  have hgrad := h.hasFDerivAt
  rw [hx] at hgrad
  refine (hgrad.comp_hasDerivAt (x.get j) haxis).congr_deriv ?_
  simp [EuclideanSpace.inner_single_right]

namespace Dual

/-- The gradient as a vector. -/
noncomputable def gradient (n : Nat) (d : Dual ℝ) : EuclideanSpace ℝ (Fin n) :=
  WithLp.toLp 2 fun j => d.entry j

/-- A dual holds the value of `f` at `x` and the gradient that `f` has there. A constant fits any
number of parameters; it stores no entries, and they count as zero. -/
structure Differentiates (d : Dual ℝ) (f : EuclideanSpace ℝ (Fin n) → ℝ)
    (x : EuclideanSpace ℝ (Fin n)) : Prop where
  fits : d.Fits n
  value : d.value = f x
  gradient : HasGradientAt f (d.gradient n) x

/-! ## The chain rule

An operation is given formulas for the entries of its result: `slope` on one dual, and on two duals
`both`, or `left` and `right` if only one of them has a gradient. The program writes each formula in
its own way. All that the chain rule asks of them is that they are linear in the entries, with the
partial derivatives as factors, the same ones in all three. -/

section ChainRule

variable {c d : Dual ℝ} {f g : EuclideanSpace ℝ (Fin n) → ℝ} {x : EuclideanSpace ℝ (Fin n)}

/-- It does not matter what the function is away from the point. -/
theorem Differentiates.congr (h : Differentiates d f x) (hfg : g =ᶠ[nhds x] f) :
    Differentiates d g x where
  fits := h.fits
  value := h.value.trans hfg.eq_of_nhds.symm
  gradient := h.gradient.congr_of_eventuallyEq hfg

/-- A constant stores no gradient, and its gradient is zero. -/
theorem differentiates_constant (a : ℝ) (x : EuclideanSpace ℝ (Fin n)) :
    Differentiates (.constant a) (fun _ => a) x where
  fits := trivial
  value := rfl
  gradient := by
    have hzero : (constant a).gradient n = 0 := by
      ext j
      rfl
    rw [hzero]
    exact hasGradientAt_const x a

/-- A parameter is a coordinate, and its gradient is a unit vector. -/
theorem differentiates_ofVariable (i : Fin n) (x : EuclideanSpace ℝ (Fin n)) :
    Differentiates (ofVariable (x i) i) (fun y => y i) x where
  fits := fits_ofVariable _ _
  value := rfl
  gradient := by
    have hunit : (ofVariable (x i) i).gradient n = EuclideanSpace.single i 1 := by
      ext j
      simp [Dual.gradient, entry_ofVariable]
    let proj : EuclideanSpace ℝ (Fin n) →L[ℝ] ℝ := EuclideanSpace.proj i
    have hproj : HasFDerivAt (fun y => y i) proj x := proj.hasFDerivAt
    rw [hunit, hasGradientAt_iff_hasFDerivAt]
    refine hproj.congr_fderiv ?_
    ext v
    simp [proj, EuclideanSpace.inner_single_left]

/-- The chain rule for a function of one number with the derivative `φ'`. -/
theorem Differentiates.lift (h : Differentiates d f x) {φ : ℝ → ℝ} {φ' : ℝ}
    (hφ : HasDerivAt φ φ' d.value) {slope : ℝ → ℝ} (hslope : ∀ p, slope p = φ' * p) :
    Differentiates (d.lift (φ d.value) slope) (fun y => φ (f y)) x where
  fits := h.fits.lift _ _
  value := by rw [value_lift, h.value]
  gradient := by
    -- the entries are scaled, so the gradient is, and so is the linear map that it stands for
    have hgrad : (d.lift (φ d.value) slope).gradient n = φ' • d.gradient n := by
      ext j
      have hentry : (d.lift (φ d.value) slope).entry j = slope (d.entry j) :=
        entry_lift h.fits _ (by simp [hslope]) j
      simp [Dual.gradient, hentry, hslope]
    have hcomp := (h.value ▸ hφ).comp_hasFDerivAt x h.gradient.hasFDerivAt
    rw [hgrad, hasGradientAt_iff_hasFDerivAt, map_smulₛₗ]
    exact hcomp

/-- The chain rule for a function of two numbers with the partial derivatives `a` and `b`. -/
theorem Differentiates.combine (hc : Differentiates c f x) (hd : Differentiates d g x)
    {φ : ℝ × ℝ → ℝ} {a b : ℝ}
    (hφ : HasFDerivAt φ (a • ContinuousLinearMap.fst ℝ ℝ ℝ + b • ContinuousLinearMap.snd ℝ ℝ ℝ)
      (c.value, d.value))
    {left right : ℝ → ℝ} {both : ℝ → ℝ → ℝ} (hl : ∀ p, left p = a * p) (hr : ∀ q, right q = b * q)
    (hb : ∀ p q, both p q = a * p + b * q) :
    Differentiates (combine c d (φ (c.value, d.value)) left right both)
      (fun y => φ (f y, g y)) x where
  fits := hc.fits.combine hd.fits ..
  value := by rw [value_combine, hc.value, hd.value]
  gradient := by
    have hgrad : (Dual.combine c d (φ (c.value, d.value)) left right both).gradient n
        = a • c.gradient n + b • d.gradient n := by
      ext j
      have hentry : (Dual.combine c d (φ (c.value, d.value)) left right both).entry j
          = both (c.entry j) (d.entry j) :=
        entry_combine hc.fits hd.fits _ (by simp [hl, hb]) (by simp [hr, hb]) (by simp [hb]) j
      simp [Dual.gradient, hentry, hb]
    rw [hc.value, hd.value] at hφ
    have hcomp := hφ.comp x (hc.gradient.hasFDerivAt.prodMk hd.gradient.hasFDerivAt)
    rw [hgrad, hasGradientAt_iff_hasFDerivAt, map_add, map_smulₛₗ, map_smulₛₗ]
    refine hcomp.congr_fderiv ?_
    ext v
    simp

end ChainRule

/-! ## The operations of the language

For an operation there are two things left to do. `hφ` is the derivative of a function of one or two
real numbers, put together from Mathlib's. Then the formulas of the program have to be brought into
the linear form, which is algebra, once it is known that the guard does not touch a denominator
(`Exact.quotient_eq`). -/

section Operations

variable {c d : Dual ℝ} {f g : EuclideanSpace ℝ (Fin n) → ℝ} {x : EuclideanSpace ℝ (Fin n)}

/-- A sum: both partial derivatives are one. -/
theorem Differentiates.add (hc : Differentiates c f x) (hd : Differentiates d g x) :
    Differentiates (c + d) (fun y => f y + g y) x := by
  have hφ : HasFDerivAt (fun p : ℝ × ℝ => p.1 + p.2)
      ((1 : ℝ) • ContinuousLinearMap.fst ℝ ℝ ℝ + (1 : ℝ) • ContinuousLinearMap.snd ℝ ℝ ℝ)
      (c.value, d.value) := by
    refine (hasFDerivAt_fst.add hasFDerivAt_snd).congr_fderiv ?_
    ext <;> simp
  rw [add_eq_combine]
  exact hc.combine hd hφ (by simp) (by simp) (by simp)

/-- A difference: one of them is minus one. -/
theorem Differentiates.sub (hc : Differentiates c f x) (hd : Differentiates d g x) :
    Differentiates (c - d) (fun y => f y - g y) x := by
  have hφ : HasFDerivAt (fun p : ℝ × ℝ => p.1 - p.2)
      ((1 : ℝ) • ContinuousLinearMap.fst ℝ ℝ ℝ + (-1 : ℝ) • ContinuousLinearMap.snd ℝ ℝ ℝ)
      (c.value, d.value) := by
    refine (hasFDerivAt_fst.sub hasFDerivAt_snd).congr_fderiv ?_
    ext <;> simp
  rw [sub_eq_combine]
  exact hc.combine hd hφ (by simp) (fun q => mul_comm q (-1)) (fun p q => by ring)

/-- A product: each factor is the derivative by the other one. The program writes a factor with a
gradient first, so the product has to be commutative. -/
theorem Differentiates.mul (hc : Differentiates c f x) (hd : Differentiates d g x) :
    Differentiates (c * d) (fun y => f y * g y) x := by
  have hφ : HasFDerivAt (fun p : ℝ × ℝ => p.1 * p.2)
      (d.value • ContinuousLinearMap.fst ℝ ℝ ℝ + c.value • ContinuousLinearMap.snd ℝ ℝ ℝ)
      (c.value, d.value) := by
    refine (hasFDerivAt_fst.fun_mul hasFDerivAt_snd).congr_fderiv ?_
    ext <;> simp
  rw [mul_eq_combine, value_mul mul_comm]
  exact hc.combine hd hφ (fun p => mul_comm p _) (fun q => mul_comm q _) (fun p q => add_comm _ _)

/-- A quotient has a derivative where the divisor is not zero. -/
theorem Differentiates.div (hc : Differentiates c f x) (hd : Differentiates d g x)
    (hne : d.value ≠ 0) : Differentiates (c / d) (fun y => quotient (f y) (g y)) x := by
  have hφ : HasFDerivAt (fun p : ℝ × ℝ => p.1 / p.2)
      ((1 / d.value) • ContinuousLinearMap.fst ℝ ℝ ℝ
        + (-c.value / (d.value * d.value)) • ContinuousLinearMap.snd ℝ ℝ ℝ)
      (c.value, d.value) := by
    have hsnd : HasFDerivAt Prod.snd (ContinuousLinearMap.snd ℝ ℝ ℝ) (c.value, d.value) :=
      hasFDerivAt_snd
    have hinv := (hasDerivAt_inv hne).comp_hasFDerivAt (c.value, d.value) hsnd
    simp only [div_eq_mul_inv]
    refine (hasFDerivAt_fst.fun_mul hinv).congr_fderiv ?_
    ext <;> simp [pow_two]
  have hne2 : d.value * d.value ≠ 0 := mul_ne_zero hne hne
  -- the divisor is not zero near `x` either, so the guard changes nothing there
  have hnear : (fun y => quotient (f y) (g y)) =ᶠ[nhds x] fun y => f y / g y := by
    rw [hd.value] at hne
    filter_upwards [hd.gradient.continuousAt.eventually_ne hne] with y hy
    exact Exact.quotient_eq hy (f y)
  rw [div_eq_combine, Exact.quotient_eq hne]
  refine (hc.combine hd hφ ?_ ?_ ?_).congr hnear
  · intro p
    rw [Exact.quotient_eq hne]
    ring
  · intro q
    rw [Exact.quotient_eq hne2]
    ring
  · -- over the common denominator
    intro p q
    rw [Exact.quotient_eq hne2]
    field_simp
    ring

/-- At a positive base both operands of a power may vary. -/
theorem Differentiates.pow (hc : Differentiates c f x) (hd : Differentiates d g x)
    (hpos : 0 < c.value) : Differentiates (c.pow d) (fun y => f y ^ g y) x := by
  -- Mathlib's derivative in both variables, which holds at a positive base only
  have hφ := (Real.hasStrictFDerivAt_rpow_of_pos (c.value, d.value) hpos).hasFDerivAt
  have hne : c.value ≠ 0 := hpos.ne'
  rw [pow_eq_combine]
  refine hc.combine hd hφ ?_ ?_ ?_
  · intro p
    exact mul_comm p _
  · intro q
    show q * (Real.log c.value * c.value ^ d.value) = c.value ^ d.value * Real.log c.value * q
    ring
  · -- the program divides by the base where the derivative lowers the exponent
    intro p q
    rw [Exact.quotient_eq hne]
    show c.value ^ d.value * ((d.value * p + c.value * Real.log c.value * q) / c.value)
      = d.value * c.value ^ (d.value - 1) * p + c.value ^ d.value * Real.log c.value * q
    rw [Real.rpow_sub_one hne]
    field_simp

/-- At any base but zero a power has a derivative if its exponent is constant. -/
theorem Differentiates.pow_constant (hc : Differentiates c f x) (hne : c.value ≠ 0) (k : ℝ) :
    Differentiates (c.pow (.constant k)) (fun y => f y ^ k) x := by
  have hlift : c.pow (.constant k)
      = c.lift (c.value ^ k) fun p => p * (k * c.value ^ (k - 1)) := by
    cases c <;> rfl
  rw [hlift]
  exact hc.lift (Real.hasDerivAt_rpow_const (.inl hne)) fun p => mul_comm p _

/-- The exponents are shifted to keep them small. In exact arithmetic the shift cancels. -/
theorem smoothMax_eq (c d : Dual ℝ) : smoothMax 1 c d =
    blend c d (Real.log (Real.exp c.value + Real.exp d.value))
      (Real.exp c.value / (Real.exp c.value + Real.exp d.value))
      (Real.exp d.value / (Real.exp c.value + Real.exp d.value)) := by
  rw [Dual.smoothMax, Exact.logSumExp_eq]
  simp

/-- The minimum is the maximum with all signs turned. -/
theorem smoothMin_eq (c d : Dual ℝ) : smoothMin 1 c d =
    blend c d (-Real.log (Real.exp (-c.value) + Real.exp (-d.value)))
      (Real.exp (-c.value) / (Real.exp (-c.value) + Real.exp (-d.value)))
      (Real.exp (-d.value) / (Real.exp (-c.value) + Real.exp (-d.value))) := by
  rw [Dual.smoothMin, Exact.logSumExp_eq]
  simp

/-- The smooth maximum `log (exp u + exp v)` of two numbers changes with each of them by its share
of the sum. -/
theorem hasFDerivAt_log_exp_add_exp (a b : ℝ) :
    HasFDerivAt (fun p : ℝ × ℝ => Real.log (Real.exp p.1 + Real.exp p.2))
      ((Real.exp a / (Real.exp a + Real.exp b)) • ContinuousLinearMap.fst ℝ ℝ ℝ
        + (Real.exp b / (Real.exp a + Real.exp b)) • ContinuousLinearMap.snd ℝ ℝ ℝ) (a, b) := by
  have hfst : HasFDerivAt Prod.fst (ContinuousLinearMap.fst ℝ ℝ ℝ) (a, b) := hasFDerivAt_fst
  have hsnd : HasFDerivAt Prod.snd (ContinuousLinearMap.snd ℝ ℝ ℝ) (a, b) := hasFDerivAt_snd
  have hpos : 0 < Real.exp a + Real.exp b := by positivity
  have hlog := (hfst.exp.add hsnd.exp).log hpos.ne'
  refine hlog.congr_fderiv ?_
  ext <;> simp [div_eq_inv_mul]

/-- The shares are the weights of `blend`, so the rule is the one of the program as it stands. -/
theorem Differentiates.smoothMax (hc : Differentiates c f x) (hd : Differentiates d g x) :
    Differentiates (smoothMax 1 c d) (fun y => Real.log (Real.exp (f y) + Real.exp (g y))) x := by
  have hφ := hasFDerivAt_log_exp_add_exp c.value d.value
  rw [smoothMax_eq, blend_eq_combine]
  exact hc.combine hd hφ (fun p => mul_comm p _) (fun q => mul_comm q _) (fun _ _ => rfl)

theorem Differentiates.smoothMin (hc : Differentiates c f x) (hd : Differentiates d g x) :
    Differentiates (smoothMin 1 c d)
      (fun y => -Real.log (Real.exp (-f y) + Real.exp (-g y))) x := by
  -- the minimum of two numbers is the opposite of the maximum of their opposites
  have hneg : HasFDerivAt (fun p : ℝ × ℝ => (-p.1, -p.2))
      ((-ContinuousLinearMap.fst ℝ ℝ ℝ).prod (-ContinuousLinearMap.snd ℝ ℝ ℝ))
      (c.value, d.value) :=
    hasFDerivAt_fst.neg.prodMk hasFDerivAt_snd.neg
  have hmax := (hasFDerivAt_log_exp_add_exp (-c.value) (-d.value)).comp (c.value, d.value) hneg
  have hφ : HasFDerivAt (fun p : ℝ × ℝ => -Real.log (Real.exp (-p.1) + Real.exp (-p.2)))
      ((Real.exp (-c.value) / (Real.exp (-c.value) + Real.exp (-d.value)))
          • ContinuousLinearMap.fst ℝ ℝ ℝ
        + (Real.exp (-d.value) / (Real.exp (-c.value) + Real.exp (-d.value)))
          • ContinuousLinearMap.snd ℝ ℝ ℝ) (c.value, d.value) := by
    refine hmax.neg.congr_fderiv ?_
    ext <;> simp
  rw [smoothMin_eq, blend_eq_combine]
  exact hc.combine hd hφ (fun p => mul_comm p _) (fun q => mul_comm q _) (fun _ _ => rfl)

end Operations

end Dual

/-! ## Regular points

What is needed of a point is that each operation has a derivative at the numbers that it is given
there, and that the program computes it without its guard. This is a condition on the values at the
nodes of the expression. `Regular` collects these conditions along the tree, and by induction on the
tree the rules above are put together at each node. -/

/-- The function has a derivative at `u`, and computes it without a guard. Those left out have one
everywhere, and `atan` divides by a number that is one at least. -/
def Postfix.Elementary.RegularAt (u : ℝ) : Elementary → Prop
  | .tan => Real.cos u ≠ 0
  | .asin => -1 < u ∧ u < 1
  | .acos => -1 < u ∧ u < 1
  | .sqrt => 0 < u
  | .log => 0 < u
  | _ => True

/-- The rule of each function is its derivative times the entry. -/
theorem Dual.Differentiates.elementary {d : Dual ℝ} {g : EuclideanSpace ℝ (Fin n) → ℝ}
    {x : EuclideanSpace ℝ (Fin n)} (h : Differentiates d g x) {f : Elementary}
    (regular : f.RegularAt d.value) :
    Differentiates (f.dual d) (fun y => f.value (g y)) x := by
  -- the denominator of `asin` and of `acos`
  have root_ne (u : ℝ) (hu : -1 < u ∧ u < 1) : Real.sqrt (1 - u * u) ≠ 0 := by
    rw [Real.sqrt_ne_zero']
    nlinarith
  -- the rules of `tan`, `asin`, `acos` and `atan` are written with the guarded quotient
  cases f with
  | sin => exact h.lift (Real.hasDerivAt_sin _) fun p => rfl
  | cos => exact h.lift (Real.hasDerivAt_cos _) fun p => rfl
  | tan =>
    refine h.lift (Real.hasDerivAt_tan regular) fun p => ?_
    show Dual.quotient p (Real.cos d.value * Real.cos d.value) = 1 / Real.cos d.value ^ 2 * p
    rw [Exact.quotient_eq (mul_ne_zero regular regular)]
    ring
  | asin =>
    refine h.lift (Real.hasDerivAt_arcsin regular.1.ne' regular.2.ne) fun p => ?_
    show Dual.quotient p (Real.sqrt (1 - d.value * d.value)) = 1 / Real.sqrt (1 - d.value ^ 2) * p
    rw [Exact.quotient_eq (root_ne _ regular), pow_two]
    ring
  | acos =>
    refine h.lift (Real.hasDerivAt_arccos regular.1.ne' regular.2.ne) fun p => ?_
    show -Dual.quotient p (Real.sqrt (1 - d.value * d.value))
      = -(1 / Real.sqrt (1 - d.value ^ 2)) * p
    rw [Exact.quotient_eq (root_ne _ regular), pow_two]
    ring
  | atan =>
    refine h.lift (Real.hasDerivAt_arctan _) fun p => ?_
    have hne : 1 + d.value * d.value ≠ 0 :=
      (add_pos_of_pos_of_nonneg one_pos (mul_self_nonneg d.value)).ne'
    rw [Exact.quotient_eq hne]
    ring
  | exp => exact h.lift (Real.hasDerivAt_exp _) fun p => rfl
  | sqrt =>
    refine h.lift (Real.hasDerivAt_sqrt regular.ne') fun p => ?_
    show p / (2.0 * Real.sqrt d.value) = 1 / (2 * Real.sqrt d.value) * p
    norm_num
    ring
  | log =>
    refine h.lift (Real.hasDerivAt_log regular.ne') fun p => ?_
    ring
  | neg => exact h.lift (hasDerivAt_neg _) fun p => (neg_one_mul p).symm

namespace Postfix.Expression

/-- The expression has no parameter in it. -/
def Closed (e : Expression n) : Prop :=
  ∀ i, .parameter i ∉ e.listing

/-- A closed expression is a constant, the same one everywhere: no operation gives a constant a
gradient. -/
theorem Closed.dual {e : Expression n} (h : e.Closed) :
    ∃ k : ℝ, ∀ x : Vec ℝ n, e.dual x = .constant k := by
  induction e with
  | literal number => exact ⟨number.toScalar, fun _ => rfl⟩
  | parameter i => exact absurd (by simp [listing]) (h i)
  | elementary f e ih =>
    obtain ⟨k, hk⟩ := ih fun i hi => h i (by simp [listing, hi])
    refine ⟨f.value k, fun x => ?_⟩
    rw [Expression.dual, hk]
    cases f <;> rfl
  | operator op left right ihl ihr =>
    obtain ⟨a, ha⟩ := ihl fun i hi => h i (by simp [listing, hi])
    obtain ⟨b, hb⟩ := ihr fun i hi => h i (by simp [listing, hi])
    refine ⟨(op.dual (.constant a) (.constant b)).value, fun x => ?_⟩
    cases op <;> rw [Expression.dual, ha, hb] <;> rfl
  | extremum e left right ihl ihr =>
    obtain ⟨a, ha⟩ := ihl fun i hi => h i (by simp [listing, hi])
    obtain ⟨b, hb⟩ := ihr fun i hi => h i (by simp [listing, hi])
    refine ⟨(e.dual (.constant a) (.constant b)).value, fun x => ?_⟩
    cases e <;> rw [Expression.dual, ha, hb] <;> rfl

/-- Every operation of the expression has a derivative where it is executed: no divisor is zero,
the functions are inside of their domains, and a power has a positive base, or it has a base other
than zero and an exponent without parameters that is a whole number. -/
def Regular (x : Vec ℝ n) : Expression n → Prop
  | literal _ => True
  | parameter _ => True
  | elementary f e => e.Regular x ∧ f.RegularAt (e.dual x).value
  | operator op left right => left.Regular x ∧ right.Regular x
    ∧ (op = .div → (right.dual x).value ≠ 0)
    ∧ (op = .pow → 0 < (left.dual x).value
      ∨ (left.dual x).value ≠ 0 ∧ right.Closed ∧ ∃ k : ℤ, (right.dual x).value = k)
  | extremum _ left right => left.Regular x ∧ right.Regular x

/-- At a regular point the dual number of an expression holds the gradient of its value. -/
theorem Regular.differentiates {x : Vec ℝ n} {e : Expression n} (h : e.Regular x) :
    (e.dual x).Differentiates (fun y => (e.dual (Vec.ofEuclidean y)).value) x.toEuclidean := by
  -- at each node the value of the node is rewritten to the function of the values below it
  induction e with
  | literal number => exact Dual.differentiates_constant _ _
  | parameter i =>
    have hi := Dual.differentiates_ofVariable i x.toEuclidean
    simpa only [Expression.dual, Dual.ofVariable, Dual.value, Vec.toEuclidean_apply,
      Vec.get_ofEuclidean] using hi
  | elementary f e ih =>
    obtain ⟨inner, regular⟩ := h
    simp only [Expression.dual, Dual.value_elementary]
    exact (ih inner).elementary regular
  | operator op left right ihl ihr =>
    obtain ⟨hl, hr, divisor, power⟩ := h
    have hc := ihl hl
    have hd := ihr hr
    cases op with
    | add =>
      simp only [Expression.dual, Dual.value_add]
      exact hc.add hd
    | sub =>
      simp only [Expression.dual, Dual.value_sub]
      exact hc.sub hd
    | mul =>
      have comm : ∀ a b : ℝ, a * b = b * a := mul_comm
      simp only [Expression.dual, Dual.value_mul comm]
      exact hc.mul hd
    | div =>
      simp only [Expression.dual, Dual.value_div]
      exact hc.div hd (divisor rfl)
    | pow =>
      simp only [Expression.dual, Dual.value_pow]
      rcases power rfl with hpos | ⟨hne, closed, -⟩
      · exact hc.pow hd hpos
      · -- the rule needs a constant exponent only; it is a whole number so that the power exists
        obtain ⟨k, hk⟩ := closed.dual
        simp only [hk]
        exact hc.pow_constant hne k
  | extremum e left right ihl ihr =>
    obtain ⟨hl, hr⟩ := h
    have hc := ihl hl
    have hd := ihr hr
    cases e with
    | max =>
      simp only [Expression.dual, Dual.smoothMax_eq, Dual.value_blend]
      simpa only [Dual.smoothMax_eq] using hc.smoothMax hd
    | min =>
      simp only [Expression.dual, Dual.smoothMin_eq, Dual.value_blend]
      simpa only [Dual.smoothMin_eq] using hc.smoothMin hd

end Postfix.Expression

/-- At a regular point, `gradientRow` returns the value of the function that a tape computes in
dual numbers, and its gradient: the function has a derivative there, and each entry is the partial
derivative in the direction of that parameter. -/
theorem gradientRow_correct {params : List String} (t : Tape params) (x : Vec ℝ params.length)
    (regular : t.tree.Regular x) :
    (t.gradientRow x).1 = (t.dual x).value
      ∧ ∃ gradient : Vec ℝ params.length, (t.gradientRow x).2 = gradient.toList
        ∧ HasGradientAt (fun y => (t.dual (Vec.ofEuclidean y)).value) gradient.toEuclidean
          x.toEuclidean
        ∧ ∀ j : Fin params.length,
          HasDerivAt (fun s => (t.dual (x.set j s j.isLt)).value) (gradient.get j) (x.get j) := by
  have h := regular.differentiates
  simp only [← Tape.dual_tree] at h
  -- the row lists the entries, one for each parameter, also if the value is a constant
  have hrow : (t.dual x).gradientOr params.length
      = (Vec.ofEuclidean ((t.dual x).gradient params.length)).toList := by
    rw [h.fits.gradientOr_eq, Vec.ofEuclidean, Vector.toList_ofFn]
    rfl
  refine ⟨rfl, Vec.ofEuclidean ((t.dual x).gradient _), hrow, ?_, fun j => ?_⟩
  · rw [Vec.toEuclidean_ofEuclidean]
    exact h.gradient
  · rw [Vec.get_ofEuclidean]
    have hpartial := hasDerivAt_of_hasGradientAt h.gradient j
    simpa only [Vec.ofEuclidean_toEuclidean] using hpartial

/-- `x -2 ^ y / y sqrt + x tan max` at a negative base: all the rules at once. -/
theorem gradientRow_correct_at_negative_base :
    let t : Tape ["x", "y"] := ⟨[.parameter "x" 0, .literal "-2" ⟨true, 2, 0⟩, .operator .pow,
      .parameter "y" 1, .operator .div, .parameter "y" 1, .call (.elementary .sqrt), .operator .add,
      .parameter "x" 0, .call (.elementary .tan), .call (.extremum .max)], rfl⟩
    let x : Vec ℝ 2 := #v[-1, 2]
    t.tree.Regular x ∧ ∃ gradient : Vec ℝ 2, (t.gradientRow x).2 = gradient.toList
      ∧ ∀ j : Fin 2,
        HasDerivAt (fun s => (t.dual (x.set j s j.isLt)).value) (gradient.get j) (x.get j) := by
  intro t x
  have exponent : ((⟨true, 2, 0⟩ : Decimal).toScalar : ℝ) = (-2 : ℤ) := by
    show -(OfScientific.ofScientific 2 true 0 : ℝ) = (-2 : ℤ)
    norm_num
  have closed : (.literal ⟨true, 2, 0⟩ : Expression 2).Closed := by
    intro i
    simp [Expression.listing]
  have base : (-1 : ℝ) ≠ 0 := by norm_num
  have power : (.operator .pow (.parameter 0) (.literal ⟨true, 2, 0⟩) : Expression 2).Regular x :=
    ⟨trivial, trivial, by simp, fun _ => .inr ⟨base, closed, -2, exponent⟩⟩
  have positive : (0 : ℝ) < 2 := two_pos
  have angle : Real.cos (-1) ≠ 0 := by
    rw [Real.cos_neg]
    exact Real.cos_one_pos.ne'
  have regular : t.tree.Regular x :=
    ⟨⟨⟨power, trivial, fun _ => positive.ne', by simp⟩, ⟨trivial, positive⟩, by simp, by simp⟩,
      trivial, angle⟩
  obtain ⟨-, gradient, hrow, -, hpartial⟩ := gradientRow_correct t x regular
  exact ⟨regular, gradient, hrow, hpartial⟩

end LeastSquares
