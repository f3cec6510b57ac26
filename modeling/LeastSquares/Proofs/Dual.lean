/-
LeastSquares.Proofs.Dual — the shape that all operations on duals share.

An operation on one dual is a `lift`, and an operation on two duals is a `combine`: a value, and
one formula for the entries of the gradient in each of the three cases in which there is one. What
such an operation does to the value, to the length of the gradient (`Fits`) and to a single entry
(`entry`) is said once, for `lift` and for `combine`.

None of this needs a law of arithmetic, so it holds of rounded numbers as well. Only the value of a
product needs one, because a varying factor changes places with a constant one.
-/
import LeastSquares.Proofs.Expression

namespace LeastSquares

namespace Dual

variable {K : Type} {n : Nat}

/-! ## Operations on one and on two duals

The program writes out each operation with its cases, and so does `Dual`. That they are all of the
same form is a fact about them, proved by looking at the cases; `lift` is in the program, `combine`
and `select` are not. -/

/-- An operation on two duals with the value `val`. An entry of its gradient is `left` of the
entry of the first operand if only that varies, `right` of the entry of the second operand if only
that varies, and `both` of the two entries if both vary. -/
def combine (x y : Dual K) (val : K) (left right : K → K) (both : K → K → K) : Dual K :=
  match x, y with
  | constant _, constant _ => constant val
  | varying _ du, constant _ => varying val (du.map left)
  | constant _, varying _ dv => varying val (dv.map right)
  | varying _ du, varying _ dv => varying val (List.zipWith both du dv)

/-- One of four, by which of the two operands vary. -/
def select {α : Type} (x y : Dual K) (neither left right both : α) : α :=
  match x, y with
  | constant _, constant _ => neither
  | varying _ _, constant _ => left
  | constant _, varying _ _ => right
  | varying _ _, varying _ _ => both

@[simp] theorem select_self {α : Type} (x y : Dual K) (a : α) : select x y a a a a = a := by
  cases x <;> cases y <;> rfl

@[simp] theorem value_lift (x : Dual K) (val : K) (slope : K → K) :
    (x.lift val slope).value = val := by
  cases x <;> rfl

@[simp] theorem value_combine (x y : Dual K) (val : K) (left right : K → K) (both : K → K → K) :
    (combine x y val left right both).value = val := by
  cases x <;> cases y <;> rfl

/-- Does the number have a gradient? -/
def Varies {K : Type} (x : Dual K) : Prop :=
  x.gradient?.isSome = true

theorem varies_lift (x : Dual K) (val : K) (slope : K → K) :
    (x.lift val slope).Varies ↔ x.Varies := by
  cases x <;> rfl

/-- A gradient comes from either operand. -/
theorem varies_combine (x y : Dual K) (val : K) (left right : K → K) (both : K → K → K) :
    (combine x y val left right both).Varies ↔ x.Varies ∨ y.Varies := by
  cases x <;> cases y <;> simp [combine, Varies, gradient?]

/-- A gradient, if there is one, has `n` entries. -/
def Fits (n : Nat) : Dual K → Prop
  | constant _ => True
  | varying _ grad => grad.length = n

theorem Fits.lift {x : Dual K} (hx : x.Fits n) (val : K) (slope : K → K) :
    (x.lift val slope).Fits n := by
  cases x with
  | constant _ => trivial
  | varying u du => simpa [Dual.lift, Fits] using hx

/-- Of two gradients of the same length nothing is cut. -/
theorem Fits.combine {x y : Dual K} (hx : x.Fits n) (hy : y.Fits n) (val : K)
    (left right : K → K) (both : K → K → K) : (combine x y val left right both).Fits n := by
  cases x <;> cases y <;> simp_all [Dual.combine, Fits]

variable [Scalar K]

theorem fits_ofVariable (val : K) (index : Fin n) : (ofVariable val index).Fits n := by
  simp [ofVariable, Fits]

/-- The derivative in direction `j`. -/
def entry (j : Fin n) : Dual K → K
  | constant _ => 0
  | varying _ grad => grad.getD j 0

theorem entry_ofVariable (val : K) (index j : Fin n) :
    (ofVariable val index).entry j = if j = index then 1 else 0 := by
  simp [ofVariable, entry]

/-- A gradient of length `n` consists of its entries. -/
theorem Fits.gradientOr_eq {x : Dual K} (hx : x.Fits n) :
    x.gradientOr n = List.ofFn fun j : Fin n => x.entry j := by
  cases x with
  | constant _ => exact List.ext_get (by simp [gradientOr]) (by simp [gradientOr, entry])
  | varying u du =>
    obtain rfl : du.length = n := hx
    exact List.ext_get (by simp [gradientOr]) (by simp [gradientOr, entry])

/-! A constant has an entry too, which is zero. The formulas of an operation are not applied to it,
so the entry of the result is what they give only if they give zero for zero. -/

theorem entry_lift_varying {u : K} {du : List K} (h : (varying u du).Fits n) (val : K)
    (slope : K → K) (j : Fin n) :
    ((varying u du).lift val slope).entry j = slope ((varying u du).entry j) := by
  obtain rfl : du.length = n := h
  simp [lift, entry]

theorem entry_lift {x : Dual K} (hx : x.Fits n) (val : K) {slope : K → K} (zero : slope 0 = 0)
    (j : Fin n) : (x.lift val slope).entry j = slope (x.entry j) := by
  cases x with
  | constant _ => exact zero.symm
  | varying u du => exact entry_lift_varying hx val slope j

/-- An entry of a combination, by which of the operands vary. -/
theorem entry_combine_select {x y : Dual K} (hx : x.Fits n) (hy : y.Fits n) (val : K)
    (left right : K → K) (both : K → K → K) (j : Fin n) :
    (combine x y val left right both).entry j = select x y 0 (left (x.entry j))
      (right (y.entry j)) (both (x.entry j) (y.entry j)) := by
  cases x with
  | constant a =>
    cases y with
    | constant b => rfl
    | varying v dv =>
      obtain rfl : dv.length = n := hy
      simp [combine, entry, select]
  | varying u du =>
    obtain rfl : du.length = n := hx
    cases y with
    | constant b => simp [combine, entry, select]
    | varying v dv =>
      have hj : j.val < dv.length := by
        rw [show dv.length = du.length from hy]
        exact j.isLt
      have hu := List.getElem?_eq_getElem j.isLt
      have hv := List.getElem?_eq_getElem hj
      show (List.zipWith both du dv).getD j 0 = both (du.getD j 0) (dv.getD j 0)
      simp only [List.getD_eq_getElem?_getD, List.getElem?_zipWith, hu, hv, Option.getD_some]

/-- If the three formulas are related to one at the entries of the operands, then so are the
entries. -/
theorem entry_combine_related {R : K → K → Prop} {x y : Dual K} (hR : Equivalence R)
    (hx : x.Fits n) (hy : y.Fits n) (val : K) {left right : K → K} {both : K → K → K} {j : Fin n}
    (hl : R (left (x.entry j)) (both (x.entry j) 0))
    (hr : R (right (y.entry j)) (both 0 (y.entry j))) (hb : R 0 (both 0 0)) :
    R ((combine x y val left right both).entry j) (both (x.entry j) (y.entry j)) := by
  rw [entry_combine_select hx hy]
  cases x with
  | constant a =>
    cases y with
    | constant b => exact hb
    | varying v dv => exact hr
  | varying u du =>
    cases y with
    | constant b => exact hl
    | varying v dv => exact hR.refl _

/-- If the three formulas are the restrictions of one, that one gives the entries. -/
theorem entry_combine {x y : Dual K} (hx : x.Fits n) (hy : y.Fits n) (val : K)
    {left right : K → K} {both : K → K → K} (hl : ∀ p, left p = both p 0)
    (hr : ∀ q, right q = both 0 q) (hb : both 0 0 = 0) (j : Fin n) :
    (combine x y val left right both).entry j = both (x.entry j) (y.entry j) :=
  entry_combine_related ⟨Eq.refl, Eq.symm, Eq.trans⟩ hx hy val (hl _) (hr _) hb.symm

/-! ## The operations of the language

Each equation is the definition of an operation, with its cases put into the arguments of `combine`.
What has been said of combinations then holds of the operation, without looking at its cases. -/

theorem quotient_of_ne_zero {den : K} (h : (den == 0) = false) (num : K) :
    quotient num den = num / den := by
  simp [quotient, h]

theorem add_eq_combine (x y : Dual K) :
    x + y = combine x y (x.value + y.value) id id (fun p q => p + q) := by
  cases x <;> cases y <;> simp [combine, value] <;> rfl

theorem sub_eq_combine (x y : Dual K) :
    x - y = combine x y (x.value - y.value) id (fun q => q * -1) (fun p q => p - q) := by
  cases x <;> cases y <;> simp [combine, value] <;> rfl

/-- If only the second factor varies, it comes first in the value. -/
theorem mul_eq_combine (x y : Dual K) :
    x * y = combine x y (x * y).value (fun p => p * y.value) (fun q => q * x.value)
      (fun p q => x.value * q + y.value * p) := by
  cases x <;> cases y <;> rfl

theorem div_eq_combine (x y : Dual K) :
    x / y = combine x y (quotient x.value y.value) (fun p => quotient p y.value)
      (fun q => quotient (-x.value * q) (y.value * y.value))
      (fun p q => quotient (p * y.value - x.value * q) (y.value * y.value)) := by
  cases x <;> cases y <;> rfl

theorem pow_eq_combine (x y : Dual K) :
    x.pow y = combine x y (Scalar.pow x.value y.value)
      (fun p => p * (y.value * Scalar.pow x.value (y.value - 1)))
      (fun q => q * (Scalar.log x.value * Scalar.pow x.value y.value))
      (fun p q => Scalar.pow x.value y.value
        * quotient (y.value * p + x.value * Scalar.log x.value * q) x.value) := by
  cases x <;> cases y <;> rfl

theorem blend_eq_combine (x y : Dual K) (val wx wy : K) :
    blend x y val wx wy = combine x y val (fun p => p * wx) (fun q => q * wy)
      (fun p q => wx * p + wy * q) := by
  cases x <;> cases y <;> rfl

@[simp] theorem value_add (x y : Dual K) : (x + y).value = x.value + y.value := by
  rw [add_eq_combine, value_combine]

@[simp] theorem value_sub (x y : Dual K) : (x - y).value = x.value - y.value := by
  rw [sub_eq_combine, value_combine]

theorem value_mul (comm : ∀ a b : K, a * b = b * a) (x y : Dual K) :
    (x * y).value = x.value * y.value := by
  cases x with
  | constant a =>
    cases y with
    | constant b => rfl
    | varying v dv => exact comm v a
  | varying u du => cases y <;> rfl

@[simp] theorem value_div (x y : Dual K) : (x / y).value = quotient x.value y.value := by
  rw [div_eq_combine, value_combine]

@[simp] theorem value_pow (x y : Dual K) : (x.pow y).value = Scalar.pow x.value y.value := by
  rw [pow_eq_combine, value_combine]

@[simp] theorem value_blend (x y : Dual K) (val wx wy : K) : (blend x y val wx wy).value = val := by
  rw [blend_eq_combine, value_combine]

@[simp] theorem value_elementary (f : Postfix.Elementary) (x : Dual K) :
    (f.dual x).value = f.value x.value := by
  cases f <;> exact value_lift x _ _

/-! ## The operations as the reading has them

An expression names its operations, and is read by induction. For most purposes it is enough that
each of them is some lift or some combination. -/

section Reading

open Postfix

theorem exists_eq_lift (f : Elementary) (x : Dual K) :
    ∃ val slope, f.dual x = x.lift val slope := by
  cases f <;> exact ⟨_, _, rfl⟩

theorem exists_eq_combine_operator (op : Operator) (x y : Dual K) :
    ∃ val left right both, op.dual x y = combine x y val left right both := by
  cases op with
  | add => exact ⟨_, _, _, _, add_eq_combine x y⟩
  | sub => exact ⟨_, _, _, _, sub_eq_combine x y⟩
  | mul => exact ⟨_, _, _, _, mul_eq_combine x y⟩
  | div => exact ⟨_, _, _, _, div_eq_combine x y⟩
  | pow => exact ⟨_, _, _, _, pow_eq_combine x y⟩

theorem exists_eq_combine_extremum (e : Extremum) (x y : Dual K) :
    ∃ val left right both, e.dual x y = combine x y val left right both := by
  cases e <;> exact ⟨_, _, _, _, blend_eq_combine x y _ _ _⟩

variable {x y : Dual K}

theorem varies_elementary (f : Elementary) : (f.dual x).Varies ↔ x.Varies := by
  obtain ⟨_, _, h⟩ := exists_eq_lift f x
  rw [h, varies_lift]

theorem varies_operator (op : Operator) : (op.dual x y).Varies ↔ x.Varies ∨ y.Varies := by
  obtain ⟨_, _, _, _, h⟩ := exists_eq_combine_operator op x y
  rw [h, varies_combine]

theorem varies_extremum (e : Extremum) : (e.dual x y).Varies ↔ x.Varies ∨ y.Varies := by
  obtain ⟨_, _, _, _, h⟩ := exists_eq_combine_extremum e x y
  rw [h, varies_combine]

theorem Fits.elementary (hx : x.Fits n) (f : Elementary) : (f.dual x).Fits n := by
  obtain ⟨_, _, h⟩ := exists_eq_lift f x
  exact h ▸ hx.lift _ _

theorem Fits.operator (hx : x.Fits n) (hy : y.Fits n) (op : Operator) : (op.dual x y).Fits n := by
  obtain ⟨_, _, _, _, h⟩ := exists_eq_combine_operator op x y
  exact h ▸ hx.combine hy ..

theorem Fits.extremum (hx : x.Fits n) (hy : y.Fits n) (e : Extremum) : (e.dual x y).Fits n := by
  obtain ⟨_, _, _, _, h⟩ := exists_eq_combine_extremum e x y
  exact h ▸ hx.combine hy ..

end Reading

end Dual

namespace Postfix.Expression

open LeastSquares.Dual

variable {K : Type} [Scalar K] {n : Nat}

/-- The gradient of an expression has an entry for each parameter, unless it is a constant. -/
theorem fits_dual (x : Vec K n) (e : Expression n) : (e.dual x).Fits n := by
  induction e with
  | literal _ => trivial
  | parameter index => exact fits_ofVariable (x.get index) index
  | elementary f e ih => exact ih.elementary f
  | operator op left right ihl ihr =>
    rw [dual_operator]
    exact ihl.operator ihr op
  | extremum e left right ihl ihr =>
    rw [dual_extremum]
    exact ihl.extremum ihr e

/-- An expression is a constant exactly if it has no parameter in it. -/
theorem varies_dual (x : Vec K n) (e : Expression n) :
    (e.dual x).Varies ↔ ∃ j, .parameter j ∈ e.listing := by
  induction e with
  | literal _ => simp [dual, listing, Varies, gradient?]
  | parameter index => simp [dual, listing, Varies, gradient?, ofVariable]
  | elementary f e ih =>
    rw [dual, varies_elementary, ih]
    simp [listing]
  | operator op left right ihl ihr =>
    rw [dual_operator, varies_operator, ihl, ihr, ← exists_or]
    simp [listing]
  | extremum e left right ihl ihr =>
    rw [dual_extremum, varies_extremum, ihl, ihr, ← exists_or]
    simp [listing]

end Postfix.Expression

end LeastSquares
