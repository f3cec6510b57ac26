/-
LeastSquares.Proofs.Exact.DualNumbers — duals compute in the ring of dual numbers.

In exact arithmetic a dual over `n` directions stands for a number with an infinitesimal part in
each of them, the products of which vanish. These numbers are a commutative ring, Mathlib's
`TrivSqZeroExt ℝ (Fin n → ℝ)`. `Denotes` says which of them a dual stands for, a constant being one
without an infinitesimal part, and there is one lemma for each operation. The rules that an
operation has for its varying operands are joined in that lemma, so no law needs a case for each mix
of them.

Two duals that stand for the same number match: they have the same value, and the same gradient,
where a constant has the gradient zero. `dual_laws` says that the operations satisfy the laws of a
commutative ring in this sense, that division undoes multiplication, and that the power with a whole
exponent is a product of equal factors.
-/
import Mathlib
import LeastSquares.Proofs.Exact

namespace LeastSquares

namespace Dual

/-- The same value and the same gradient, where the gradient of a constant is zero in all of the `n`
directions. -/
structure Matches {K : Type} [Scalar K] (n : Nat) (x y : Dual K) : Prop where
  value : x.value = y.value
  gradient : x.gradientOr n = y.gradientOr n

/-- The product of `k` copies of `x`, from left to right; of none, it is one. -/
def repeated {K : Type} [Scalar K] (x : Dual K) : Nat → Dual K
  | 0 => .constant 1
  | 1 => x
  | k + 2 => x.repeated (k + 1) * x

variable {n : ℕ} {x y z : Dual ℝ}

/-! ## Entries -/

@[simp] theorem value_neg (x : Dual ℝ) : (-x).value = -x.value :=
  value_lift x _ _

theorem entry_neg (hx : x.Fits n) (j : Fin n) : (-x).entry j = -x.entry j :=
  entry_lift hx _ neg_zero j

theorem entry_add (hx : x.Fits n) (hy : y.Fits n) (j : Fin n) :
    (x + y).entry j = x.entry j + y.entry j := by
  rw [add_eq_combine]
  exact entry_combine hx hy _ (by simp) (by simp) (by simp) j

theorem entry_sub (hx : x.Fits n) (hy : y.Fits n) (j : Fin n) :
    (x - y).entry j = x.entry j - y.entry j := by
  rw [sub_eq_combine]
  exact entry_combine hx hy _ (by simp) (by simp) (by simp) j

theorem entry_mul (hx : x.Fits n) (hy : y.Fits n) (j : Fin n) :
    (x * y).entry j = x.value * y.entry j + y.value * x.entry j := by
  rw [mul_eq_combine]
  exact entry_combine hx hy _ (fun p => by ring) (fun q => by ring) (by ring) j

/-- The quotient rule. A constant divisor divides the entries once, and the general rule takes them
times the divisor and divides twice. -/
theorem entry_div (hx : x.Fits n) (hy : y.Fits n) (hne : y.value ≠ 0) (j : Fin n) :
    (x / y).entry j
      = (x.entry j * y.value - x.value * y.entry j) / (y.value * y.value) := by
  have hne2 := mul_ne_zero hne hne
  rw [div_eq_combine, ← Exact.quotient_eq hne2]
  refine entry_combine hx hy _ ?left ?right ?neither j
  case left =>
    intro p
    rw [Exact.quotient_eq hne, Exact.quotient_eq hne2]
    field_simp
    ring
  case right =>
    intro q
    ring_nf
  case neither =>
    rw [Exact.quotient_eq hne2]
    simp

theorem entry_pow_constant (hx : x.Fits n) (c : ℝ) (j : Fin n) :
    (x.pow (.constant c)).entry j = x.entry j * (c * x.value ^ (c - 1)) := by
  have hlift : x.pow (.constant c) = x.lift (x.value ^ c) fun p => p * (c * x.value ^ (c - 1)) := by
    cases x <;> rfl
  rw [hlift, entry_lift hx _ (by simp)]

/-! ## The ring -/

/-- The number with infinitesimal parts that a dual stands for: its value, and its gradient. -/
structure Denotes (n : ℕ) (x : Dual ℝ) (a : TrivSqZeroExt ℝ (Fin n → ℝ)) : Prop where
  fits : x.Fits n
  value : x.value = a.fst
  entry : ∀ j : Fin n, x.entry j = a.snd j

theorem Fits.exists_denotes (hx : x.Fits n) : ∃ a, Denotes n x a :=
  ⟨(x.value, fun j => x.entry j), hx, rfl, fun _ => rfl⟩

namespace Denotes

variable {a b : TrivSqZeroExt ℝ (Fin n → ℝ)}

/-- Duals that stand for the same number match. -/
theorem matches_of_eq (hx : Denotes n x a) (hy : Denotes n y b) (h : a = b) : Matches n x y where
  value := by rw [hx.value, hy.value, h]
  gradient := by
    rw [hx.fits.gradientOr_eq, hy.fits.gradientOr_eq]
    exact congrArg List.ofFn (funext fun j => by rw [hx.entry, hy.entry, h])

theorem zero : Denotes n (constant 0) 0 :=
  ⟨trivial, rfl, fun _ => rfl⟩

theorem one : Denotes n (constant 1) 1 :=
  ⟨trivial, rfl, fun _ => rfl⟩

theorem neg (hx : Denotes n x a) : Denotes n (-x) (-a) where
  fits := hx.fits.elementary .neg
  value := by
    rw [value_neg, hx.value, TrivSqZeroExt.fst_neg]
  entry j := by
    rw [entry_neg hx.fits, hx.entry, TrivSqZeroExt.snd_neg, Pi.neg_apply]

theorem add (hx : Denotes n x a) (hy : Denotes n y b) : Denotes n (x + y) (a + b) where
  fits := hx.fits.operator hy.fits .add
  value := by
    rw [value_add, hx.value, hy.value, TrivSqZeroExt.fst_add]
  entry j := by
    rw [entry_add hx.fits hy.fits, hx.entry, hy.entry, TrivSqZeroExt.snd_add, Pi.add_apply]

theorem sub (hx : Denotes n x a) (hy : Denotes n y b) : Denotes n (x - y) (a - b) where
  fits := hx.fits.operator hy.fits .sub
  value := by
    rw [value_sub, hx.value, hy.value, TrivSqZeroExt.fst_sub]
  entry j := by
    rw [entry_sub hx.fits hy.fits, hx.entry, hy.entry, TrivSqZeroExt.snd_sub, Pi.sub_apply]

theorem mul (hx : Denotes n x a) (hy : Denotes n y b) : Denotes n (x * y) (a * b) where
  fits := hx.fits.operator hy.fits .mul
  value := by
    rw [value_mul mul_comm, hx.value, hy.value, TrivSqZeroExt.fst_mul]
  entry j := by
    rw [entry_mul hx.fits hy.fits, hx.value, hy.value, hx.entry, hy.entry, TrivSqZeroExt.snd_mul]
    simp

theorem div (hx : Denotes n x a) (hy : Denotes n y b) (hne : y.value ≠ 0) :
    Denotes n (x / y) (a * b⁻¹) where
  fits := hx.fits.operator hy.fits .div
  value := by
    rw [value_div, Exact.quotient_eq hne, hx.value, hy.value, TrivSqZeroExt.fst_mul,
      TrivSqZeroExt.fst_inv, div_eq_mul_inv]
  entry j := by
    rw [hy.value] at hne
    rw [entry_div hx.fits hy.fits (hy.value ▸ hne), hx.value, hy.value, hx.entry, hy.entry,
      TrivSqZeroExt.snd_mul, TrivSqZeroExt.snd_inv]
    simp
    field_simp
    ring

theorem repeated (hx : Denotes n x a) (k : ℕ) : Denotes n (x.repeated k) (a ^ k) := by
  fun_induction Dual.repeated x k with
  | case1 => exact pow_zero a ▸ one
  | case2 => exact (pow_one a).symm ▸ hx
  | case3 k ih => exact pow_succ a (k + 1) ▸ ih.mul hx

/-- The closed formula for the derivative of a power is what the product rule gives factor by
factor. -/
theorem pow (hx : Denotes n x a) (k : ℕ) : Denotes n (x.pow (constant k)) (a ^ k) where
  fits := by
    have hk : (constant (k : ℝ)).Fits n := trivial
    exact hx.fits.operator hk .pow
  value := by
    rw [value_pow, hx.value, TrivSqZeroExt.fst_pow]
    exact Real.rpow_natCast a.fst k
  entry j := by
    rw [entry_pow_constant hx.fits, hx.value, hx.entry, TrivSqZeroExt.snd_pow]
    cases k with
    | zero => simp
    | succ k =>
      have hexponent : ((k + 1 : ℕ) : ℝ) - 1 = (k : ℕ) := by simp
      rw [hexponent, Real.rpow_natCast]
      simp
      ring

end Denotes

/-! ## The laws -/

/-- The laws of a commutative ring, with those of division and of powers with a whole exponent. -/
structure DualLaws (n : ℕ) (x y z : Dual ℝ) : Prop where
  closed : ∀ op : Postfix.Operator, (op.dual x y).Fits n
  closed_neg : (-x).Fits n
  add_comm : Matches n (x + y) (y + x)
  add_assoc : Matches n (x + y + z) (x + (y + z))
  add_zero : Matches n (x + constant 0) x
  add_neg : Matches n (x + -x) (constant 0)
  sub_eq : Matches n (x - y) (x + -y)
  mul_comm : Matches n (x * y) (y * x)
  mul_assoc : Matches n (x * y * z) (x * (y * z))
  mul_one : Matches n (x * constant 1) x
  mul_add : Matches n (x * (y + z)) (x * y + x * z)
  add_mul : Matches n ((x + y) * z) (x * z + y * z)
  div_mul : y.value ≠ 0 → Matches n (x / y * y) x
  /-- The value of `x` may be zero, or negative. -/
  pow : ∀ k : ℕ, Matches n (x.pow (constant k)) (x.repeated k)

/-- In exact arithmetic, duals with gradients of one length satisfy the laws of the ring of dual
numbers, whichever of them are constants. -/
theorem dual_laws (hx : x.Fits n) (hy : y.Fits n) (hz : z.Fits n) : DualLaws n x y z := by
  obtain ⟨a, dx⟩ := hx.exists_denotes
  obtain ⟨b, dy⟩ := hy.exists_denotes
  obtain ⟨c, dz⟩ := hz.exists_denotes
  constructor
  case closed => exact hx.operator hy
  case closed_neg => exact hx.elementary .neg
  case add_comm => exact (dx.add dy).matches_of_eq (dy.add dx) (add_comm a b)
  case add_assoc => exact ((dx.add dy).add dz).matches_of_eq (dx.add (dy.add dz)) (add_assoc a b c)
  case add_zero => exact (dx.add .zero).matches_of_eq dx (add_zero a)
  case add_neg => exact (dx.add dx.neg).matches_of_eq .zero (add_neg_cancel a)
  case sub_eq => exact (dx.sub dy).matches_of_eq (dx.add dy.neg) (sub_eq_add_neg a b)
  case mul_comm => exact (dx.mul dy).matches_of_eq (dy.mul dx) (mul_comm a b)
  case mul_assoc => exact ((dx.mul dy).mul dz).matches_of_eq (dx.mul (dy.mul dz)) (mul_assoc a b c)
  case mul_one => exact (dx.mul .one).matches_of_eq dx (mul_one a)
  case mul_add =>
    exact (dx.mul (dy.add dz)).matches_of_eq ((dx.mul dy).add (dx.mul dz)) (mul_add a b c)
  case add_mul =>
    exact ((dx.add dy).mul dz).matches_of_eq ((dx.mul dz).add (dy.mul dz)) (add_mul a b c)
  case div_mul =>
    intro hne
    have hb : b⁻¹ * b = 1 := TrivSqZeroExt.inv_mul_cancel (dy.value ▸ hne)
    refine ((dx.div dy hne).mul dy).matches_of_eq dx ?_
    rw [mul_assoc, hb, mul_one]
  case pow =>
    intro k
    exact (dx.pow k).matches_of_eq (dx.repeated k) rfl

/-- A varying number with the value zero, a constant, and a third number with both parts. -/
theorem dual_laws_at_zero :
    let x : Dual ℝ := varying 0 [1, 0]
    let y : Dual ℝ := constant (-2)
    let z : Dual ℝ := varying 3 [5, 1]
    x.Fits 2 ∧ y.Fits 2 ∧ z.Fits 2 ∧ y.value ≠ 0
      ∧ Matches 2 (x * (y + z)) (x * y + x * z)
      ∧ Matches 2 (x / y * y) x
      ∧ Matches 2 (x.pow (constant (3 : ℕ))) (x * x * x) := by
  intro x y z
  have hx : x.Fits 2 := rfl
  have hy : y.Fits 2 := trivial
  have hz : z.Fits 2 := rfl
  have hne : y.value ≠ 0 := neg_ne_zero.2 two_ne_zero
  have laws := dual_laws hx hy hz
  exact ⟨hx, hy, hz, hne, laws.mul_add, laws.div_mul hne, laws.pow 3⟩

end Dual

end LeastSquares
