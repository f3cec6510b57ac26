/-
LeastSquares.Dual — numbers that carry their gradient.

A dual is a constant, whose gradient is zero and is not stored, or a value
together with its partial derivative in every direction. Each operation applies
the operation on numbers to the values and the chain rule to the gradients.

## Denominators that are exactly zero

A derivative may divide by zero where the value is harmless, for instance that of
the arc sine at one. `Dual.quotient` puts `Dual.divisionGuard` in the place of a
denominator that is exactly zero; division, `tan`, `asin`, `acos`, `atan` and the
power of two varying operands use it. Square root and logarithm do not: at zero
their derivatives are infinite.

## Smooth extrema

The maximum of two numbers has no derivative where they are equal. `smoothMax` is
the logarithm of the sum of the exponentials, at temperature `tau`. Both arguments
are shifted by the larger one first, so no exponential overflows.
-/
import LeastSquares.Scalar

namespace LeastSquares

/-- A number with the direction derivatives it has. -/
inductive Dual (K : Type) where
  /-- A number that depends on nothing. -/
  | constant (val : K)
  /-- A number and its partial derivatives. -/
  | varying (val : K) (grad : List K)

namespace Dual

variable {K : Type} [Scalar K]

/-- What a denominator that is exactly zero is replaced by. -/
def divisionGuard : K := 1e-15

/-- The `index`-th of `len` independent variables: its gradient is one in its own direction and
zero in the others. -/
def ofVariable {len : Nat} (val : K) (index : Fin len) : Dual K :=
  .varying val ((List.finRange len).map fun j => if j = index then 1 else 0)

/-- The number without its gradient. -/
def value : Dual K → K
  | .constant v => v
  | .varying v _ => v

/-- The stored gradient, if there is one. -/
def gradient? : Dual K → Option (List K)
  | .constant _ => none
  | .varying _ g => some g

/-- The gradient as a list, `len` zeros for a constant. A stored gradient is returned as it is. -/
def gradientOr (len : Nat) : Dual K → List K
  | .constant _ => List.replicate len 0
  | .varying _ g => g

/-- Equality of numbers, entry by entry; a constant never equals a varying number. -/
def beq : Dual K → Dual K → Bool
  | .constant a, .constant b => a == b
  | .varying a g, .varying b h => a == b && g == h
  | _, _ => false

instance : BEq (Dual K) := ⟨beq⟩

/-- `num / den`, where a `den` that is exactly zero is replaced by `divisionGuard`. -/
def quotient (num den : K) : K :=
  if den == 0 then num / divisionGuard else num / den

/-! ## Arithmetic -/

/-- A function of one number: `val` is its value at `x`, and `slope` takes a derivative of `x`
to the derivative of the result. -/
def lift (x : Dual K) (val : K) (slope : K → K) : Dual K :=
  match x with
  | .constant _ => .constant val
  | .varying _ g => .varying val (g.map slope)

def add : Dual K → Dual K → Dual K
  | .constant a, .constant b => .constant (a + b)
  | .varying u du, .constant b => .varying (u + b) du
  | .constant a, .varying v dv => .varying (a + v) dv
  | .varying u du, .varying v dv => .varying (u + v) (List.zipWith (fun p q => p + q) du dv)

def sub : Dual K → Dual K → Dual K
  | .constant a, .constant b => .constant (a - b)
  | .varying u du, .constant b => .varying (u - b) du
  | .constant a, .varying v dv => .varying (a - v) (dv.map fun q => q * -1)
  | .varying u du, .varying v dv => .varying (u - v) (List.zipWith (fun p q => p - q) du dv)

/-- The product rule. -/
def mul : Dual K → Dual K → Dual K
  | .constant a, .constant b => .constant (a * b)
  | .varying u du, .constant c => .varying (u * c) (du.map fun p => p * c)
  | .constant c, .varying v dv => .varying (v * c) (dv.map fun q => q * c)
  | .varying u du, .varying v dv =>
    .varying (u * v) (List.zipWith (fun p q => u * q + v * p) du dv)

/-- The quotient rule. -/
def div : Dual K → Dual K → Dual K
  | .constant a, .constant b => .constant (quotient a b)
  | .varying u du, .constant c => .varying (quotient u c) (du.map fun p => quotient p c)
  | .constant a, .varying v dv =>
    .varying (quotient a v) (dv.map fun q => quotient (-a * q) (v * v))
  | .varying u du, .varying v dv =>
    .varying (quotient u v) (List.zipWith (fun p q => quotient (p * v - u * q) (v * v)) du dv)

/-- The base to the power of the exponent. If both vary, the two partial derivatives
`v * u ^ (v - 1)` and `u ^ v * log u` are joined in one quotient by the base. -/
def pow : Dual K → Dual K → Dual K
  | .constant a, .constant b => .constant (Scalar.pow a b)
  | .varying u du, .constant c =>
    let slope := c * Scalar.pow u (c - 1)
    .varying (Scalar.pow u c) (du.map fun p => p * slope)
  | .constant a, .varying v dv =>
    let val := Scalar.pow a v
    let slope := Scalar.log a * val
    .varying val (dv.map fun q => q * slope)
  | .varying u du, .varying v dv =>
    let val := Scalar.pow u v
    let growth := u * Scalar.log u
    .varying val (List.zipWith (fun p q => val * quotient (v * p + growth * q) u) du dv)

def neg (x : Dual K) : Dual K :=
  x.lift (-x.value) fun d => -d

instance : Add (Dual K) := ⟨add⟩
instance : Sub (Dual K) := ⟨sub⟩
instance : Mul (Dual K) := ⟨mul⟩
instance : Div (Dual K) := ⟨div⟩
instance : Neg (Dual K) := ⟨neg⟩

/-! ## Functions of one number -/

def sin (x : Dual K) : Dual K :=
  let slope := Scalar.cos x.value
  x.lift (Scalar.sin x.value) fun d => slope * d

def cos (x : Dual K) : Dual K :=
  let slope := -Scalar.sin x.value
  x.lift (Scalar.cos x.value) fun d => slope * d

def tan (x : Dual K) : Dual K :=
  let c := Scalar.cos x.value
  x.lift (Scalar.tan x.value) fun d => quotient d (c * c)

def asin (x : Dual K) : Dual K :=
  let den := Scalar.sqrt (1 - x.value * x.value)
  x.lift (Scalar.asin x.value) fun d => quotient d den

def acos (x : Dual K) : Dual K :=
  let den := Scalar.sqrt (1 - x.value * x.value)
  x.lift (Scalar.acos x.value) fun d => -quotient d den

def atan (x : Dual K) : Dual K :=
  let den := 1 + x.value * x.value
  x.lift (Scalar.atan x.value) fun d => quotient d den

def exp (x : Dual K) : Dual K :=
  let e := Scalar.exp x.value
  x.lift e fun d => e * d

def sqrt (x : Dual K) : Dual K :=
  let s := Scalar.sqrt x.value
  x.lift s fun d => d / (2.0 * s)

/-- The natural logarithm. -/
def log (x : Dual K) : Dual K :=
  let u := x.value
  x.lift (Scalar.log u) fun d => d / u

/-! ## Smooth extrema -/

/-- The logarithm of `exp a + exp b` with the share that each of the two has in the sum. -/
structure LogSumExp (K : Type) where
  total : K
  first : K
  second : K

/-- Both arguments are shifted by the larger one, so neither exponential exceeds one. -/
def LogSumExp.of (a b : K) : LogSumExp K :=
  let m := Scalar.max a b
  let e₀ := Scalar.exp (a - m)
  let e₁ := Scalar.exp (b - m)
  let sum := e₀ + e₁
  ⟨m + Scalar.log sum, e₀ / sum, e₁ / sum⟩

/-- A dual with the value `val` and the sum of the two gradients with the given weights. -/
def blend (x y : Dual K) (val wx wy : K) : Dual K :=
  match x, y with
  | .constant _, .constant _ => .constant val
  | .varying _ dx, .constant _ => .varying val (dx.map fun p => p * wx)
  | .constant _, .varying _ dy => .varying val (dy.map fun q => q * wy)
  | .varying _ dx, .varying _ dy =>
    .varying val (List.zipWith (fun p q => wx * p + wy * q) dx dy)

/-- The smooth maximum at temperature `tau`. -/
def smoothMax (tau : K) (x y : Dual K) : Dual K :=
  let s := LogSumExp.of (x.value / tau) (y.value / tau)
  blend x y (tau * s.total) s.first s.second

/-- The smooth minimum at temperature `tau`. -/
def smoothMin (tau : K) (x y : Dual K) : Dual K :=
  let s := LogSumExp.of (-x.value / tau) (-y.value / tau)
  blend x y (-tau * s.total) s.first s.second

end Dual

end LeastSquares
