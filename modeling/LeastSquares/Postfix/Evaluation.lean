/-
LeastSquares.Postfix.Evaluation — the two readings of an expression.

`Tape.dual` carries the gradient along. It replaces `max` and `min` by their smooth forms, so the
result has a derivative everywhere, and guards divisions as dual numbers do. `Tape.value` works on
plain numbers: `max` and `min` are exact, and a divisor that is exactly zero is replaced by the
coarser `valueGuard`.
-/
import LeastSquares.Dual
import LeastSquares.Linear.Sized
import LeastSquares.Postfix.Machine

namespace LeastSquares.Postfix

variable {K : Type} [Scalar K] {params : List String}

/-! ## Plain numbers -/

/-- What a divisor that is exactly zero is replaced by in plain arithmetic. -/
def valueGuard : K := 1e-10

def Operator.value : Operator → K → K → K
  | .add, a, b => a + b
  | .sub, a, b => a - b
  | .mul, a, b => a * b
  | .div, a, b => if b == 0 then a / valueGuard else a / b
  | .pow, a, b => Scalar.pow a b

def Elementary.value : Elementary → K → K
  | .sin, x => Scalar.sin x
  | .cos, x => Scalar.cos x
  | .tan, x => Scalar.tan x
  | .asin, x => Scalar.asin x
  | .acos, x => Scalar.acos x
  | .atan, x => Scalar.atan x
  | .exp, x => Scalar.exp x
  | .sqrt, x => Scalar.sqrt x
  | .log, x => Scalar.log x
  | .neg, x => -x

def Extremum.value : Extremum → K → K → K
  | .max, a, b => Scalar.max a b
  | .min, a, b => Scalar.min a b

/-- The reading in plain numbers. -/
def valueReading : Reading K where
  literal := Decimal.toScalar
  operator := Operator.value
  elementary := Elementary.value
  extremum := Extremum.value

/-- The value of the expression where the parameters have the given values. -/
def Tape.value (t : Tape params) (x : Vec K params.length) : K :=
  t.eval valueReading x.get

/-! ## Dual numbers -/

/-- The temperature of the smooth extrema in an expression. -/
def temperature : K := 1

def Operator.dual : Operator → Dual K → Dual K → Dual K
  | .add, a, b => a.add b
  | .sub, a, b => a.sub b
  | .mul, a, b => a.mul b
  | .div, a, b => a.div b
  | .pow, a, b => a.pow b

def Elementary.dual : Elementary → Dual K → Dual K
  | .sin, x => x.sin
  | .cos, x => x.cos
  | .tan, x => x.tan
  | .asin, x => x.asin
  | .acos, x => x.acos
  | .atan, x => x.atan
  | .exp, x => x.exp
  | .sqrt, x => x.sqrt
  | .log, x => x.log
  | .neg, x => x.neg

def Extremum.dual : Extremum → Dual K → Dual K → Dual K
  | .max, a, b => Dual.smoothMax temperature a b
  | .min, a, b => Dual.smoothMin temperature a b

/-- The reading in dual numbers. -/
def dualReading : Reading (Dual K) where
  literal d := .constant d.toScalar
  operator := Operator.dual
  elementary := Elementary.dual
  extremum := Extremum.dual

/-- The value of the expression with its gradient in the parameters; a constant if the expression
has no parameter in it. -/
def Tape.dual (t : Tape params) (x : Vec K params.length) : Dual K :=
  t.eval dualReading fun i => .ofVariable (x.get i) i

/-- The value of the expression, and its partial derivative in each of the parameters. -/
def Tape.gradientRow (t : Tape params) (x : Vec K params.length) : K × List K :=
  let d := t.dual x
  (d.value, d.gradientOr params.length)

/-! ## Points given as lists

A point has to have as many coordinates as there are parameters. -/

def Tape.valueAt (t : Tape params) (x : List K) : Except Fault K :=
  (Vec.ofList? params.length x).map t.value

def Tape.dualAt (t : Tape params) (x : List K) : Except Fault (Dual K) :=
  (Vec.ofList? params.length x).map t.dual

def Tape.gradientRowAt (t : Tape params) (x : List K) : Except Fault (K × List K) :=
  (Vec.ofList? params.length x).map t.gradientRow

end LeastSquares.Postfix
