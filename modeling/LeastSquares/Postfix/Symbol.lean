/-
LeastSquares.Postfix.Symbol — the operators and the named functions of the language.
-/

namespace LeastSquares.Postfix

/-- The operators, all of them of two operands. -/
inductive Operator where
  | add
  | sub
  | mul
  | div
  | pow
deriving DecidableEq

namespace Operator

def symbol : Operator → String
  | add => "+"
  | sub => "-"
  | mul => "*"
  | div => "/"
  | pow => "^"

/-- The operator with the given symbol. -/
def ofSymbol? : String → Option Operator
  | "+" => some add
  | "-" => some sub
  | "*" => some mul
  | "/" => some div
  | "^" => some pow
  | _ => none

@[simp] theorem ofSymbol?_symbol (op : Operator) : ofSymbol? op.symbol = some op := by
  cases op <;> rfl

end Operator

/-- The named functions of one operand. -/
inductive Elementary where
  | sin
  | cos
  | tan
  | asin
  | acos
  | atan
  | exp
  | sqrt
  /-- The natural logarithm. -/
  | log
  | neg
deriving DecidableEq

/-- The named functions of two operands. -/
inductive Extremum where
  | max
  | min
deriving DecidableEq

/-- The named functions. -/
inductive Builtin where
  | elementary (f : Elementary)
  | extremum (e : Extremum)
deriving DecidableEq

namespace Builtin

/-- The number of operands. -/
def arity : Builtin → Nat
  | elementary _ => 1
  | extremum _ => 2

def name : Builtin → String
  | elementary .sin => "sin"
  | elementary .cos => "cos"
  | elementary .tan => "tan"
  | elementary .asin => "asin"
  | elementary .acos => "acos"
  | elementary .atan => "atan"
  | elementary .exp => "exp"
  | elementary .sqrt => "sqrt"
  | elementary .log => "log"
  | elementary .neg => "neg"
  | extremum .max => "max"
  | extremum .min => "min"

/-- The function with the given name; upper and lower case differ. -/
def ofName? : String → Option Builtin
  | "sin" => some (elementary .sin)
  | "cos" => some (elementary .cos)
  | "tan" => some (elementary .tan)
  | "asin" => some (elementary .asin)
  | "acos" => some (elementary .acos)
  | "atan" => some (elementary .atan)
  | "exp" => some (elementary .exp)
  | "sqrt" => some (elementary .sqrt)
  | "log" => some (elementary .log)
  | "neg" => some (elementary .neg)
  | "max" => some (extremum .max)
  | "min" => some (extremum .min)
  | _ => none

@[simp] theorem ofName?_name (f : Builtin) : ofName? f.name = some f := by
  cases f with
  | elementary f => cases f <;> rfl
  | extremum e => cases e <;> rfl

end Builtin

end LeastSquares.Postfix
