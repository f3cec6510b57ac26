/-
LeastSquares.Postfix.Literal — decimal literals.

A literal is an optional sign, then digits with at most one point among, before or behind them,
at least one digit in all. There is no exponent, and the digits are the ten ASCII ones. This form is
tested first (`Decimal.isLiteral`), in one pass over the characters; then the number is read. A
`Decimal` keeps the number exactly; it becomes a number of some `Scalar` type, rounded once,
only when an expression is evaluated.
-/
import LeastSquares.Scalar

namespace LeastSquares.Postfix

/-- `± digits / 10 ^ places`. The sign is kept apart, so that zero has one too. -/
structure Decimal where
  negative : Bool
  digits : Nat
  places : Nat
deriving DecidableEq

namespace Decimal

/-- The number nearest to the decimal. -/
def toScalar {K : Type} [Scalar K] (d : Decimal) : K :=
  let magnitude : K := OfScientific.ofScientific d.digits true d.places
  if d.negative then -magnitude else magnitude

/-- One of the ten ASCII digits. -/
def isDigit (c : Char) : Bool :=
  '0' ≤ c && c ≤ '9'

/-- Goes through an unsigned number from left to right. The flags say whether a digit and whether
the point has gone by. -/
def scan (digit point : Bool) : List Char → Bool
  | [] => digit
  | c :: cs =>
    if isDigit c then scan true point cs
    else if c == '.' && !point then scan digit true cs
    else false

/-- The text without the sign in front of it. -/
def unsigned : List Char → List Char
  | '+' :: cs => cs
  | '-' :: cs => cs
  | cs => cs

/-- The token is a literal. -/
def isLiteral (token : String) : Bool :=
  scan false false (unsigned token.toList)

/-- The number that a row of digits denotes. -/
def ofDigits (ds : List Char) : Nat :=
  ds.foldl (fun n c => 10 * n + (c.toNat - '0'.toNat)) 0

/-- Reads digits with at most one point. -/
def ofUnsigned? (negative : Bool) (cs : List Char) : Option Decimal :=
  let whole := cs.takeWhile isDigit
  match cs.dropWhile isDigit with
  | [] => if whole.isEmpty then none else some ⟨negative, ofDigits whole, 0⟩
  | point :: fraction =>
    if point == '.' && fraction.all isDigit && !(whole.isEmpty && fraction.isEmpty) then
      some ⟨negative, ofDigits (whole ++ fraction), fraction.length⟩
    else none

/-- Reads a literal, which is the whole of the given text. -/
def ofChars? : List Char → Option Decimal
  | '-' :: cs => ofUnsigned? true cs
  | '+' :: cs => ofUnsigned? false cs
  | cs => ofUnsigned? false cs

/-- Reads a literal, which is the whole of the given text. -/
def ofString? (s : String) : Option Decimal :=
  ofChars? s.toList

/-- The number of a token, if it is a literal that can be read. -/
def literal? (token : String) : Option Decimal :=
  if isLiteral token then ofString? token else none

end Decimal

end LeastSquares.Postfix
