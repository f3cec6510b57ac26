/-
LeastSquares.Text.Scientific — doubles in scientific notation, with a fixed number of digits.

The digits are those of the exact binary value, rounded once: to the nearest decimal with
that many digits, and to the one with an even last digit where two are equally near. Zeros at
the end of the fraction are left out, and so is a point with nothing behind it. The exponent
has no plus sign and no leading zeros.
-/

namespace LeastSquares.Text

/-- The quotient to the nearest natural number; a tie goes to the even one. -/
def divToEven (num den : Nat) : Nat :=
  let q := num / den
  let twice := 2 * (num % den)
  if twice < den then q else if den < twice then q + 1 else q + q % 2

/-- How many decimal digits a number has, none for zero. -/
def digitCount (n : Nat) : Nat :=
  if n = 0 then 0 else (Nat.toDigits 10 n).length

/-- The exponent of the largest power of ten that is at most `num / den`. -/
def decimalExponent (num den : Nat) : Int :=
  if den ≤ num then (digitCount (num / den) : Int) - 1
  else -(digitCount ((den - 1) / num) : Int)

/-- `num / den` as `digits` decimal digits and the exponent of the first of them. -/
def toScientific (digits num den : Nat) : Nat × Int :=
  let e := decimalExponent num den
  let shift := (digits : Int) - 1 - e
  let c :=
    if 0 ≤ shift then divToEven (num * Nat.pow 10 shift.toNat) den
    else divToEven num (den * Nat.pow 10 (-shift).toNat)
  if c = Nat.pow 10 digits then (Nat.pow 10 (digits - 1), e + 1) else (c, e)

/-- The digits with a point after the first one, less the zeros at the end. -/
def mantissaText (coefficient : Nat) : String :=
  match Nat.toDigits 10 coefficient with
  | [] => ""
  | lead :: rest =>
    match (rest.reverse.dropWhile (· == '0')).reverse with
    | [] => String.singleton lead
    | fraction => String.ofList (lead :: '.' :: fraction)

/-- The magnitude of a finite double as a fraction of natural numbers. -/
def fractionOf (v : Float) : Nat × Nat :=
  let bits := v.toBits.toNat
  let field := bits / Nat.pow 2 52 % Nat.pow 2 11
  let low := bits % Nat.pow 2 52
  let mantissa := if field = 0 then low else Nat.pow 2 52 + low
  let scaled := mantissa * Nat.pow 2 (if field = 0 then 1 else field)
  (scaled, Nat.pow 2 1075)

/-- How doubles are written: the number of digits, and the magnitude below which a number is
written as zero. -/
structure NumberFormat where
  digits : Nat := 17
  floor : Float := 0.0

/-- The text of a double. -/
def NumberFormat.text (format : NumberFormat) (v : Float) : String :=
  if v.isNaN then "nan"
  else if v.isInf then (if v < 0.0 then "-inf" else "inf")
  else if v.abs < format.floor then "0e0"
  else
    let sign := if v.toBits.toNat < Nat.pow 2 63 then "" else "-"
    let (num, den) := fractionOf v
    if num = 0 then sign ++ "0e0"
    else
      let (coefficient, exponent) := toScientific format.digits num den
      sign ++ mantissaText coefficient ++ "e" ++ exponent.repr

end LeastSquares.Text
