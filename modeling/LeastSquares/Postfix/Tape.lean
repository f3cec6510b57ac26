/-
LeastSquares.Postfix.Tape — compiled expressions.

A tape is a list of instructions for a machine with a stack. `height?` says what a list of
instructions does to the height of the stack; the proof in every `Tape` says that its
instructions never take from an empty stack and leave exactly one number on it. Evaluation
rests on that and cannot fail.
-/
import LeastSquares.Postfix.Literal
import LeastSquares.Postfix.Symbol

namespace LeastSquares.Postfix

/-- One step of the machine, over `n` parameters. -/
inductive Instruction (n : Nat) where
  /-- Puts a number on the stack. -/
  | literal (token : String) (number : Decimal)
  /-- Puts the parameter at `index` on the stack. -/
  | parameter (name : String) (index : Fin n)
  /-- Takes the right and then the left operand, and puts the result on the stack. -/
  | operator (op : Operator)
  /-- Takes the operands, the last one first, and puts the result on the stack. -/
  | call (f : Builtin)
deriving DecidableEq

namespace Instruction

variable {n : Nat}

/-- How many numbers the instruction takes from the stack; it always puts back one. -/
def operands : Instruction n → Nat
  | literal _ _ => 0
  | parameter _ _ => 0
  | operator _ => 2
  | call f => f.arity

/-- The token that the instruction stands for. -/
def text : Instruction n → String
  | literal token _ => token
  | parameter name _ => name
  | operator op => op.symbol
  | call f => f.name

/-- The height of the stack after the instruction, if the stack is high enough for it. -/
def height? (i : Instruction n) (height : Nat) : Option Nat :=
  if i.operands ≤ height then some (height - i.operands + 1) else none

end Instruction

/-- The height of the stack after all instructions, if it is high enough for each of them. -/
def height? {n : Nat} : List (Instruction n) → Nat → Option Nat
  | [], h => some h
  | i :: code, h => (i.height? h).bind (height? code)

/-- A compiled expression over the given parameters. -/
structure Tape (params : List String) where
  code : List (Instruction params.length)
  balanced : height? code 0 = some 1
deriving DecidableEq

/-- The expression in postfix form, its tokens separated by single spaces. -/
def Tape.text {params : List String} (t : Tape params) : String :=
  " ".intercalate (t.code.map Instruction.text)

end LeastSquares.Postfix
