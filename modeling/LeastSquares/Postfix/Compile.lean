/-
LeastSquares.Postfix.Compile — from text to tape.

The words of the text are read from left to right. A word is a literal if it has the form of
one, else the first parameter of that name, else an operator, else a named function. The first
word that is none of these, or that has fewer operands than it needs, decides the error; only a
text without such a word can be refused for what it leaves on the stack.
-/
import LeastSquares.Postfix.Tape
import LeastSquares.Text.Quoted
import LeastSquares.Text.Words

namespace LeastSquares.Postfix

/-- Why a text is not an expression. -/
inductive CompileError where
  /-- The token is no literal, parameter, operator or function. -/
  | unsupported (token : String)
  /-- The token at `position`, counted from zero, needs more operands than there are. -/
  | underflow (token : String) (position : Nat)
  /-- The text leaves `depth` numbers instead of one. -/
  | unbalanced (depth : Nat)
deriving DecidableEq

def CompileError.message : CompileError → String
  | .unsupported token => "unsupported node type: " ++ Text.quoted token
  | .underflow token position =>
    "not enough operands for " ++ Text.quoted token ++ " at token " ++ position.repr
  | .unbalanced depth =>
    "expression leaves " ++ depth.repr ++ " values on the stack instead of one"

/-- The instruction that a token stands for. -/
def Instruction.ofToken? (params : List String) (token : String) :
    Option (Instruction params.length) :=
  match Decimal.literal? token with
  | some number => some (.literal token number)
  | none =>
    match params.finIdxOf? token with
    | some index => some (.parameter token index)
    | none =>
      match Operator.ofSymbol? token with
      | some op => some (.operator op)
      | none => (Builtin.ofName? token).map .call

/-- Instructions and the height to which they take a stack of height `start`. -/
structure Fragment (n start : Nat) where
  code : List (Instruction n)
  height : Nat
  reaches : height? code start = some height

/-- Puts an instruction in front of a fragment. -/
def Fragment.cons {n start : Nat} (i : Instruction n) (enough : i.operands ≤ start)
    (f : Fragment n (start - i.operands + 1)) : Fragment n start where
  code := i :: f.code
  height := f.height
  reaches := by simp [height?, Instruction.height?, enough, f.reaches]

/-- The instructions of a list of tokens, the first of which is at `position` and meets a stack
of the given height. -/
def Fragment.ofTokens (params : List String) :
    List String → (position height : Nat) → Except CompileError (Fragment params.length height)
  | [], _, height => .ok ⟨[], height, rfl⟩
  | token :: tokens, position, height =>
    match Instruction.ofToken? params token with
    | none => .error (.unsupported token)
    | some i =>
      if enough : i.operands ≤ height then
        (ofTokens params tokens (position + 1) (height - i.operands + 1)).map (.cons i enough)
      else .error (.underflow token position)

/-- Compiles a list of tokens. -/
def Tape.ofTokens (params tokens : List String) : Except CompileError (Tape params) :=
  match Fragment.ofTokens params tokens 0 0 with
  | .error e => .error e
  | .ok f =>
    if one : f.height = 1 then .ok ⟨f.code, one ▸ f.reaches⟩ else .error (.unbalanced f.height)

/-- Compiles an expression over the given parameters. -/
def compile (params : List String) (expression : String) : Except CompileError (Tape params) :=
  Tape.ofTokens params (Text.words expression)

end LeastSquares.Postfix
