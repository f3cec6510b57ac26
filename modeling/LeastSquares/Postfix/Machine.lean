/-
LeastSquares.Postfix.Machine — running a tape.

The machine does not know what its numbers are: a `Reading` says what literals, operators and
functions mean. `run_length` is why running a tape cannot fail: where `height?` finds a height,
the machine finds a stack of that height. `Tape.run_eq_eval` says that the value of a tape is what
the machine leaves on the stack.
-/
import LeastSquares.Postfix.Tape

namespace LeastSquares.Postfix

/-- What the symbols of the language mean over some type of values. -/
structure Reading (V : Type) where
  literal : Decimal → V
  operator : Operator → V → V → V
  elementary : Elementary → V → V
  extremum : Extremum → V → V → V

variable {V : Type} {n : Nat}

/-- What an instruction does to the stack, whose top comes first: nothing, if the stack is not
high enough. -/
def Instruction.exec (r : Reading V) (env : Fin n → V) : Instruction n → List V → Option (List V)
  | .literal _ number, stack => some (r.literal number :: stack)
  | .parameter _ index, stack => some (env index :: stack)
  | .operator op, right :: left :: stack => some (r.operator op left right :: stack)
  | .call (.elementary f), x :: stack => some (r.elementary f x :: stack)
  | .call (.extremum e), right :: left :: stack => some (r.extremum e left right :: stack)
  | _, _ => none

/-- What a list of instructions does to the stack. -/
def run (r : Reading V) (env : Fin n → V) : List (Instruction n) → List V → Option (List V)
  | [], stack => some stack
  | i :: code, stack => (i.exec r env stack).bind (run r env code)

theorem run_append (r : Reading V) (env : Fin n → V) (first rest : List (Instruction n))
    (stack : List V) :
    run r env (first ++ rest) stack = (run r env first stack).bind (run r env rest) := by
  induction first generalizing stack with
  | nil => rfl
  | cons i first ih =>
    simp only [List.cons_append, run]
    cases i.exec r env stack with
    | none => rfl
    | some next => exact ih next

/-- The machine can execute an instruction exactly where the stack is high enough. -/
theorem Instruction.exec_length (r : Reading V) (env : Fin n → V) (i : Instruction n)
    (stack : List V) : (i.exec r env stack).map List.length = i.height? stack.length := by
  match i, stack with
  | .literal _ _, _ => simp [exec, height?, operands]
  | .parameter _ _, _ => simp [exec, height?, operands]
  | .operator _, [] => simp [exec, height?, operands]
  | .operator _, [_] => simp [exec, height?, operands]
  | .operator _, _ :: _ :: _ => simp [exec, height?, operands]
  | .call (.elementary _), [] => simp [exec, height?, operands, Builtin.arity]
  | .call (.elementary _), _ :: _ => simp [exec, height?, operands, Builtin.arity]
  | .call (.extremum _), [] => simp [exec, height?, operands, Builtin.arity]
  | .call (.extremum _), [_] => simp [exec, height?, operands, Builtin.arity]
  | .call (.extremum _), _ :: _ :: _ => simp [exec, height?, operands, Builtin.arity]

/-- The machine gets through exactly where `height?` does, and to the same height. -/
theorem run_length (r : Reading V) (env : Fin n → V) (code : List (Instruction n))
    (stack : List V) : (run r env code stack).map List.length = height? code stack.length := by
  induction code generalizing stack with
  | nil => rfl
  | cons i code ih =>
    have hi := i.exec_length r env stack
    cases h : i.exec r env stack with
    | none => simp [run, height?, ← hi, h]
    | some next => simp [run, height?, ← hi, h, ih]

namespace Tape

variable {params : List String}

/-- Running a tape on an empty stack leaves one value. -/
theorem exists_run (r : Reading V) (env : Fin params.length → V) (t : Tape params) :
    ∃ v, run r env t.code [] = some [v] := by
  have h := run_length r env t.code []
  rw [List.length_nil, t.balanced, Option.map_eq_some_iff] at h
  obtain ⟨stack, hrun, hlen⟩ := h
  obtain ⟨v, rfl⟩ := List.length_eq_one_iff.1 hlen
  exact ⟨v, hrun⟩

/-- The value of a tape under a reading, with the given values of the parameters. -/
def eval (r : Reading V) (env : Fin params.length → V) (t : Tape params) : V :=
  match h : run r env t.code [] with
  | some [v] => v
  | none => False.elim (by obtain ⟨v, hv⟩ := t.exists_run r env; simp [h] at hv)
  | some [] => False.elim (by obtain ⟨v, hv⟩ := t.exists_run r env; simp [h] at hv)
  | some (_ :: _ :: _) => False.elim (by obtain ⟨v, hv⟩ := t.exists_run r env; simp [h] at hv)

/-- `eval` returns what the machine leaves on the stack. -/
theorem run_eq_eval (r : Reading V) (env : Fin params.length → V) (t : Tape params) :
    run r env t.code [] = some [t.eval r env] := by
  obtain ⟨v, hv⟩ := t.exists_run r env
  rw [hv, eval]
  split <;> simp_all

end Tape

end LeastSquares.Postfix
