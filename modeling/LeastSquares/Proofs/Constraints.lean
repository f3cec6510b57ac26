/-
LeastSquares.Proofs.Constraints — sets of constraints that grow call by call.

A constraint is added in place. The expression is compiled first and the set is written after
that, so a call that fails leaves nothing behind, and a sequence of calls may go on after it.

* `run_addInPlace` — one call: the tape at the end and its row, or the error and the same set.
* `run_addEach` — a sequence of calls: what is left, and what each of them returned.
* `ofExpressions_eq` — the sets made of a list of expressions are what is left of such a sequence.
* `rows_evaluate` — an evaluation has a row for each tape, with the whole gradient of the tape.
-/
import LeastSquares.Proofs.Agreement
import LeastSquares.Proofs.Checked.System

namespace LeastSquares

open Postfix

/-! ## Calls -/

namespace Constraints

/-- Adds a constraint to the current set, and returns its row. -/
def addInPlace (expression : String) : ExceptT CompileError (StateM Constraints) Nat := do
  let s ← get
  let t ← ExceptT.mk (pure (compile s.params expression))
  set (Constraints.mk s.params (s.tapes ++ [t]))
  return (← get).size - 1

/-- Adds one constraint after the other, and returns what each call returned. A call that fails
does not end the sequence. -/
def addEach (expressions : List String) : StateM Constraints (List (Except CompileError Nat)) :=
  expressions.mapM fun e => (addInPlace e).run

/-- A call has the outcome of `add`, and after an error the set is the one before. -/
theorem run_addInPlace (s : Constraints) (expression : String) :
    (addInPlace expression).run.run s = match s.add expression with
      | .ok (next, row) => (.ok row, next)
      | .error err => (.error err, s) := by
  have hcall : (addInPlace expression).run.run s = match compile s.params expression with
      | .ok t => (.ok ((s.tapes ++ [t]).length - 1), ⟨s.params, s.tapes ++ [t]⟩)
      | .error err => (.error err, s) := by
    -- once the set has been read, the call depends on the compiler alone
    show StateT.run (ExceptT.bindCont _ (compile s.params expression)) s = _
    cases compile s.params expression <;> rfl
  rw [hcall, add]
  cases compile s.params expression with
  | error err => rfl
  | ok t => simp [Except.map]

theorem run_addEach_cons (s : Constraints) (e : String) (es : List String) :
    (addEach (e :: es)).run s =
      let (answer, next) := (addInPlace e).run.run s
      let (answers, last) := (addEach es).run next
      (answer :: answers, last) := by
  rw [addEach, List.mapM_cons]
  rfl

variable {params : List String}

@[simp] theorem compiled_nil : compiled params [] = [] :=
  rfl

theorem compiled_cons_of_error {e : String} {err : CompileError}
    (h : compile params e = .error err) (es : List String) :
    compiled params (e :: es) = compiled params es := by
  simp [compiled, h, Except.toOption]

theorem compiled_cons_of_ok {e : String} {t : Tape params} (h : compile params e = .ok t)
    (es : List String) : compiled params (e :: es) = t :: compiled params es := by
  simp [compiled, h, Except.toOption]

/-- A call that succeeds returns how many calls before it did, and those before the sequence. -/
theorem run_addEach (tapes : List (Tape params)) (expressions : List String) :
    (addEach expressions).run ⟨params, tapes⟩
      = (List.ofFn fun i : Fin expressions.length =>
          (compile params (expressions.get i)).map fun _ =>
            tapes.length + (compiled params (expressions.take i)).length,
        ⟨params, tapes ++ compiled params expressions⟩) := by
  induction expressions generalizing tapes with
  | nil =>
    rw [compiled_nil, List.append_nil]
    rfl
  | cons e es ih =>
    rw [run_addEach_cons, run_addInPlace, add]
    cases he : compile params e with
    | error err => simp [Except.map, ih, compiled_cons_of_error he, he, List.ofFn_succ]
    | ok t =>
      simp [Except.map, ih, compiled_cons_of_ok he, he, List.ofFn_succ, Nat.add_assoc,
        Nat.add_comm 1]

example : ((addEach ["x y *", "x +", "y sqrt"]).run (new ["x", "y"])).1
    = [.ok 0, .error (.underflow "+" 1), .ok 1] := by
  decide +kernel

/-- Why an expression is refused, if it is. -/
def refusal? (params : List String) (expression : String) : Option CompileError :=
  match compile params expression with
  | .ok _ => none
  | .error err => some err

/-- The first expression that is refused decides the error. -/
theorem ofExpressions_eq (expressions : List String) :
    ofExpressions params expressions = match expressions.findSome? (refusal? params) with
      | none => .ok ⟨params, compiled params expressions⟩
      | some err => .error err := by
  have appended (tapes : List (Tape params)) :
      expressions.foldlM (fun s e => (s.add e).map Prod.fst) (⟨params, tapes⟩ : Constraints)
        = match expressions.findSome? (refusal? params) with
          | none => .ok ⟨params, tapes ++ compiled params expressions⟩
          | some err => .error err := by
    induction expressions generalizing tapes with
    | nil => simp [pure, Except.pure]
    | cons e es ih =>
      rw [List.foldlM_cons, add, List.findSome?_cons, refusal?]
      cases he : compile params e with
      | error err => rfl
      | ok t =>
        refine (ih (tapes ++ [t])).trans ?_
        rw [compiled_cons_of_ok he, List.append_assoc]
        rfl
  exact appended []

end Constraints

/-! ## Evaluations -/

variable {K : Type} {n : Nat}

/-- Each residual with its row of the Jacobian. -/
def Evaluation.rows (e : Evaluation K n) : List (K × List K) :=
  List.ofFn fun i => (e.residuals.get i, (e.jacobian.get i).toList)

theorem Evaluation.rows_ofRows (rows : List (K × Vec K n)) :
    (ofRows rows).rows = rows.map fun r => (r.1, r.2.toList) := by
  refine List.ext_get (by simp [Evaluation.rows, ofRows]) fun i _ _ => ?_
  simp [Evaluation.rows, ofRows]

variable [Scalar K] {params : List String}

/-- The gradient of a tape has an entry for each parameter. -/
theorem Postfix.Tape.length_gradientRow (t : Tape params) (x : Vec K params.length) :
    (t.gradientRow x).2.length = params.length := by
  have hfits : (t.dual x).Fits params.length := t.dual_tree x ▸ Expression.fits_dual x t.tree
  rw [gradientRow, hfits.gradientOr_eq, List.length_ofFn]

namespace Constraints

/-- A row of the Jacobian is a whole gradient: none is cut, and none is filled up with zeros. -/
theorem row_eq (t : Tape params) (x : Vec K params.length) :
    ((row t x).1, (row t x).2.toList) = t.gradientRow x := by
  refine Prod.ext rfl (List.ext_get ?_ fun j _ h => ?_)
  · simp [t.length_gradientRow x]
  · simp [row, h]

theorem rows_evaluate (tapes : List (Tape params)) (x : Vec K params.length) :
    ((problem ⟨params, tapes⟩).evaluate x).rows = tapes.map fun t => t.gradientRow x := by
  rw [problem, Evaluation.rows_ofRows, List.map_map]
  exact List.map_congr_left fun t _ => row_eq t x

end Constraints

open Constraints in
/-- Expressions are added to an empty set, in any order of those that compile and those that do
not. The set has the tapes of those that compile, in the order of the calls. Each of these calls
returned how many there were before it, and each of the others the error of the compiler. So does
the next call, whose error leaves the set as it is. A set made of the whole list is this set, or
the error of the first expression that has one. At each point an evaluation has one row for each
tape, which consists of its value and its gradient, and the residuals are the plain values. Further
calls only append to both. -/
theorem constraints_of_calls (params expressions : List String) :
    let s : Constraints := ⟨params, compiled params expressions⟩
    (addEach expressions).run (new params)
        = (List.ofFn fun i : Fin expressions.length =>
            (compile params (expressions.get i)).map fun _ =>
              (compiled params (expressions.take i)).length, s)
      ∧ (∀ e, (addInPlace e).run.run s = match compile s.params e with
          | .ok t => (.ok s.size, ⟨s.params, s.tapes ++ [t]⟩)
          | .error err => (.error err, s))
      ∧ (ofExpressions params expressions = match expressions.findSome? (refusal? params) with
          | none => .ok s
          | some err => .error err)
      ∧ ∀ (K : Type) [Scalar K] (x : Vec K s.params.length),
          (s.problem.evaluate x).rows = s.tapes.map (fun t => t.gradientRow x)
          ∧ s.problem.residuals x = s.tapes.map (fun t => t.value x)
          ∧ ∀ more, let next : Constraints := ⟨params, compiled params (expressions ++ more)⟩
              (s.problem.evaluate x).rows <+: (next.problem.evaluate x).rows
              ∧ s.problem.residuals x <+: next.problem.residuals x := by
  intro s
  refine ⟨?_, fun e => ?_, ofExpressions_eq expressions, fun K _ x => ?_⟩
  · simpa [new, s] using run_addEach ([] : List (Tape params)) expressions
  · rw [run_addInPlace, add]
    cases compile s.params e <;> rfl
  · refine ⟨rows_evaluate s.tapes x, rfl, fun more => ?_⟩
    have hprefix : s.tapes <+: compiled params (expressions ++ more) :=
      ⟨compiled params more, List.filterMap_append.symm⟩
    refine ⟨?_, hprefix.map _⟩
    rw [rows_evaluate, rows_evaluate]
    exact hprefix.map _

end LeastSquares
