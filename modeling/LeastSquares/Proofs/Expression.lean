/-
LeastSquares.Proofs.Expression — the tree behind a tape.

The code of a tape is the postorder listing of exactly one tree, and every reading of the tape is
the reading of that tree. The tree is found by running the tape itself, under the reading whose
values are trees (`free`); what is proved about that one run carries over to all others, because
the machine treats its values as opaque.

* `run_of_listing` — code that lists a tree leaves the value of the tree on whatever stack it meets.
* `listing_of_run_free` — under `free`, the listings of the trees on the stack are the code so far.
* `Tape.eval_tree`, `Tape.dual_tree`, `Tape.value_tree` — a tape means what its tree means.
-/
import LeastSquares.Postfix.Evaluation

namespace LeastSquares.Postfix

/-- An expression over `n` parameters. -/
inductive Expression (n : Nat) where
  | literal (number : Decimal)
  | parameter (index : Fin n)
  | elementary (f : Elementary) (x : Expression n)
  | operator (op : Operator) (left right : Expression n)
  | extremum (e : Extremum) (left right : Expression n)
deriving DecidableEq

/-- What a token can stand for. -/
inductive Lexeme (n : Nat) where
  | literal (number : Decimal)
  | parameter (index : Fin n)
  | operator (op : Operator)
  | call (f : Builtin)
deriving DecidableEq

variable {n : Nat} {V : Type}

/-- The instruction without the text it was written as. -/
def Instruction.lexeme : Instruction n → Lexeme n
  | literal _ number => .literal number
  | parameter _ index => .parameter index
  | operator op => .operator op
  | call f => .call f

namespace Expression

/-- The nodes in postorder: the children of a node first, from left to right. -/
def listing : Expression n → List (Lexeme n)
  | literal number => [.literal number]
  | parameter index => [.parameter index]
  | elementary f x => x.listing ++ [.call (.elementary f)]
  | operator op left right => left.listing ++ right.listing ++ [.operator op]
  | extremum e left right => left.listing ++ right.listing ++ [.call (.extremum e)]

/-- The value of the tree, from the leaves to the root. -/
def eval (r : Reading V) (env : Fin n → V) : Expression n → V
  | literal number => r.literal number
  | parameter index => env index
  | elementary f x => r.elementary f (x.eval r env)
  | operator op left right => r.operator op (left.eval r env) (right.eval r env)
  | extremum e left right => r.extremum e (left.eval r env) (right.eval r env)

/-- The reading whose values are the trees themselves. -/
def free : Reading (Expression n) where
  literal := literal
  operator := operator
  elementary := elementary
  extremum := extremum

@[simp] theorem eval_free (e : Expression n) : e.eval free parameter = e := by
  induction e with
  | literal _ => rfl
  | parameter _ => rfl
  | elementary f x ih => simp only [eval, ih]; rfl
  | operator op left right ihl ihr => simp only [eval, ihl, ihr]; rfl
  | extremum e left right ihl ihr => simp only [eval, ihl, ihr]; rfl

variable {K : Type} [Scalar K]

/-- The value of the expression in plain numbers: the extrema are exact, and a divisor that is
exactly zero is replaced by `1e-10`. -/
def value (x : Vec K n) : Expression n → K
  | literal number => number.toScalar
  | parameter index => x.get index
  | elementary f e => f.value (e.value x)
  | operator .add left right => left.value x + right.value x
  | operator .sub left right => left.value x - right.value x
  | operator .mul left right => left.value x * right.value x
  | operator .div left right =>
    left.value x / (if right.value x == 0 then 1e-10 else right.value x)
  | operator .pow left right => Scalar.pow (left.value x) (right.value x)
  | extremum .max left right => Scalar.max (left.value x) (right.value x)
  | extremum .min left right => Scalar.min (left.value x) (right.value x)

/-- The value of the expression in dual numbers, with the smooth extrema at temperature one. -/
def dual (x : Vec K n) : Expression n → Dual K
  | literal number => .constant number.toScalar
  | parameter index => .ofVariable (x.get index) index
  | elementary f e => f.dual (e.dual x)
  | operator .add left right => left.dual x + right.dual x
  | operator .sub left right => left.dual x - right.dual x
  | operator .mul left right => left.dual x * right.dual x
  | operator .div left right => left.dual x / right.dual x
  | operator .pow left right => (left.dual x).pow (right.dual x)
  | extremum .max left right => .smoothMax 1 (left.dual x) (right.dual x)
  | extremum .min left right => .smoothMin 1 (left.dual x) (right.dual x)

theorem value_extremum (x : Vec K n) (e : Extremum) (left right : Expression n) :
    (extremum e left right).value x = e.value (left.value x) (right.value x) := by
  cases e <;> rfl

theorem dual_operator (x : Vec K n) (op : Operator) (left right : Expression n) :
    (operator op left right).dual x = op.dual (left.dual x) (right.dual x) := by
  cases op <;> rfl

theorem dual_extremum (x : Vec K n) (e : Extremum) (left right : Expression n) :
    (extremum e left right).dual x = e.dual (left.dual x) (right.dual x) := by
  cases e <;> rfl

theorem eval_valueReading (x : Vec K n) (e : Expression n) :
    e.eval valueReading x.get = e.value x := by
  induction e with
  | literal _ => rfl
  | parameter _ => rfl
  | elementary f e ih => simp only [eval, value, ih]; rfl
  | operator op left right ihl ihr =>
    simp only [eval, ihl, ihr]
    cases op with
    | div => simp only [value, valueReading, Operator.value, valueGuard]; split <;> rfl
    | _ => rfl
  | extremum e left right ihl ihr => rw [value_extremum, eval, ihl, ihr]; rfl

theorem eval_dualReading (x : Vec K n) (e : Expression n) :
    e.eval dualReading (fun i => .ofVariable (x.get i) i) = e.dual x := by
  induction e with
  | literal _ => rfl
  | parameter _ => rfl
  | elementary f e ih => simp only [eval, dual, ih]; rfl
  | operator op left right ihl ihr => rw [dual_operator, eval, ihl, ihr]; rfl
  | extremum e left right ihl ihr => rw [dual_extremum, eval, ihl, ihr]; rfl

end Expression

open Expression

/-! ## Running a listing -/

/-- What the machine does depends on an instruction only through its lexeme. -/
theorem Instruction.exec_congr (r : Reading V) (env : Fin n → V) {i j : Instruction n}
    (h : i.lexeme = j.lexeme) (stack : List V) : i.exec r env stack = j.exec r env stack := by
  cases i <;> cases j <;> simp_all [lexeme, exec]

/-- Code that lists a tree puts the value of the tree on the stack, whatever lies below. -/
theorem run_of_listing (r : Reading V) (env : Fin n → V) (e : Expression n) :
    ∀ {code : List (Instruction n)}, code.map Instruction.lexeme = e.listing →
      ∀ stack : List V, run r env code stack = some (e.eval r env :: stack) := by
  -- `i` has the lexeme of the last node, so it does what that node's own instruction does
  have last {i j : Instruction n} (h : i.lexeme = j.lexeme) {below above : List V}
      (hj : j.exec r env below = some above) : run r env [i] below = some above := by
    simp [run, i.exec_congr r env h, hj]
  induction e with
  | literal number =>
    intro code h stack
    obtain ⟨i, rfl, hi⟩ := List.map_eq_singleton_iff.1 h
    exact last (j := .literal "" number) hi rfl
  | parameter index =>
    intro code h stack
    obtain ⟨i, rfl, hi⟩ := List.map_eq_singleton_iff.1 h
    exact last (j := .parameter "" index) hi rfl
  | elementary f x ih =>
    intro code h stack
    obtain ⟨xs, top, rfl, hx, htop⟩ := List.map_eq_append_iff.1 h
    obtain ⟨i, rfl, hi⟩ := List.map_eq_singleton_iff.1 htop
    rw [run_append, ih hx]
    exact last (j := .call (.elementary f)) hi rfl
  | operator op left right ihl ihr =>
    intro code h stack
    obtain ⟨both, top, rfl, hboth, htop⟩ := List.map_eq_append_iff.1 h
    obtain ⟨ls, rs, rfl, hl, hr⟩ := List.map_eq_append_iff.1 hboth
    obtain ⟨i, rfl, hi⟩ := List.map_eq_singleton_iff.1 htop
    rw [run_append, run_append, ihl hl, Option.bind_some, ihr hr]
    exact last (j := .operator op) hi rfl
  | extremum e left right ihl ihr =>
    intro code h stack
    obtain ⟨both, top, rfl, hboth, htop⟩ := List.map_eq_append_iff.1 h
    obtain ⟨ls, rs, rfl, hl, hr⟩ := List.map_eq_append_iff.1 hboth
    obtain ⟨i, rfl, hi⟩ := List.map_eq_singleton_iff.1 htop
    rw [run_append, run_append, ihl hl, Option.bind_some, ihr hr]
    exact last (j := .call (.extremum e)) hi rfl

/-- Code that lists a tree makes any stack higher by one. -/
theorem height?_of_listing {e : Expression n} {code : List (Instruction n)}
    (h : code.map Instruction.lexeme = e.listing) (height : Nat) :
    height? code height = some (height + 1) := by
  have hrun := run_of_listing free parameter e h (List.replicate height e)
  have hlen := run_length free parameter code (List.replicate height e)
  rw [hrun] at hlen
  simpa using hlen.symm

/-! ## The tree of a run -/

/-- The listings of the trees on a stack, the bottom of the stack first. -/
def listings (stack : List (Expression n)) : List (Lexeme n) :=
  stack.reverse.flatMap listing

theorem listing_of_exec_free (i : Instruction n) {stack next : List (Expression n)}
    (h : i.exec free parameter stack = some next) :
    listings next = listings stack ++ [i.lexeme] := by
  match i, stack, h with
  | .literal _ _, _, rfl => simp [listings, free, listing, Instruction.lexeme]
  | .parameter _ _, _, rfl => simp [listings, listing, Instruction.lexeme]
  | .operator _, _ :: _ :: _, rfl => simp [listings, free, listing, Instruction.lexeme]
  | .call (.elementary _), _ :: _, rfl => simp [listings, free, listing, Instruction.lexeme]
  | .call (.extremum _), _ :: _ :: _, rfl => simp [listings, free, listing, Instruction.lexeme]

/-- The trees on the stack list the code that was run, behind the trees that were there before. -/
theorem listing_of_run_free {code : List (Instruction n)} {stack final : List (Expression n)}
    (h : run free parameter code stack = some final) :
    listings final = listings stack ++ code.map Instruction.lexeme := by
  induction code generalizing stack with
  | nil => simp_all [run]
  | cons i code ih =>
    obtain ⟨next, hi, hnext⟩ := Option.bind_eq_some_iff.1 h
    rw [ih hnext, listing_of_exec_free i hi]
    simp

namespace Tape

variable {params : List String}

/-- The expression that the tape was compiled from, as a tree. -/
def tree (t : Tape params) : Expression params.length :=
  t.eval free parameter

theorem listing_tree (t : Tape params) : t.tree.listing = t.code.map Instruction.lexeme := by
  simpa [listings, tree] using listing_of_run_free (t.run_eq_eval free parameter)

/-- No other tree has the code of the tape as its listing. -/
theorem tree_eq (t : Tape params) {e : Expression params.length}
    (h : t.code.map Instruction.lexeme = e.listing) : t.tree = e := by
  have hrun := run_of_listing free parameter e h []
  rw [t.run_eq_eval, eval_free] at hrun
  simpa [tree] using hrun

/-- A tape means what its tree means. -/
theorem eval_tree (t : Tape params) (r : Reading V) (env : Fin params.length → V) :
    t.eval r env = t.tree.eval r env := by
  have hrun := run_of_listing r env t.tree t.listing_tree.symm []
  rw [t.run_eq_eval] at hrun
  simpa using hrun

variable {K : Type} [Scalar K]

theorem dual_tree (t : Tape params) (x : Vec K params.length) : t.dual x = t.tree.dual x := by
  rw [Tape.dual, eval_tree, eval_dualReading]

theorem value_tree (t : Tape params) (x : Vec K params.length) : t.value x = t.tree.value x := by
  rw [Tape.value, eval_tree, eval_valueReading]

end Tape

end LeastSquares.Postfix
