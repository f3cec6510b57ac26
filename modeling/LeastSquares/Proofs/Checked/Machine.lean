/-
LeastSquares.Proofs.Checked.Machine — the machine on plain data.

The types of a tape leave nothing to check: an index comes with its bound, and a proof says that no
instruction meets a stack that is too low. Here is the same machine where an instruction holds a
plain index, the gradient that its parameter starts with and the number of its operands, and where
the point is a list. Each index, each pop and each difference of lengths is checked when it is
used, and a check that does not succeed is a fault.

* `compile_eq` — the compiler does not fault, and gives the data of the tape.
* `Tape.run_of` — on a point of the right length such a tape does not fault, and its value is the
  value of the tape.
* `Tape.run_of_wrongLength` — on any other point it faults.
-/
import LeastSquares.Postfix.Compile
import LeastSquares.Postfix.Evaluation

namespace LeastSquares.Checked

open Postfix

/-! ## Checks -/

section Checks

variable {α : Type}

/-- Two lengths that have to be equal. -/
def sameLength (expected given : Nat) : Except Fault Unit :=
  if given = expected then .ok () else .error (.wrongLength expected given)

/-- A difference of lengths, which must not be negative. -/
def subtract (a b : Nat) : Except Fault Nat :=
  if b ≤ a then .ok (a - b) else .error (.outOfRange b a)

/-- The element at an index. -/
def fetch (xs : List α) (index : Nat) : Except Fault α :=
  if h : index < xs.length then .ok (xs.get ⟨index, h⟩)
  else .error (.outOfRange index xs.length)

/-- The list with another element at an index. -/
def store (xs : List α) (index : Nat) (x : α) : Except Fault (List α) :=
  if index < xs.length then .ok (xs.set index x) else .error (.outOfRange index xs.length)

/-- The top of a stack, and the stack below it. -/
def pop : List α → Except Fault (α × List α)
  | [] => .error (.outOfRange 0 0)
  | top :: below => .ok (top, below)

/-- The last `count` elements that were put on a stack, the first of them in front, and the stack
below them. -/
def splitOff (stack : List α) (count : Nat) : Except Fault (List α × List α) := do
  let height ← subtract stack.length count
  let (above, below) := stack.splitAt (stack.length - height)
  pure (above.reverse, below)

/-- A check that succeeds is passed. -/
theorem ok_bind {β : Type} (a : α) (f : α → Except Fault β) : (Except.ok a >>= f) = f a :=
  rfl

@[simp] theorem sameLength_self (n : Nat) : sameLength n n = .ok () :=
  if_pos rfl

theorem subtract_of_le {a b : Nat} (h : b ≤ a) : subtract a b = .ok (a - b) :=
  if_pos h

theorem store_of_lt {xs : List α} {index : Nat} (h : index < xs.length) (x : α) :
    store xs index x = .ok (xs.set index x) :=
  if_pos h

theorem fetch_toList {n : Nat} (x : Vec α n) (i : Fin n) : fetch x.toList i = .ok (x.get i) := by
  rw [fetch, dif_pos (by simp)]
  simp [Vector.get]

theorem splitOff_of_le {stack : List α} {count : Nat} (h : count ≤ stack.length) :
    splitOff stack count = .ok ((stack.take count).reverse, stack.drop count) := by
  simp [splitOff, subtract_of_le h, ok_bind, pure, Except.pure,
    Nat.sub_sub_self h]

end Checks

/-! ## Instructions -/

/-- One step of the machine. -/
inductive Instruction (K : Type) where
  | literal (token : String) (value : K)
  /-- Puts the number at `index` on the stack, with the gradient `seed`. -/
  | parameter (name : String) (index : Nat) (seed : List K)
  | operator (op : Operator)
  /-- Takes `count` operands. -/
  | call (f : Builtin) (count : Nat)

/-- A compiled expression: any list of instructions. -/
structure Tape (K : Type) where
  params : List String
  code : List (Instruction K)

variable {K : Type} [Scalar K] {V : Type} {params : List String} {n : Nat}

/-- How many numbers the instruction takes from the stack. -/
def Instruction.operands : Instruction K → Nat
  | literal .. => 0
  | parameter .. => 0
  | operator _ => 2
  | call _ count => count

/-- One in the direction of a parameter, zero in the others. -/
def direction (index : Fin n) : List K :=
  (List.finRange n).map fun j => if j = index then 1 else 0

/-- The data of an instruction. -/
def Instruction.of : Postfix.Instruction n → Instruction K
  | .literal token number => .literal token number.toScalar
  | .parameter name index => .parameter name index (direction index)
  | .operator op => .operator op
  | .call f => .call f f.arity

/-- The data of a tape. -/
def Tape.of (t : Postfix.Tape params) : Tape K :=
  ⟨params, t.code.map Instruction.of⟩

@[simp] theorem Instruction.operands_of (i : Postfix.Instruction n) :
    (of i : Instruction K).operands = i.operands := by
  cases i <;> rfl

/-! ## Compilation -/

/-- The instruction that a token stands for. -/
def classify (params : List String) (token : String) : Except Fault (Option (Instruction K)) :=
  match Decimal.literal? token with
  | some number => pure (some (.literal token number.toScalar))
  | none =>
    match params.idxOf? token with
    | some index => do
      let seed ← store (List.replicate params.length 0) index 1
      pure (some (.parameter token index seed))
    | none =>
      match Operator.ofSymbol? token with
      | some op => pure (some (.operator op))
      | none => pure ((Builtin.ofName? token).map fun f => .call f f.arity)

/-- The instructions of a list of tokens, and how high they leave a stack of height `depth`. -/
def compileFrom (params : List String) : List String → (position depth : Nat) →
    Except Fault (Except CompileError (List (Instruction K) × Nat))
  | [], _, depth => pure (.ok ([], depth))
  | token :: tokens, position, depth => do
    match ← classify params token with
    | none => pure (.error (.unsupported token))
    | some i =>
      if depth < i.operands then pure (.error (.underflow token position))
      else
        let below ← subtract depth i.operands
        let rest ← compileFrom params tokens (position + 1) (below + 1)
        pure (rest.map fun (code, depth) => (i :: code, depth))

/-- Compiles an expression over the given parameters. -/
def compile (params : List String) (expression : String) :
    Except Fault (Except CompileError (Tape K)) := do
  match ← compileFrom params (Text.words expression) 0 0 with
  | .error e => pure (.error e)
  | .ok (code, depth) =>
    if depth = 1 then pure (.ok ⟨params, code⟩) else pure (.error (.unbalanced depth))

theorem direction_eq_set (index : Fin n) :
    (direction index : List K) = (List.replicate n 0).set index 1 := by
  refine List.ext_getElem (by simp [direction]) fun i _ _ => ?_
  simp only [direction, List.getElem_map, List.getElem_finRange, List.getElem_set,
    List.getElem_replicate, Fin.ext_iff, Fin.val_cast]
  exact ite_congr (propext eq_comm) (fun _ => rfl) fun _ => rfl

/-- The index of a parameter lies within the gradient that is made for it. -/
theorem classify_eq (params : List String) (token : String) :
    (classify params token : Except Fault (Option (Instruction K)))
      = .ok ((Postfix.Instruction.ofToken? params token).map Instruction.of) := by
  unfold classify Postfix.Instruction.ofToken?
  cases Decimal.literal? token with
  | some number => rfl
  | none =>
    simp only [List.idxOf?_eq_map_finIdxOf?_val]
    cases params.finIdxOf? token with
    | some index =>
      have h : index.val < (List.replicate params.length (0 : K)).length := by simp
      simp only [Option.map_some, store_of_lt h, ← direction_eq_set]
      rfl
    | none =>
      cases Operator.ofSymbol? token with
      | some op => rfl
      | none => cases Builtin.ofName? token <;> rfl

theorem compileFrom_eq (params tokens : List String) (position depth : Nat) :
    (compileFrom params tokens position depth
        : Except Fault (Except CompileError (List (Instruction K) × Nat)))
      = .ok ((Fragment.ofTokens params tokens position depth).map
          fun f => (f.code.map Instruction.of, f.height)) := by
  induction tokens generalizing position depth with
  | nil => rfl
  | cons token tokens ih =>
    rw [compileFrom, classify_eq, Fragment.ofTokens]
    cases Postfix.Instruction.ofToken? params token with
    | none => rfl
    | some i =>
      simp only [ok_bind, Option.map_some, Instruction.operands_of]
      by_cases enough : i.operands ≤ depth
      · rw [if_neg (Nat.not_lt.2 enough), dif_pos enough, subtract_of_le enough]
        simp only [ih, ok_bind]
        cases Fragment.ofTokens params tokens (position + 1) (depth - i.operands + 1) <;> rfl
      · rw [if_pos (Nat.lt_of_not_le enough), dif_neg enough]
        rfl

/-- The compiler does not fault, and its result is the data of the tape. -/
theorem compile_eq (params : List String) (expression : String) :
    (compile params expression : Except Fault (Except CompileError (Tape K)))
      = .ok ((Postfix.compile params expression).map Tape.of) := by
  rw [compile, compileFrom_eq, Postfix.compile, Postfix.Tape.ofTokens]
  cases Fragment.ofTokens params (Text.words expression) 0 0 with
  | error e => rfl
  | ok f =>
    simp only [ok_bind, Except.map]
    by_cases one : f.height = 1
    · rw [if_pos one, dif_pos one]
      rfl
    · rw [if_neg one, dif_neg one]
      rfl

/-! ## Running a tape -/

/-- What the instructions do with values of some type. -/
structure Meaning (K V : Type) where
  literal : K → V
  /-- The value and the gradient of a parameter. -/
  parameter : K → List K → V
  operator : Operator → V → V → V
  elementary : Elementary → V → V
  extremum : Extremum → V → V → V

/-- The evaluation in plain numbers. -/
def values : Meaning K K where
  literal := id
  parameter value _ := value
  operator := Operator.value
  elementary := Elementary.value
  extremum := Extremum.value

/-- The evaluation in dual numbers. -/
def duals : Meaning K (Dual K) where
  literal := .constant
  parameter := .varying
  operator := Operator.dual
  elementary := Elementary.dual
  extremum := Extremum.dual

namespace Meaning

/-- A function reads its operands off a list. -/
def call (m : Meaning K V) (f : Builtin) (operands : List V) : Except Fault V :=
  match f with
  | .elementary f => do
    let x ← fetch operands 0
    pure (m.elementary f x)
  | .extremum e => do
    let left ← fetch operands 0
    let right ← fetch operands 1
    pure (m.extremum e left right)

/-- What the symbols of the language mean. -/
def reading (m : Meaning K V) : Reading V where
  literal number := m.literal number.toScalar
  operator := m.operator
  elementary := m.elementary
  extremum := m.extremum

/-- The values of the parameters at a point. -/
def parameters (m : Meaning K V) (x : Vec K n) (index : Fin n) : V :=
  m.parameter (x.get index) (direction index)

end Meaning

/-- What an instruction does to the stack, whose top comes first. -/
def Instruction.exec (m : Meaning K V) (args : List K) (stack : List V) :
    Instruction K → Except Fault (List V)
  | literal _ value => pure (m.literal value :: stack)
  | parameter _ index seed => do
    let value ← fetch args index
    pure (m.parameter value seed :: stack)
  | operator op => do
    let (right, stack) ← pop stack
    let (left, stack) ← pop stack
    pure (m.operator op left right :: stack)
  | call f count => do
    let (operands, stack) ← splitOff stack count
    let result ← m.call f operands
    pure (result :: stack)

/-- The value of a tape at a point, which has to have as many coordinates as there are parameters.
In the end there has to be one number on the stack. -/
def Tape.run (m : Meaning K V) (t : Tape K) (args : List K) : Except Fault V := do
  sameLength t.params.length args.length
  let stack ← t.code.foldlM (Instruction.exec m args) []
  sameLength 1 stack.length
  let (result, _) ← pop stack
  pure result

/-- Where the machine gets through, the same instruction does not fault on plain data. -/
theorem Instruction.exec_of (m : Meaning K V) (x : Vec K n) {i : Postfix.Instruction n}
    {stack next : List V} (h : i.exec m.reading (m.parameters x) stack = some next) :
    (of i).exec m x.toList stack = .ok next := by
  match i, stack with
  | .literal _ _, _ =>
    obtain rfl := Option.some_inj.1 h
    rfl
  | .parameter _ index, _ =>
    obtain rfl := Option.some_inj.1 h
    simp only [of, exec, fetch_toList, ok_bind]
    rfl
  | .operator _, _ :: _ :: _ =>
    obtain rfl := Option.some_inj.1 h
    rfl
  | .call (.elementary _), operand :: below =>
    obtain rfl := Option.some_inj.1 h
    have hsplit : splitOff (operand :: below) 1 = .ok ([operand], below) :=
      splitOff_of_le (Nat.le_add_left 1 _)
    show (splitOff (operand :: below) 1 >>= _) = _
    rw [hsplit]
    rfl
  | .call (.extremum _), right :: left :: below =>
    obtain rfl := Option.some_inj.1 h
    have hsplit : splitOff (right :: left :: below) 2 = .ok ([left, right], below) :=
      splitOff_of_le (Nat.le_add_left 2 _)
    show (splitOff (right :: left :: below) 2 >>= _) = _
    rw [hsplit]
    rfl

theorem foldlM_exec_of (m : Meaning K V) (x : Vec K n) {code : List (Postfix.Instruction n)}
    {stack last : List V} (h : Postfix.run m.reading (m.parameters x) code stack = some last) :
    (code.map Instruction.of).foldlM (Instruction.exec m x.toList) stack = .ok last := by
  induction code generalizing stack with
  | nil => exact congrArg Except.ok (Option.some_inj.1 h)
  | cons i code ih =>
    obtain ⟨next, hi, hcode⟩ := Option.bind_eq_some_iff.1 h
    rw [List.map_cons, List.foldlM_cons, Instruction.exec_of m x hi]
    exact ih hcode

/-- On a point with a coordinate for each parameter a tape has the value that it has with types. -/
theorem Tape.run_of (m : Meaning K V) (t : Postfix.Tape params) (x : Vec K params.length) :
    (of t).run m x.toList = .ok (t.eval m.reading (m.parameters x)) := by
  rw [Tape.run, show (of t : Tape K).params = params from rfl, Vector.length_toList,
    sameLength_self]
  simp only [of, ok_bind, foldlM_exec_of m x (t.run_eq_eval _ _)]
  rfl

omit [Scalar K] in
theorem Tape.run_of_wrongLength (m : Meaning K V) (t : Tape K) {args : List K}
    (h : args.length ≠ t.params.length) :
    t.run m args = .error (.wrongLength t.params.length args.length) := by
  rw [Tape.run, sameLength, if_neg h]
  rfl

/-- The value and the gradient of a tape, which has zeros if the value depends on nothing. -/
def Tape.gradientRow (t : Tape K) (args : List K) : Except Fault (K × List K) := do
  let d ← t.run duals args
  pure (d.value, d.gradientOr t.params.length)

theorem Tape.gradientRow_of (t : Postfix.Tape params) (x : Vec K params.length) :
    (of t).gradientRow x.toList = .ok (t.gradientRow x) := by
  rw [gradientRow, run_of]
  rfl

theorem Tape.value_of (t : Postfix.Tape params) (x : Vec K params.length) :
    (of t).run values x.toList = .ok (t.value x) := by
  rw [run_of]
  rfl

end LeastSquares.Checked
