/-
LeastSquares.Proofs.Checked.System — constraint systems on plain data.

Residuals and derivatives are written one by one into a vector and a matrix that are made before,
so an index is checked for each of them. The vector and the matrix know their lengths, and neither
knows that of the other or how many parameters there are.

* `addAll_of` — no sequence of added expressions faults, refused ones included.
* `valDers_of`, `residuals_of` — at points of the right length the two evaluations do not fault.
* `valDers_of_wrongLength`, `residuals_of_wrongLength` — at all other points they do, if there is a
  constraint.
-/
import LeastSquares.Problem.Constraints
import LeastSquares.Proofs.Checked.Machine

namespace LeastSquares

/-! ## Adding constraints -/

/-- The tapes of the expressions that compile. -/
def compiled (params expressions : List String) : List (Postfix.Tape params) :=
  expressions.filterMap fun e => (Postfix.compile params e).toOption

namespace Checked

variable {K : Type} [Scalar K]

/-- Compiled expressions; nothing ties the parameters of the tapes to those of the system. -/
structure System (K : Type) where
  params : List String
  tapes : List (Tape K)

namespace System

def new (params : List String) : System K :=
  ⟨params, []⟩

/-- The data of constraints. -/
def of (s : Constraints) : System K :=
  ⟨s.params, s.tapes.map Tape.of⟩

/-- The system after an expression was added, and the row of the expression or its error. -/
def add (s : System K) (expression : String) :
    Except Fault (System K × Except Postfix.CompileError Nat) := do
  match ← compile s.params expression with
  | .error e => pure (s, .error e)
  | .ok t =>
    let tapes := s.tapes ++ [t]
    let row ← subtract tapes.length 1
    pure (⟨s.params, tapes⟩, .ok row)

/-- The system after the expressions were added one after the other. -/
def addAll (s : System K) (expressions : List String) : Except Fault (System K) :=
  expressions.foldlM (fun s e => (s.add e).map Prod.fst) s

/-- An expression that does not compile leaves the system as it is. -/
theorem add_of (s : Constraints) (expression : String) :
    (of s : System K).add expression = .ok (match s.add expression with
      | .ok (next, row) => (of next, .ok row)
      | .error e => (of s, .error e)) := by
  rw [add, show (of s : System K).params = s.params from rfl, compile_eq, Constraints.add]
  cases Postfix.compile s.params expression with
  | error e => rfl
  | ok t =>
    have hrow : subtract ((of s : System K).tapes ++ [Tape.of t]).length 1
        = .ok s.tapes.length := by
      rw [subtract_of_le (by simp)]
      simp [of]
    simp only [ok_bind, Except.map, hrow]
    simp [of, pure, Except.pure]

/-- No sequence of expressions faults; what is left are those that compile. -/
theorem addAll_of {params : List String} (tapes : List (Postfix.Tape params))
    (expressions : List String) :
    (of ⟨params, tapes⟩ : System K).addAll expressions
      = .ok (of ⟨params, tapes ++ compiled params expressions⟩) := by
  induction expressions generalizing tapes with
  | nil => simp [addAll, compiled, pure, Except.pure]
  | cons e expressions ih =>
    rw [addAll, List.foldlM_cons, add_of, Constraints.add, compiled, List.filterMap_cons]
    cases Postfix.compile params e with
    | error _ => exact ih tapes
    | ok t =>
      refine (ih (tapes ++ [t])).trans ?_
      rw [List.append_assoc]
      rfl

end System

/-! ## Residuals and derivatives -/

/-- Residuals and their Jacobian. -/
structure ValDers (K : Type) where
  vals : List K
  jacobian : SizedMat K

namespace ValDers

/-- There has to be a row of the Jacobian for each residual. -/
def new (vals : List K) (jacobian : SizedMat K) : Except Fault (ValDers K) := do
  sameLength jacobian.rows vals.length
  pure ⟨vals, jacobian⟩

/-- `m` residuals and `n` derivatives of each, all of them zero. -/
def zeros (m n : Nat) : ValDers K :=
  ⟨List.replicate m 0, ⟨m, n, Vector.replicate m (Vector.replicate n 0)⟩⟩

/-- The data of an evaluation. -/
def of {n : Nat} (e : Evaluation K n) : ValDers K :=
  ⟨e.residuals.toList, ⟨e.count, n, e.jacobian⟩⟩

end ValDers

/-- The matrix with other entries in row `i`, as many of them as are given. -/
def storeRow (a : SizedMat K) (i : Nat) (entries : List K) : Except Fault (SizedMat K) :=
  if h : i < a.rows then
    .ok ⟨a.rows, a.cols, a.entries.set i
      (Vector.ofFn fun j => entries.getD j (a.entries.entry ⟨i, h⟩ j)) h⟩
  else .error (.outOfRange i a.rows)

/-- The list has to have at least `count` elements, and is cut to as many. -/
def takeExactly {α : Type} (count : Nat) (xs : List α) : Except Fault (List α) :=
  if count ≤ xs.length then .ok (xs.take count) else .error (.outOfRange xs.length count)

namespace System

/-- Evaluates a tape and writes what it gives into the row that is given with it. -/
def fill (x : List K) (v : ValDers K) (line : Tape K × Nat) : Except Fault (ValDers K) := do
  let (value, gradient) ← line.1.gradientRow x
  let vals ← store v.vals line.2 value
  let jacobian ← storeRow v.jacobian line.2 gradient
  pure ⟨vals, jacobian⟩

/-- The residuals at `x` with their derivatives. -/
def valDers (s : System K) (x : List K) : Except Fault (ValDers K) := do
  let v ← s.tapes.zipIdx.foldlM (fill x) (.zeros s.tapes.length s.params.length)
  ValDers.new v.vals v.jacobian

/-- The residuals at `x` in plain numbers. -/
def residuals (s : System K) (x : List K) : Except Fault (List K) := do
  let values ← s.tapes.mapM fun t => t.run values x
  takeExactly s.tapes.length values

end System

/-! ## No evaluation faults -/

/-- The matrix with the given rows of length `n`. -/
def ofRows (n : Nat) (rows : List (Vec K n)) : SizedMat K :=
  ⟨rows.length, n, ⟨rows.toArray, by simp⟩⟩

omit [Scalar K] in
theorem ofRows_toList {m n : Nat} (a : Mat K m n) : ofRows n (Vector.toList a) = ⟨m, n, a⟩ := by
  obtain ⟨⟨rows⟩, rfl⟩ := a
  rfl

omit [Scalar K] in
theorem storeRow_ofRows {n : Nat} (above below : List (Vec K n)) (row : Vec K n)
    (entries : List K) :
    storeRow (ofRows n (above ++ row :: below)) above.length entries
      = .ok (ofRows n (above ++ (Vector.ofFn fun j => entries.getD j (row.get j)) :: below)) := by
  have h : above.length < (ofRows n (above ++ row :: below)).rows := by simp [ofRows]
  have hget : Vector.get (ofRows n (above ++ row :: below)).entries ⟨above.length, h⟩ = row :=
    List.getElem_of_append rfl rfl
  rw [storeRow, dif_pos h, ← ofRows_toList]
  refine congrArg (fun rows => Except.ok (ofRows n rows)) ?_
  simp only [Mat.entry, hget]
  simp [ofRows, Vector.set, Vector.toList]

section

variable {params : List String}

open Constraints

/-- The vector and the matrix when the given rows are done and `rest` are not. -/
def ValDers.filled {n : Nat} (done : List (K × Vec K n)) (rest : Nat) : ValDers K where
  vals := done.map Prod.fst ++ List.replicate rest 0
  jacobian := ofRows n (done.map Prod.snd ++ List.replicate rest (Vector.replicate n 0))

omit [Scalar K] in
theorem toList_ofFn_get {α β : Type} (xs : List α) (f : α → β) :
    (Vector.ofFn fun i => f (xs.get i)).toList = xs.map f := by
  refine List.ext_getElem (by simp) fun i _ _ => ?_
  simp

theorem ValDers.zeros_eq (m n : Nat) : (zeros m n : ValDers K) = filled (n := n) [] m := by
  rw [zeros, ← ofRows_toList, Vector.toList_replicate]
  rfl

theorem ValDers.of_ofRows {n : Nat} (rows : List (K × Vec K n)) :
    of (Evaluation.ofRows rows) = filled rows 0 := by
  have hrows : ofRows n (rows.map Prod.snd) = ⟨_, n, (Evaluation.ofRows rows).jacobian⟩ := by
    rw [← ofRows_toList]
    exact congrArg (ofRows n) (toList_ofFn_get rows Prod.snd).symm
  have hvals : (Evaluation.ofRows rows).residuals.toList = rows.map Prod.fst :=
    toList_ofFn_get rows Prod.fst
  rw [of, ← hrows, hvals, filled]
  simp

theorem ValDers.new_filled {n : Nat} (done : List (K × Vec K n)) :
    new (filled done 0).vals (filled done 0).jacobian = .ok (filled done 0) := by
  have h : (filled done 0).vals.length = (filled done 0).jacobian.rows := by
    simp [filled, ofRows]
  rw [new, h, sameLength_self]
  rfl

theorem System.fill_of (t : Postfix.Tape params) (x : Vec K params.length)
    (done : List (K × Vec K params.length)) (rest : Nat) :
    fill x.toList (.filled done (rest + 1)) (Tape.of t, done.length)
      = .ok (.filled (done ++ [row t x]) rest) := by
  have hvals : store (done.map Prod.fst ++ List.replicate (rest + 1) 0) done.length
      (t.gradientRow x).1 = .ok ((done ++ [row t x]).map Prod.fst ++ List.replicate rest 0) := by
    rw [store_of_lt (by simp)]
    simp [List.replicate_succ, row]
  have hrows : storeRow (ValDers.filled done (rest + 1)).jacobian done.length (t.gradientRow x).2
      = .ok (ValDers.filled (done ++ [row t x]) rest).jacobian := by
    have h := storeRow_ofRows (done.map Prod.snd)
      (List.replicate rest (Vector.replicate params.length 0))
      (Vector.replicate params.length 0) (t.gradientRow x).2
    have hzero (j : Fin params.length) : (Vector.replicate params.length (0 : K)).get j = 0 := by
      simp [Vector.get]
    simpa [ValDers.filled, List.replicate_succ, row, hzero] using h
  rw [fill, Tape.gradientRow_of]
  simp only [ok_bind, hrows]
  simp only [ValDers.filled, hvals]
  rfl

theorem System.foldlM_fill_of (ts : List (Postfix.Tape params)) (x : Vec K params.length)
    (done : List (K × Vec K params.length)) :
    ((ts.map Tape.of).zipIdx done.length).foldlM (fill x.toList) (.filled done ts.length)
      = .ok (.filled (done ++ ts.map fun t => row t x) 0) := by
  induction ts generalizing done with
  | nil => simp [pure, Except.pure]
  | cons t ts ih =>
    rw [List.map_cons, List.zipIdx_cons, List.foldlM_cons, List.length_cons, fill_of]
    simpa [ok_bind] using ih (done ++ [row t x])

end

namespace System

/-- At a point with a coordinate for each parameter the residuals and derivatives are computed
without a fault. -/
theorem valDers_of (s : Constraints) (x : Vec K s.params.length) :
    (of s).valDers x.toList = .ok (.of (s.problem.evaluate x)) := by
  have hfill := foldlM_fill_of s.tapes x []
  rw [List.nil_append, ← ValDers.of_ofRows] at hfill
  rw [valDers, of, List.length_map, ValDers.zeros_eq]
  refine (congrArg (fun r => r >>= fun v => ValDers.new v.vals v.jacobian) hfill).trans ?_
  show ValDers.new (ValDers.of _).vals (ValDers.of _).jacobian = _
  rw [ValDers.of_ofRows, ValDers.new_filled, ← ValDers.of_ofRows]
  rfl

theorem residuals_of (s : Constraints) (x : Vec K s.params.length) :
    (of s).residuals x.toList = .ok (s.problem.residuals x) := by
  have hvalues : ((of s).tapes.mapM fun t => t.run values x.toList)
      = .ok (s.tapes.map fun t => t.value x) := by
    rw [of, List.mapM_map]
    simp only [Function.comp_def, Tape.value_of]
    exact List.mapM_pure
  have hlength : (of s : System K).tapes.length = (s.tapes.map fun t => t.value x).length := by
    simp [of]
  rw [residuals, hvalues, hlength]
  show takeExactly _ _ = _
  rw [takeExactly, if_pos (Nat.le_refl _), List.take_length]
  rfl

theorem valDers_of_wrongLength (s : Constraints) (nonempty : s.tapes ≠ []) {x : List K}
    (h : x.length ≠ s.params.length) :
    (of s).valDers x = .error (.wrongLength s.params.length x.length) := by
  obtain ⟨t, ts, hts⟩ := List.exists_cons_of_ne_nil nonempty
  have hfirst (v : ValDers K) : fill x v (Tape.of t, 0)
      = .error (.wrongLength s.params.length x.length) := by
    rw [fill, Tape.gradientRow, Tape.run_of_wrongLength duals (Tape.of t) h]
    rfl
  rw [valDers, of, hts, List.map_cons, List.zipIdx_cons, List.foldlM_cons, hfirst]
  rfl

theorem residuals_of_wrongLength (s : Constraints) (nonempty : s.tapes ≠ []) {x : List K}
    (h : x.length ≠ s.params.length) :
    (of s).residuals x = .error (.wrongLength s.params.length x.length) := by
  obtain ⟨t, ts, hts⟩ := List.exists_cons_of_ne_nil nonempty
  rw [residuals, of, hts, List.map_cons, List.mapM_cons,
    Tape.run_of_wrongLength values (Tape.of t) h]
  rfl

end System

end Checked

end LeastSquares
