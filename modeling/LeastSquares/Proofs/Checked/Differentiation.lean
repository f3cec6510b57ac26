/-
LeastSquares.Proofs.Checked.Differentiation — difference quotients on plain data.

One point is varied in place: a coordinate is overwritten twice and then restored, so the next
coordinate starts from the same point. The residuals of both evaluations are subtracted, and the
quotients are written into a column that has room for as many residuals as there are at the point
itself. That they fit needs a problem with the same number of residuals everywhere.
-/
import LeastSquares.Problem.Differentiation
import LeastSquares.Proofs.Checked.Linear

namespace LeastSquares.Checked

variable {K : Type} {m n : Nat}

/-! ## Overwriting one coordinate -/

theorem store_toList (x : Vec K n) (j : Fin n) (a : K) :
    store x.toList j a = .ok (x.set j a j.isLt).toList := by
  rw [store_of_lt (by simp)]
  simp [Vector.set, Vector.toList]

theorem set_get (x : Vec K n) (j : Fin n) : x.set j (x.get j) j.isLt = x :=
  Vector.set_getElem_self j.isLt

variable [Scalar K]

/-- The matrix with other entries in column `j`, one for each row. -/
def storeColumn (a : SizedMat K) (j : Nat) (column : List K) : Except Fault (SizedMat K) :=
  if j < a.cols then
    if h : column.length = a.rows then
      .ok ⟨a.rows, a.cols, Mat.ofFn fun i k =>
        if k = j then column.get (i.cast h.symm) else a.entries.entry i k⟩
    else .error .shapeMismatch
  else .error (.outOfRange j a.cols)

/-- Varies coordinate `j` of the point `x` and fills column `j`. The point is given a second time
to be overwritten. -/
def differentiateIn (q : Problem K) (x : List K) (s : SizedMat K × List K) (j : Nat) :
    Except Fault (SizedMat K × List K) := do
  let (jacobian, probe) := s
  let here ← fetch x j
  let h := differenceStep here
  let probe ← store probe j (here + h)
  let forward ← q.valDers probe
  let probe ← store probe j (here - h)
  let backward ← q.valDers probe
  let probe ← store probe j here
  let difference ← Sized.subVec forward.vals backward.vals
  let jacobian ← storeColumn jacobian j (difference.map fun d => d / (2.0 * h))
  pure (jacobian, probe)

/-- An approximation of the Jacobian at `x`. -/
def numericJacobian (q : Problem K) (x : List K) : Except Fault (SizedMat K) := do
  let here ← q.valDers x
  let zeros := (ValDers.zeros here.vals.length x.length).jacobian
  let (jacobian, _) ← (List.range x.length).foldlM (differentiateIn q x) (zeros, x)
  pure jacobian

/-! ## No approximation faults -/

omit [Scalar K] in
/-- A column with an entry for each row fits into the matrix. -/
theorem storeColumn_ofFn (f : Fin m → Fin n → K) (k : Fin n) (v : Vec K m) :
    storeColumn ⟨m, n, Mat.ofFn f⟩ k v.toList
      = .ok ⟨m, n, Mat.ofFn fun i j => if j = k then v.get i else f i j⟩ := by
  refine ((if_pos k.isLt).trans (dif_pos v.length_toList)).trans ?_
  refine congrArg (fun f : Fin m → Fin n → K => Except.ok (SizedMat.mk m n (Mat.ofFn f))) ?_
  funext i j
  simp [Fin.ext_iff, Vector.get]

omit [Scalar K] in
theorem ofColumns_eq {columns : List (Vec K m)} (h : columns.length = n) :
    SizedMat.ofColumns columns
      = ⟨m, n, Mat.ofFn fun i j => (columns.get (j.cast h.symm)).get i⟩ := by
  subst h
  rfl

/-- Column `j` of the approximation with types. -/
def columnAt (p : LeastSquares.Problem K n) (x : Vec K n) (j : Fin n) :
    Except Fault (Vec K (p.evaluate x).count) :=
  differenceColumn (p.evaluate x).count (differenceStep (x.get j))
    (p.evaluate (x.set j (x.get j + differenceStep (x.get j)) j.isLt))
    (p.evaluate (x.set j (x.get j - differenceStep (x.get j)) j.isLt))

theorem numericJacobian_run (p : LeastSquares.Problem K n) (x : Vec K n) :
    (LeastSquares.numericJacobian (M := Id) p.evaluate x).run
      = ((List.finRange n).mapM (columnAt p x)).map SizedMat.ofColumns := by
  simp only [LeastSquares.numericJacobian, bind_pure_comp, Id.run_bind, Id.run_map,
    List.idRun_mapM, List.mapM_map, CompTriple.comp_eq]
  rfl

section

variable {p : LeastSquares.Problem K n} (steady : ∀ y, (p.evaluate y).count = m)

/-- The difference quotients in direction `j` of a problem with `m` residuals everywhere. -/
def quotients (x : Vec K n) (j : Fin n) : Vec K m :=
  let h := differenceStep (x.get j)
  let forward := (p.evaluate (x.set j (x.get j + h) j.isLt)).residuals.cast (steady _)
  let backward := (p.evaluate (x.set j (x.get j - h) j.isLt)).residuals.cast (steady _)
  Vector.ofFn fun i => centralQuotient h (forward.get i) (backward.get i)

/-- The Jacobian when the columns before `k` are filled. -/
def filledColumns (x : Vec K n) (k : Nat) : SizedMat K :=
  ⟨m, n, Mat.ofFn fun i j => if j < k then (quotients steady x j).get i else 0⟩

omit [Scalar K] in
/-- One more column is filled. -/
theorem filled_succ (f : Fin n → K) (zero : K) (k j : Fin n) :
    (if j = k then f k else if j.val < k then f j else zero)
      = if j.val < k + 1 then f j else zero := by
  by_cases hjk : j = k
  · rw [if_pos hjk, if_pos (by omega), hjk]
  · have hlt : j.val < k.val + 1 ↔ j.val < k.val := by
      have := Fin.val_ne_of_ne hjk
      omega
    rw [if_neg hjk]
    simp only [hlt]

theorem storeColumn_filledColumns (x : Vec K n) (k : Fin n) :
    storeColumn (filledColumns steady x k) k (quotients steady x k).toList
      = .ok (filledColumns steady x (k + 1)) := by
  refine (storeColumn_ofFn _ k _).trans ?_
  refine congrArg (fun f : Fin m → Fin n → K => Except.ok (SizedMat.mk m n (Mat.ofFn f))) ?_
  funext i j
  exact filled_succ (fun j => (quotients steady x j).get i) 0 k j

theorem map_sub_toList (h : K) (u v : Vec K m) :
    ((Vec.sub u v).toList.map fun d => d / (2.0 * h))
      = (Vector.ofFn fun i => centralQuotient h (u.get i) (v.get i)).toList := by
  refine List.ext_getElem (by simp) fun i _ _ => ?_
  simp [Vec.sub, centralQuotient]

/-- Residuals of the same number can be subtracted. -/
theorem subVec_of {e₁ e₂ : Evaluation K n} (h₁ : e₁.count = m) (h₂ : e₂.count = m) :
    Sized.subVec (ValDers.of e₁).vals (ValDers.of e₂).vals
      = .ok (Vec.sub (e₁.residuals.cast h₁) (e₂.residuals.cast h₂)).toList := by
  rw [← Sized.subVec_toList, Vector.toList_cast, Vector.toList_cast]
  rfl

theorem differentiateIn_of {q : Problem K} (h : q.Refines p) (x : Vec K n) (k : Fin n) :
    differentiateIn q x.toList (filledColumns steady x k, x.toList) k
      = .ok (filledColumns steady x (k + 1), x.toList) := by
  have hstore := storeColumn_filledColumns steady x k
  simp only [quotients] at hstore
  simp only [differentiateIn, fetch_toList, store_toList, Vector.set_set, set_get, h.valDers,
    ok_bind]
  rw [subVec_of (steady _) (steady _)]
  simp only [map_sub_toList, hstore, ok_bind]
  rfl

theorem foldlM_differentiateIn_of {q : Problem K} (h : q.Refines p) (x : Vec K n) {k : Nat}
    (hk : k ≤ n) :
    (List.range k).foldlM (differentiateIn q x.toList) (filledColumns steady x 0, x.toList)
      = .ok (filledColumns steady x k, x.toList) := by
  induction k with
  | zero => rfl
  | succ k ih =>
    rw [List.range_succ, List.foldlM_append, ih (Nat.le_of_succ_le hk)]
    simp only [List.foldlM_cons, List.foldlM_nil, ok_bind]
    rw [differentiateIn_of steady h x ⟨k, hk⟩]
    rfl

theorem ofColumns_quotients (x : Vec K n) :
    SizedMat.ofColumns ((List.finRange n).map (quotients steady x)) = filledColumns steady x n := by
  have hlength : ((List.finRange n).map (quotients steady x)).length = n := by simp
  rw [ofColumns_eq hlength, filledColumns]
  simp

/-- On a problem with the same number of residuals everywhere all columns fit. -/
theorem numericJacobian_run_of_steady (x : Vec K n) :
    (LeastSquares.numericJacobian (M := Id) p.evaluate x).run
      = .ok (filledColumns steady x n) := by
  obtain rfl := steady x
  have hcolumn (j : Fin n) : columnAt p x j = .ok (quotients steady x j) :=
    dif_pos ⟨steady _, steady _⟩
  have hcolumns : (List.finRange n).mapM (columnAt p x)
      = .ok ((List.finRange n).map (quotients steady x)) := by
    rw [funext hcolumn]
    exact List.mapM_pure
  rw [numericJacobian_run, hcolumns, ← ofColumns_quotients]
  rfl

/-- On such a problem no approximation faults. -/
theorem numericJacobian_of {q : Problem K} (h : q.Refines p) (x : Vec K n) :
    numericJacobian q x.toList = .ok (filledColumns steady x n)
      ∧ (LeastSquares.numericJacobian (M := Id) p.evaluate x).run
        = .ok (filledColumns steady x n) := by
  refine ⟨?_, numericJacobian_run_of_steady steady x⟩
  obtain rfl := steady x
  have hzeros : (ValDers.zeros (ValDers.of (p.evaluate x)).vals.length n).jacobian
      = filledColumns steady x 0 := by
    rw [show (ValDers.of (p.evaluate x)).vals.length = (p.evaluate x).count from
      Vector.length_toList]
    refine congrArg (SizedMat.mk (p.evaluate x).count n) (Mat.ext_entry fun i j => ?_)
    simp [Mat.entry, Vector.get, Mat.ofFn]
  rw [numericJacobian, h.valDers]
  simp only [ok_bind, Vector.length_toList, hzeros,
    foldlM_differentiateIn_of steady h x (Nat.le_refl n)]
  rfl

end

end LeastSquares.Checked
