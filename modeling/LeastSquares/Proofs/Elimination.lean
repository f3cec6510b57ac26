/-
LeastSquares.Proofs.Elimination — elimination with entries that are no numbers.

What is no number stays in a matrix when it is eliminated: a block of such entries that reaches to
the last row and the last column is never left (`Factors.Tainted.step`). The last unknown is the last
right-hand side divided by the last diagonal entry, and no later substitution changes it. So if the
last diagonal entry is no number, there is no solution or one that contains none
(`Factors.Tainted.isNaN_solution`).

For a single unknown the solution is one quotient (`Mat.solve?_one`).
-/
import LeastSquares.Linear.Elimination
import LeastSquares.Proofs.Norms

namespace LeastSquares

open Double

theorem Mat.entry_swap {α : Type} {n : Nat} (a : Mat α n n) (i p r c : Fin n) :
    Mat.entry (Vector.swap a i p i.isLt p.isLt) r c
      = if r = i then a.entry p c else if r = p then a.entry i c else a.entry r c := by
  have get (v : Vector (Vector α n) n) (j : Fin n) : v.get j = v[j.val] := rfl
  rw [entry, entry, entry, entry, get, get, get, get, Vector.getElem_swap]
  simp only [Fin.ext_iff]
  split_ifs <;> rfl

namespace Factors

/-! ## Pivots -/

section Pivot

variable {K : Type} [Scalar K] {n : Nat}

theorem le_pivotRow (a : Mat K n n) (i : Fin n) : i ≤ pivotRow a i := by
  refine List.foldlRecOn _ _ le_rfl fun best hbest r _ => ?_
  split_ifs with hr
  · exact hr.1.le
  · exact hbest

/-- A row that is its own pivot stays in its place. -/
theorem rows_step {f : Factors K n} {i : Fin n} (hpivot : pivotRow f.rows i = i)
    (hne : (f.rows.entry i i == 0) = false) : (f.step i).rows = eliminate f.rows i := by
  have hswap : Vector.swap f.rows i i i.isLt i.isLt = f.rows := by
    refine Mat.ext_entry fun r c => ?_
    rw [Mat.entry_swap]
    split_ifs with hr
    · rw [hr]
    · rfl
  simp only [step, hpivot, hswap]
  rw [if_neg (by simp [hne])]

end Pivot

variable {n : Nat}

/-- A row without a competitor that is a number is the pivot. -/
theorem pivotRow_of_isNaN {a : Mat Float n n} {i : Fin n}
    (hnan : ∀ r, i < r → (a.entry r i).isNaN = true) : pivotRow a i = i := by
  refine List.foldlRecOn (motive := fun best => best = i) _ _ rfl fun best hbest r _ => ?_
  refine (if_neg fun hr => ?_).trans hbest
  exact not_lt_of_isNaN ((isNaN_abs _).trans (hnan r hr.1)) _ hr.2

/-! ## Blocks of entries that are no numbers -/

/-- No entry from row and column `k` on is a number. -/
def Tainted (k : Nat) (a : Mat Float n n) : Prop :=
  ∀ r c : Fin n, k ≤ r → k ≤ c → (a.entry r c).isNaN = true

variable {k : Nat}

theorem Tainted.eliminate {a : Mat Float n n} (h : Tainted k a) (i : Fin n) :
    Tainted k (eliminate a i) := by
  intro r c hr hc
  rw [Factors.eliminate, Mat.entry_ofFn]
  split_ifs with hrow hleft hcolumn
  · exact h r c hr hc
  · exact isNaN_mul (.inl (h r i hr (hcolumn ▸ hc)))
  · exact isNaN_add (.inl (h r c hr hc))
  · exact h r c hr hc

theorem Tainted.swap {a : Mat Float n n} (h : Tainted k a) {i p : Fin n} (hi : k ≤ i) (hp : k ≤ p) :
    Tainted k (a.swap i p i.isLt p.isLt) := by
  intro r c hr hc
  rw [Mat.entry_swap]
  split_ifs
  · exact h p c hp hc
  · exact h i c hi hc
  · exact h r c hr hc

/-- A step of the elimination within the block keeps it. -/
theorem Tainted.step {f : Factors Float n} (h : Tainted k f.rows) {i : Fin n} (hi : k ≤ i) :
    Tainted k (f.step i).rows := by
  have hpivot : k ≤ (pivotRow f.rows i : Nat) := hi.trans (le_pivotRow f.rows i)
  unfold Factors.step
  dsimp only
  split_ifs
  · exact h
  · exact (h.swap hi hpivot).eliminate i

/-- If no entry is a number, none is after the elimination. -/
theorem Tainted.ofMat {a : Mat Float n n} (h : Tainted 0 a) : Tainted 0 (ofMat a).rows :=
  List.foldlRecOn (motive := fun f : Factors Float n => Tainted 0 f.rows) _ _ h
    fun _ hf i _ => hf.step (Nat.zero_le i)

variable {m : Nat}

/-- If all numbers are on the diagonal, the first step leaves none below and right of its pivot. -/
theorem tainted_step_zero {f : Factors Float (m + 1)}
    (off : ∀ r c, r ≠ c → (f.rows.entry r c).isNaN = true)
    (pivot : (f.rows.entry 0 0 == 0) = false) : Tainted 1 (f.step 0).rows := by
  have hpivot : pivotRow f.rows 0 = 0 := pivotRow_of_isNaN fun r hr => off r 0 hr.ne'
  intro r c hr hc
  have hr : (0 : Fin (m + 1)) < r := hr
  have hc : (0 : Fin (m + 1)) < c := hc
  rw [rows_step hpivot pivot, Factors.eliminate, Mat.entry_ofFn, if_pos hr, if_neg hc.not_gt,
    if_neg hc.ne']
  exact isNaN_add (.inr (isNaN_mul (.inr (isNaN_mul (.inl (off r 0 hr.ne'))))))

theorem tainted_ofMat {a : Mat Float (m + 1) (m + 1)}
    (off : ∀ r c, r ≠ c → (a.entry r c).isNaN = true)
    (pivot : (a.entry 0 0 == 0) = false) : Tainted 1 (Factors.ofMat a).rows := by
  rw [Factors.ofMat, List.finRange_succ, List.foldl_cons, List.foldl_map]
  exact List.foldlRecOn (motive := fun f : Factors Float (m + 1) => Tainted 1 f.rows) _ _
    (tainted_step_zero off pivot) fun _ hf i _ => hf.step (by simp)

/-! ## The last unknown -/

/-- Substitution from the next to last unknown on leaves the last one alone. -/
theorem get_last_of_foldlM {f : Factors Float (m + 1)} {l : List (Fin (m + 1))}
    (hl : ∀ i ∈ l, i < Fin.last m) {b d : Vec Float (m + 1)}
    (hd : l.foldlM f.backwardStep b = some d) : d.get (Fin.last m) = b.get (Fin.last m) := by
  induction l generalizing b with
  | nil =>
    obtain rfl : b = d := Option.some.inj hd
    rfl
  | cons i l ih =>
    obtain ⟨hi, hl⟩ := List.forall_mem_cons.1 hl
    rw [List.foldlM_cons, Option.bind_eq_bind, Option.bind_eq_some_iff] at hd
    obtain ⟨c, hc, hd⟩ := hd
    rw [ih hl hd]
    unfold backwardStep at hc
    split_ifs at hc
    obtain rfl := Option.some.inj hc
    simp [hi.not_gt, hi.ne']

/-- If the last diagonal entry is no number, a solution contains one that is none. -/
theorem isNaN_of_backward? {f : Factors Float (m + 1)}
    (hlast : (f.rows.entry (Fin.last m) (Fin.last m)).isNaN = true) {b d : Vec Float (m + 1)}
    (hd : f.backward? b = some d) : (d.get (Fin.last m)).isNaN = true := by
  rw [backward?, List.finRange_succ_last, List.reverse_append, List.reverse_singleton,
    List.singleton_append, List.foldlM_cons, Option.bind_eq_bind, Option.bind_eq_some_iff] at hd
  obtain ⟨c, hc, hd⟩ := hd
  rw [get_last_of_foldlM (by simp [Fin.castSucc_lt_last]) hd]
  unfold backwardStep at hc
  split_ifs at hc
  obtain rfl := Option.some.inj hc
  simpa using isNaN_div (.inr hlast)

end Factors

/-! ## Systems of equations -/

/-- A system whose factors have a block of entries that are no numbers has no solution, or one with
an entry that is no number. -/
theorem Mat.isNaN_solution {m k : Nat} {a : Mat Float (m + 1) (m + 1)}
    (h : Factors.Tainted k (Factors.ofMat a).rows) (hk : k ≤ m) {b d : Vec Float (m + 1)}
    (hd : a.solve? b = some d) : d.toList.any Float.isNaN = true := by
  have hlast : (d.get (Fin.last m)).isNaN = true :=
    Factors.isNaN_of_backward? (h _ _ hk hk) hd
  rw [← Bool.not_eq_false, List.any_eq_false]
  exact fun hall => Vec.forall_mem_toList.1 hall _ hlast

/-- The solution of one equation in one unknown. -/
theorem Mat.solve?_one {K : Type} [Scalar K] (a : Mat K 1 1) (b : Vec K 1) : a.solve? b
    = if a.entry 0 0 == 0 then none else some #v[b.get 0 / a.entry 0 0] := by
  have hall : List.finRange 1 = [0] := rfl
  have hrows : (Factors.ofMat a).rows = a := by
    rw [Factors.ofMat, hall, List.foldl_cons, List.foldl_nil]
    cases hne : a.entry 0 0 == 0 with
    | true => simp [Factors.step, Subsingleton.elim (Factors.pivotRow a 0) 0, hne]
    | false =>
      rw [Factors.rows_step (Subsingleton.elim _ _) hne]
      refine Mat.ext_entry fun r c => ?_
      rw [Factors.eliminate, Mat.entry_ofFn, if_neg (by omega)]
  have hforward (f : Factors K 1) : f.forward b = b := by
    refine Vec.ext_get fun r => ?_
    rw [Factors.forward, hall, List.foldl_cons, List.foldl_nil, Vec.get_ofFn, if_neg (by omega)]
  have horder : (Vector.ofFn fun i => b.get ((Factors.ofMat a).order.get i)) = b :=
    Vec.ext_get fun r => by rw [Vec.get_ofFn, Subsingleton.elim (Vector.get _ r) r]
  rw [Mat.solve?, Factors.solve?, horder, hforward, Factors.backward?, hall]
  show (Factors.backwardStep _ b 0).bind some = _
  rw [Option.bind_fun_some, Factors.backwardStep, hrows]
  split_ifs
  · rfl
  · refine congrArg some (Vec.ext_get fun r => ?_)
    obtain rfl : r = 0 := Subsingleton.elim _ _
    simp

end LeastSquares
