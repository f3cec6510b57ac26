/-
LeastSquares.Proofs.Exact.Elimination — elimination over an ordered field.

While a matrix is eliminated, what has been stored of it is two matrices in one: strictly below
the diagonal and in the columns treated so far the multiples (`Factors.lower`), elsewhere what is
left of the rows (`Factors.upper`). Their product, with ones on the diagonal of the first, is always
the matrix itself with its rows in the order that they have been brought into
(`Factors.Factorizes.step`). A column without a usable pivot is zero from the diagonal on, since
the pivot is the largest of its entries, so it may be left alone.

The two substitutions solve for one factor each, the second one as long as no diagonal entry is
zero. So elimination finds a solution exactly if the determinant is not zero, and then it is the
only one (`Mat.solve?_eq_some_iff`, `Mat.solve?_eq_none_iff`).
-/
import Mathlib
import LeastSquares.Proofs.Elimination
import LeastSquares.Proofs.Exact.Linear

namespace LeastSquares

/-! ## Loops over all indices

Elimination is three loops over the indices, one of them backwards and with a way to fail. What each
of them has achieved after some rounds is a statement about the number of the rounds, so the
induction is on that number and not on the list of the indices. -/

/-- What holds before a loop over all indices, and is kept by each round, holds after it. -/
theorem foldl_finRange_induction {n : Nat} {β : Type} {motive : Nat → β → Prop}
    {f : β → Fin n → β} {b : β} (zero : motive 0 b)
    (succ : ∀ (i : Fin n) (b : β), motive i b → motive (i + 1) (f b i)) :
    motive n ((List.finRange n).foldl f b) := by
  have upTo (k : Nat) (hk : k ≤ n) : motive k (((List.finRange n).take k).foldl f b) := by
    induction k with
    | zero => exact zero
    | succ k ih =>
      rw [List.take_succ_eq_append_getElem (by simpa using hk), List.foldl_append,
        List.getElem_finRange]
      exact succ ⟨k, hk⟩ _ (ih (Nat.le_of_succ_le hk))
  have hall := upTo n le_rfl
  rwa [List.take_of_length_le (by simp)] at hall

/-- The same for a loop that goes from the last index to the first, and fails in no round. -/
theorem foldlM_reverse_finRange_induction {n : Nat} {β : Type} {motive : Nat → β → Prop}
    {f : β → Fin n → Option β} {b : β} (last : motive n b)
    (pred : ∀ (i : Fin n) (b : β), motive (i + 1) b → ∃ c, f b i = some c ∧ motive i c) :
    ∃ c, (List.finRange n).reverse.foldlM f b = some c ∧ motive 0 c := by
  have downTo (k : Nat) (hk : k ≤ n) :
      ∃ c, ((List.finRange n).drop k).reverse.foldlM f b = some c ∧ motive k c := by
    induction hk using Nat.decreasingInduction with
    | self => exact ⟨b, by rw [List.drop_of_length_le (by simp)]; rfl, last⟩
    | of_succ k hk ih =>
      obtain ⟨c, hc, hmotive⟩ := ih
      obtain ⟨d, hd, hmotive⟩ := pred ⟨k, hk⟩ c hmotive
      refine ⟨d, ?_, hmotive⟩
      rw [List.drop_eq_getElem_cons (by simpa using hk), List.reverse_cons, List.foldlM_append, hc,
        List.getElem_finRange]
      simpa using hd
  exact downTo 0 (Nat.zero_le n)

namespace Factors

/-! ## The factors of a matrix

The rows of `f` hold both factors, and how far the first one reaches is a matter of the column that
elimination has come to. So `lower` and `upper` take this column, and their product is the
invariant. A round brings it from one column to the next, in two ways: a column may be left as it
is, or two rows change places and the column is eliminated. -/

section Field

variable {K : Type} [Field K] {n : Nat}

/-- The multiples in the columns before `k`. -/
def lower (a : Mat K n n) (k : Nat) : Matrix (Fin n) (Fin n) K :=
  Matrix.of fun r c => if c < r ∧ c.val < k then a.entry r c else 0

/-- What is left of the rows after the columns before `k` have been treated. -/
def upper (a : Mat K n n) (k : Nat) : Matrix (Fin n) (Fin n) K :=
  Matrix.of fun r c => if c < r ∧ c.val < k then 0 else a.entry r c

/-- After the columns before `k` have been treated, `f` holds the factors of `a`. -/
structure Factorizes (a : Mat K n n) (k : Nat) (f : Factors K n) : Prop where
  product : (1 + lower f.rows k) * upper f.rows k = a.toMatrix.submatrix f.order.get id
  bijective : Function.Bijective f.order.get

/-- Nothing has been stored at the start. -/
theorem lower_zero (a : Mat K n n) : lower a 0 = 0 := by
  ext r c
  simp [lower]

/-- Each entry belongs to one of the two factors. -/
theorem upper_eq_sub (a : Mat K n n) (k : Nat) : upper a k = a.toMatrix - lower a k := by
  ext r c
  simp only [upper, lower, Matrix.of_apply, Matrix.sub_apply, Mat.toMatrix_apply]
  split_ifs <;> simp

/-- At the start the first factor is the identity, and the second one is the matrix. -/
theorem Factorizes.initial (a : Mat K n n) : Factorizes a 0 ⟨a, Vector.ofFn id⟩ := by
  have horder : (Vector.ofFn id : Vector (Fin n) n).get = id := funext (Vec.get_ofFn id)
  constructor
  · rw [upper_eq_sub, lower_zero, horder, add_zero, sub_zero, one_mul, Matrix.submatrix_id_id]
  · rw [horder]
    exact Function.bijective_id

variable {a : Mat K n n} {f : Factors K n} {i p : Fin n}

/-- A column that is zero below the diagonal counts as treated. -/
theorem Factorizes.skip (h : Factorizes a i f) (zero : ∀ r, i < r → f.rows.entry r i = 0) :
    Factorizes a (i + 1) f := by
  have hplace (r c : Fin n) : c < r ∧ c.val < i + 1 ↔ c < r ∧ c < i ∨ c < r ∧ c = i := by
    rw [← and_or_left, Nat.lt_succ_iff_lt_or_eq, Fin.ext_iff]
    rfl
  have hlower : lower f.rows (i + 1) = lower f.rows i := by
    ext r c
    simp only [lower, Matrix.of_apply, hplace]
    split_ifs with hnew hold hold
    · rfl
    · obtain ⟨hr, rfl⟩ := hnew.resolve_left hold
      exact zero r hr
    · exact absurd (.inl hold) hnew
    · rfl
  have hupper : upper f.rows (i + 1) = upper f.rows i := by
    rw [upper_eq_sub, upper_eq_sub, hlower]
  exact ⟨hlower ▸ hupper ▸ h.product, h.bijective⟩

/-- To swap two entries is to swap their indices. -/
theorem get_swap {α : Type} (v : Vector α n) (i p : Fin n) :
    (v.swap i p i.isLt p.isLt).get = v.get ∘ Equiv.swap i p := by
  have get (v : Vector α n) (j : Fin n) : v.get j = v[j.val] := rfl
  funext r
  rw [Function.comp_apply, Equiv.swap_apply_def, get, Vector.getElem_swap]
  simp only [Fin.ext_iff]
  split_ifs <;> rfl

/-- Rows from the diagonal on may change places. -/
theorem Factorizes.swap (h : Factorizes a i f) (hp : i ≤ p) :
    Factorizes a i ⟨f.rows.swap i p i.isLt p.isLt, f.order.swap i p i.isLt p.isLt⟩ := by
  have hfixed {c : Fin n} (hc : c < i) : Equiv.swap i p c = c :=
    Equiv.swap_apply_of_ne_of_ne hc.ne (hc.trans_le hp).ne
  have hstays {c : Fin n} (hc : i ≤ c) : i ≤ Equiv.swap i p c := by
    rw [Equiv.swap_apply_def]
    split_ifs
    exacts [hp, le_rfl, hc]
  -- the rows move from the diagonal on, where no multiples are stored yet
  have hplace (r c : Fin n) : c < Equiv.swap i p r ∧ c < i ↔ c < r ∧ c < i := by
    refine and_congr_left fun hc => ?_
    rcases lt_or_ge r i with hr | hr
    · rw [hfixed hr]
    · exact iff_of_true (hc.trans_le (hstays hr)) (hc.trans_le hr)
  have hentry (r c : Fin n) : Mat.entry (Vector.swap f.rows i p i.isLt p.isLt) r c
      = f.rows.entry (Equiv.swap i p r) c := by
    rw [Mat.entry, get_swap]
    rfl
  have hupper : upper (f.rows.swap i p i.isLt p.isLt) i
      = (upper f.rows i).submatrix (Equiv.swap i p) id := by
    ext r c
    simp only [upper, Matrix.submatrix_apply, Matrix.of_apply, hentry, id]
    exact if_congr (hplace r c).symm rfl rfl
  have hlower : lower (f.rows.swap i p i.isLt p.isLt) i
      = (lower f.rows i).submatrix (Equiv.swap i p) (Equiv.swap i p) := by
    ext r c
    simp only [lower, Matrix.submatrix_apply, Matrix.of_apply, hentry]
    rcases lt_or_ge c i with hc | hc
    · rw [hfixed hc]
      exact if_congr (hplace r c).symm rfl rfl
    · rw [if_neg fun hlt => hc.not_gt hlt.2, if_neg fun hlt => (hstays hc).not_gt hlt.2]
  constructor
  · dsimp only
    rw [hlower, hupper, get_swap]
    calc (1 + (lower f.rows i).submatrix (Equiv.swap i p) (Equiv.swap i p))
          * (upper f.rows i).submatrix (Equiv.swap i p) id
        = (1 + lower f.rows i).submatrix (Equiv.swap i p) (Equiv.swap i p)
          * (upper f.rows i).submatrix (Equiv.swap i p) id := by
          -- the ones on the diagonal stay there
          congr 1
          ext r c
          simp [Matrix.one_apply]
      _ = ((1 + lower f.rows i) * upper f.rows i).submatrix (Equiv.swap i p) id :=
          Matrix.submatrix_mul_equiv ..
      _ = a.toMatrix.submatrix (f.order.get ∘ Equiv.swap i p) id := by
          rw [h.product]
          rfl
  · dsimp only
    rw [get_swap]
    exact h.bijective.comp (Equiv.swap i p).bijective

/-- The multiples of row `i` that are subtracted from the rows below it. -/
def multiples (a : Mat K n n) (i : Fin n) : Matrix (Fin n) (Fin n) K :=
  Matrix.of fun r c => if i < r ∧ c = i then a.entry r i * (1 / a.entry i i) else 0

/-- To multiply by them is to take multiples of one row. -/
theorem multiples_mul (a : Mat K n n) (i : Fin n) (b : Matrix (Fin n) (Fin n) K) (r c : Fin n) :
    (multiples a i * b) r c = if i < r then a.entry r i * (1 / a.entry i i) * b i c else 0 := by
  rw [Matrix.mul_apply, Finset.sum_eq_single i]
  · simp [multiples]
  · intro j _ hj
    simp [multiples, hj]
  · simp

/-! Two of the products in the next step vanish: the row whose multiples are taken is not changed
itself, and there are no multiples of it in earlier columns. -/

theorem multiples_mul_self (a : Mat K n n) (i : Fin n) : multiples a i * multiples a i = 0 := by
  ext r c
  rw [multiples_mul]
  simp [multiples]

theorem lower_mul_multiples (a : Mat K n n) (i : Fin n) : lower a i * multiples a i = 0 := by
  ext r c
  rw [Matrix.mul_apply]
  refine Finset.sum_eq_zero fun j _ => ?_
  rcases lt_or_ge i j with hj | hj
  · simp [lower, hj.le]
  · simp [multiples, hj.not_gt]

/-! ### Products with a vector

The substitutions overwrite a vector in place, like elimination the matrix. Before a round, part of
it is already what the loop is to find, and part of it is what is left of the right-hand side. -/

/-- The multiples of one more column in a product. -/
theorem lower_succ_mulVec (a : Mat K n n) (i r : Fin n) (y : Fin n → K) :
    (lower a (i + 1)).mulVec y r
      = (lower a i).mulVec y r + if i < r then a.entry r i * y i else 0 := by
  have hterm (c : Fin n) : lower a (i + 1) r c * y c
      = lower a i r c * y c + if c = i then if i < r then a.entry r i * y i else 0 else 0 := by
    simp only [lower, Matrix.of_apply]
    rcases lt_trichotomy c i with hc | rfl | hc
    · simp [hc, hc.ne, Nat.lt_succ_of_lt hc]
    · simp
    · have hc' : ¬ c.val < i + 1 := by omega
      simp [hc', hc.not_gt, hc.ne']
  simp only [Matrix.mulVec, dotProduct, hterm, Finset.sum_add_distrib, Finset.sum_ite_eq',
    Finset.mem_univ, if_true]

/-- What the factor above the diagonal makes of `x`, if only the unknowns from `k` on have been
found and the entries before are those of the right-hand side. -/
def substituted (a : Mat K n n) (k : Nat) (x : Fin n → K) (r : Fin n) : K :=
  (if r.val < k then x r else a.entry r r * x r)
    + ∑ c, if r < c ∧ k ≤ c.val then a.entry r c * x c else 0

/-- Before the first round nothing has been found. -/
theorem substituted_all (a : Mat K n n) (x : Fin n → K) : substituted a n x = x := by
  funext r
  have hterm (c : Fin n) : ¬ n ≤ c.val := by omega
  simp [substituted, hterm]

/-- After the last round all has been found, and the whole factor is multiplied. -/
theorem substituted_zero (a : Mat K n n) (x : Fin n → K) :
    substituted a 0 x = (upper a n).mulVec x := by
  funext r
  have hterm (c : Fin n) : upper a n r c * x c
      = (if c = r then a.entry r r * x r else 0) + if r < c then a.entry r c * x c else 0 := by
    simp only [upper, Matrix.of_apply, c.isLt, and_true]
    rcases lt_trichotomy c r with hc | rfl | hc
    · simp [hc, hc.ne, hc.not_gt]
    · simp
    · simp [hc, hc.ne', hc.not_gt]
  simp only [substituted, Matrix.mulVec, dotProduct, hterm, Finset.sum_add_distrib,
    Finset.sum_ite_eq', Finset.mem_univ, if_true]
  simp

/-- One more unknown is found if it solves its row and its multiples are taken off the rows
above. -/
theorem substituted_succ {a : Mat K n n} {i : Fin n} {x z : Fin n → K}
    (solved : a.entry i i * z i = x i) (above : ∀ r < i, z r = x r - a.entry r i * z i)
    (below : ∀ r, i < r → z r = x r) : substituted a i z = substituted a (i + 1) x := by
  funext r
  have hterm (c : Fin n) : (if r < c ∧ i.val ≤ c then a.entry r c * z c else 0)
      = (if c = i then if r < i then a.entry r i * z i else 0 else 0)
        + if r < c ∧ i.val + 1 ≤ c then a.entry r c * x c else 0 := by
    rcases lt_trichotomy c i with hc | rfl | hc
    · have hc' : ¬ i.val ≤ c := by omega
      have hc'' : ¬ i.val + 1 ≤ c := by omega
      simp [hc', hc'', hc.ne]
    · simp
    · have hc' : i.val ≤ c := by omega
      have hc'' : i.val + 1 ≤ c := by omega
      simp [hc', hc'', hc.ne', below c hc]
  simp only [substituted, hterm, Finset.sum_add_distrib, Finset.sum_ite_eq', Finset.mem_univ,
    if_true]
  rcases lt_trichotomy r i with hr | rfl | hr
  · have hr' : r.val < i + 1 := by omega
    simp only [Fin.val_fin_lt.2 hr, hr', hr, if_true, above r hr]
    ring
  · simp [solved]
  · have hr' : ¬ r.val < i + 1 := by omega
    simp [hr', hr.not_gt, below r hr]

/-! ### Determinants

Both factors are triangular. The first one has ones on its diagonal, so the determinant is seen on
the diagonal of the second one. -/

theorem det_one_add_lower (a : Mat K n n) : (1 + lower a n).det = 1 := by
  rw [Matrix.det_of_isLowerTriangular]
  · simp [lower]
  · intro r c hrc
    have hrc : r < c := hrc
    simp [lower, hrc.ne, hrc.not_gt]

theorem det_upper (a : Mat K n n) : (upper a n).det = ∏ i, a.entry i i := by
  rw [Matrix.det_of_isUpperTriangular]
  · simp [upper]
  · intro r c hrc
    have hrc : c < r := hrc
    simp [upper, hrc]

/-- The determinant is the product of the diagonal entries that elimination leaves, up to the
sign. -/
theorem Factorizes.det_eq_zero_iff {a : Mat K n n} {f : Factors K n} (h : Factorizes a n f) :
    a.toMatrix.det = 0 ↔ ∃ i, f.rows.entry i i = 0 := by
  have hdet : (Equiv.Perm.sign (Equiv.ofBijective _ h.bijective) : K) * a.toMatrix.det
      = ∏ i, f.rows.entry i i :=
    calc (Equiv.Perm.sign (Equiv.ofBijective _ h.bijective) : K) * a.toMatrix.det
        = (a.toMatrix.submatrix (Equiv.ofBijective _ h.bijective) id).det :=
          (Matrix.det_permute ..).symm
      _ = ((1 + lower f.rows n) * upper f.rows n).det := by
          rw [Equiv.coe_ofBijective, ← h.product]
      _ = ∏ i, f.rows.entry i i := by
          rw [Matrix.det_mul, det_one_add_lower, det_upper, one_mul]
  have hsign : (Equiv.Perm.sign (Equiv.ofBijective _ h.bijective) : K) ≠ 0 := by
    rcases Int.units_eq_one_or (Equiv.Perm.sign (Equiv.ofBijective _ h.bijective)) with hs | hs <;>
      simp [hs]
  rw [← mul_right_inj' hsign, mul_zero, hdet, Finset.prod_eq_zero_iff]
  simp

end Field

/-! ## Elimination -/

variable {K : Type} [Field K] [LinearOrder K] [ElementaryFunctions K] {n : Nat}

attribute [local instance] Scalar.ofField

/-! ### The pivot -/

/-- No entry from the diagonal on is larger in magnitude than the pivot. -/
theorem abs_le_abs_pivot (a : Mat K n n) (i r : Fin n) (hr : i ≤ r) :
    |a.entry r i| ≤ |a.entry (pivotRow a i) i| := by
  -- the rows above the diagonal are passed over, and the diagonal is the first candidate
  have scan : ∀ r : Fin n, i ≤ r → r.val < n ∨ r = i →
      |a.entry r i| ≤ |a.entry (pivotRow a i) i| := by
    unfold pivotRow
    refine foldl_finRange_induction (motive := fun k best => ∀ r, i ≤ r → r.val < k ∨ r = i →
      |a.entry r i| ≤ |a.entry best i|) ?_ ?_
    · rintro r - (hr | rfl)
      · exact absurd hr (Nat.not_lt_zero _)
      · exact le_rfl
    · intro s best ih r hir hr
      have hbefore (hrs : r ≠ s) : |a.entry r i| ≤ |a.entry best i| :=
        ih r hir (hr.imp_left fun hlt => by omega)
      split_ifs with larger
      · by_cases hrs : r = s
        · rw [hrs]
        · exact (hbefore hrs).trans larger.2.le
      · by_cases hrs : r = s
        · subst hrs
          rcases hir.eq_or_lt with rfl | hlt
          · exact ih _ le_rfl (.inr rfl)
          · exact not_lt.1 fun hmore => larger ⟨hlt, hmore⟩
        · exact hbefore hrs
  exact scan r hr (.inl r.isLt)

/-! ### One column -/

/-- The multiples are stored in the column that is eliminated. -/
theorem lower_eliminate (a : Mat K n n) (i : Fin n) :
    lower (eliminate a i) (i + 1) = lower a i + multiples a i := by
  ext r c
  simp only [lower, multiples, Matrix.of_apply, Matrix.add_apply, eliminate, Mat.entry_ofFn]
  rcases lt_trichotomy c i with hc | rfl | hc
  · simp [hc, hc.ne, Nat.lt_succ_of_lt hc]
  · by_cases hr : c < r <;> simp [hr]
  · have hc' : ¬ c.val < i + 1 := by omega
    simp [hc', hc.not_gt, hc.ne']

/-- They are subtracted from what is left of the rows, and make the column zero. -/
theorem upper_eliminate {a : Mat K n n} {i : Fin n} (pivot : a.entry i i ≠ 0) :
    upper (eliminate a i) (i + 1) = upper a i - multiples a i * upper a i := by
  ext r c
  rw [Matrix.sub_apply, multiples_mul]
  simp only [upper, Matrix.of_apply, eliminate, Mat.entry_ofFn]
  rcases lt_trichotomy c i with hc | rfl | hc
  · have hc' : c.val < i + 1 := by omega
    simp [hc, hc']
  · by_cases hr : c < r
    · simp [hr, pivot]
    · simp [hr]
  · have hc' : ¬ c.val < i + 1 := by omega
    by_cases hr : i < r
    · simp [hr, hc', hc.not_gt, hc.ne']
      ring
    · simp [hr, hc', hc.not_gt]

variable {a : Mat K n n} {f : Factors K n} {i : Fin n}

/-- Below a pivot that is not zero the column may be eliminated. -/
theorem Factorizes.eliminate (h : Factorizes a i f) (pivot : f.rows.entry i i ≠ 0) :
    Factorizes a (i + 1) ⟨Factors.eliminate f.rows i, f.order⟩ where
  product :=
    calc (1 + lower (Factors.eliminate f.rows i) (i + 1))
          * upper (Factors.eliminate f.rows i) (i + 1)
        = (1 + (lower f.rows i + multiples f.rows i))
          * (upper f.rows i - multiples f.rows i * upper f.rows i) := by
          rw [lower_eliminate, upper_eliminate pivot]
      _ = (1 + lower f.rows i) * upper f.rows i
          - (lower f.rows i * multiples f.rows i + multiples f.rows i * multiples f.rows i)
            * upper f.rows i := by noncomm_ring
      _ = (1 + lower f.rows i) * upper f.rows i := by
          rw [multiples_mul_self, lower_mul_multiples, add_zero, zero_mul, sub_zero]
      _ = a.toMatrix.submatrix f.order.get id := h.product
  bijective := h.bijective

/-- One round keeps the product. If the pivot is zero, so is the column below it. -/
theorem Factorizes.step [IsStrictOrderedRing K] (h : Factorizes a i f) :
    Factorizes a (i + 1) (f.step i) := by
  unfold Factors.step
  dsimp only
  split_ifs with hzero
  · rw [Exact.beq_zero_iff] at hzero
    refine h.skip fun r hr => ?_
    have hle := abs_le_abs_pivot f.rows i r hr.le
    rw [hzero, abs_zero] at hle
    exact abs_eq_zero.1 (le_antisymm hle (abs_nonneg _))
  · rw [Exact.beq_zero_iff] at hzero
    refine (h.swap (le_pivotRow f.rows i)).eliminate ?_
    rw [Mat.entry, get_swap, Function.comp_apply, Equiv.swap_apply_left]
    exact hzero

/-- Elimination factorizes every matrix, up to the order of its rows. -/
theorem factorizes_ofMat [IsStrictOrderedRing K] (a : Mat K n n) : Factorizes a n (ofMat a) :=
  foldl_finRange_induction (motive := Factorizes a) (.initial a) fun _ _ => .step

/-! ## Substitution -/

/-- The first substitution solves for the factor below the diagonal. -/
theorem forward_spec (f : Factors K n) (b : Vec K n) :
    (1 + lower f.rows n).mulVec (f.forward b).get = b.get := by
  unfold forward
  refine foldl_finRange_induction
    (motive := fun k (y : Vec K n) => (1 + lower f.rows k).mulVec y.get = b.get) ?_ fun i y ih => ?_
  · rw [lower_zero, add_zero, Matrix.one_mulVec]
  · -- the entries that the multiples of earlier columns belong to do not change any more
    have hkept (z : Vec K n) (hz : ∀ c < i, z.get c = y.get c) :
        (lower f.rows i).mulVec z.get = (lower f.rows i).mulVec y.get := by
      funext r
      rw [Matrix.mulVec, Matrix.mulVec, dotProduct, dotProduct]
      refine Finset.sum_congr rfl fun c _ => ?_
      rcases lt_or_ge c i with hc | hc
      · rw [hz c hc]
      · simp [lower, hc.not_gt]
    rw [← ih, Matrix.add_mulVec, Matrix.add_mulVec, Matrix.one_mulVec, Matrix.one_mulVec]
    funext r
    rw [Pi.add_apply, Pi.add_apply, lower_succ_mulVec, hkept _ fun c hc => by simp [hc.not_gt]]
    by_cases hr : i < r
    · simp [hr]
      ring
    · simp [hr]

/-- One round of the last substitution finds one more unknown. -/
theorem backwardStep_spec {f : Factors K n} {i : Fin n} (hi : f.rows.entry i i ≠ 0) (x : Vec K n) :
    ∃ z, f.backwardStep x i = some z
      ∧ substituted f.rows i z.get = substituted f.rows (i + 1) x.get := by
  have hne : ¬ (f.rows.entry i i == 0) = true := fun h => hi (Exact.beq_zero_iff.1 h)
  unfold backwardStep
  rw [if_neg hne]
  refine ⟨_, rfl, substituted_succ ?_ ?_ ?_⟩
  · simp [mul_div_cancel₀ _ hi]
  · intro r hr
    simp [hr]
    ring
  · intro r hr
    simp [hr.not_gt, hr.ne']

/-- The last substitution solves for the factor above the diagonal, if no diagonal entry is zero. -/
theorem backward?_spec {f : Factors K n} (diagonal : ∀ i, f.rows.entry i i ≠ 0) (y : Vec K n) :
    ∃ x, f.backward? y = some x ∧ (upper f.rows n).mulVec x.get = y.get := by
  obtain ⟨x, hx, hsolved⟩ := foldlM_reverse_finRange_induction
    (motive := fun k (x : Vec K n) => substituted f.rows k x.get = y.get) (f := f.backwardStep)
    (substituted_all _ _) fun i x hx => by
      obtain ⟨z, hz, hz'⟩ := backwardStep_spec (diagonal i) x
      exact ⟨z, hz, hz'.trans hx⟩
  exact ⟨x, hx, (substituted_zero f.rows x.get).symm.trans hsolved⟩

/-- A zero on the diagonal ends the last substitution. -/
theorem backward?_of_zero {f : Factors K n} {i : Fin n} (zero : f.rows.entry i i = 0)
    (y : Vec K n) : f.backward? y = none := by
  obtain ⟨before, after, hall⟩ := List.append_of_mem (List.mem_finRange i)
  have hstep (x : Vec K n) : f.backwardStep x i = none := if_pos (Exact.beq_zero_iff.2 zero)
  rw [backward?, hall, List.reverse_append, List.reverse_cons, List.append_assoc,
    List.foldlM_append]
  cases after.reverse.foldlM f.backwardStep y with
  | none => rfl
  | some x => simp [hstep]

/-- Together the substitutions solve the system, if no diagonal entry is zero. -/
theorem Factorizes.solve?_spec (h : Factorizes a n f) (diagonal : ∀ i, f.rows.entry i i ≠ 0)
    (b : Vec K n) : ∃ x, f.solve? b = some x ∧ a.toMatrix.mulVec x.get = b.get := by
  -- the right-hand side is brought into the order of the rows first
  let ordered : Vec K n := Vector.ofFn fun i => b.get (f.order.get i)
  obtain ⟨x, hx, hupper⟩ := backward?_spec diagonal (f.forward ordered)
  refine ⟨x, hx, funext fun j => ?_⟩
  obtain ⟨i, rfl⟩ := h.bijective.surjective j
  have hrows : (a.toMatrix.submatrix f.order.get id).mulVec x.get = ordered.get := by
    rw [← h.product, ← Matrix.mulVec_mulVec, hupper, forward_spec]
  exact (congrFun hrows i).trans (Vec.get_ofFn _ i)

end Factors

/-! ## Systems of equations -/

namespace Mat

variable {K : Type} [Field K] [LinearOrder K] [IsStrictOrderedRing K] [ElementaryFunctions K]
  {n : Nat} (a : Mat K n n) (b : Vec K n)

attribute [local instance] Scalar.ofField

/-- Elimination fails exactly on the matrices whose determinant is zero. -/
theorem solve?_eq_none_iff : a.solve? b = none ↔ a.toMatrix.det = 0 := by
  have hfactors := Factors.factorizes_ofMat a
  rw [hfactors.det_eq_zero_iff]
  constructor
  · intro hnone
    by_contra! hne
    obtain ⟨x, hx, -⟩ := hfactors.solve?_spec hne b
    have hsome : none = some x := hnone.symm.trans hx
    cases hsome
  · rintro ⟨i, hi⟩
    exact Factors.backward?_of_zero hi _

/-- Elimination finds the solution, if there is exactly one. -/
theorem solve?_eq_some_iff {x : Vec K n} :
    a.solve? b = some x ↔ a.toMatrix.det ≠ 0 ∧ a.toMatrix.mulVec x.get = b.get := by
  have hfactors := Factors.factorizes_ofMat a
  have hfound (hdet : a.toMatrix.det ≠ 0) :
      ∃ y, a.solve? b = some y ∧ a.toMatrix.mulVec y.get = b.get :=
    hfactors.solve?_spec (fun i hi => hdet (hfactors.det_eq_zero_iff.2 ⟨i, hi⟩)) b
  constructor
  · intro hx
    have hdet : a.toMatrix.det ≠ 0 := fun h => by simp [(a.solve?_eq_none_iff b).2 h] at hx
    obtain ⟨y, hy, hsolves⟩ := hfound hdet
    obtain rfl : x = y := Option.some.inj (hx.symm.trans hy)
    exact ⟨hdet, hsolves⟩
  · rintro ⟨hdet, hsolves⟩
    obtain ⟨y, hy, hsolves'⟩ := hfound hdet
    have hget : x.get = y.get := mulVec_injective hdet (hsolves.trans hsolves'.symm)
    rw [hy, Vec.ext_get (congrFun hget)]

/-- It is the only one. -/
theorem mulVec_eq_iff_of_solve? {a : Mat K n n} {b x : Vec K n} (hx : a.solve? b = some x)
    (y : Fin n → K) : a.toMatrix.mulVec y = b.get ↔ y = x.get := by
  obtain ⟨hdet, hsolves⟩ := (a.solve?_eq_some_iff b).1 hx
  constructor
  · intro hy
    exact mulVec_injective hdet (hy.trans hsolves.symm)
  · rintro rfl
    exact hsolves

end Mat

end LeastSquares
