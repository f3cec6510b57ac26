/-
LeastSquares.Proofs.Norms — sums and norms over entries that may be no numbers.

A sum of doubles is a number only if every term is one, in whatever order the terms are added
(`isNaN_of_laneSum`, `isNaN_of_chainSum`). So a sum of squares tells exactly whether all entries are
numbers (`Vec.isNaN_normSq_iff`), and the maximum norm does not lose an entry that is none: a bound
on the norm is a bound on every entry (`Vec.normInf_le_iff`).

The maximum of two doubles drops what is no number, and of two zeros it takes the second one. In
the maximum norm neither is left to chance: it is no number exactly if some entry is none, and
otherwise the largest magnitude, as a double (`Vec.normInf_exact`).
-/
import LeastSquares.Proofs.Double.Special
import LeastSquares.Proofs.Objective

namespace LeastSquares

open Double

/-- Of two numbers, the larger one is at most `c` if and only if both are. -/
theorem OrderedScalar.max_le_iff {K : Type} [Scalar K] [OrderedScalar K] {a b c : K}
    (ha : Scalar.isNaN a = false) (hb : Scalar.isNaN b = false) :
    Scalar.max a b ≤ c ↔ a ≤ c ∧ b ≤ c := by
  have le_trans {x y : K} (hxy : x ≤ y) (hyc : y ≤ c) : x ≤ c := by
    rw [le_iff] at *
    exact ⟨hxy.1, hyc.2.1, hxy.2.2.trans hyc.2.2⟩
  unfold Scalar.max
  split_ifs with h
  · have hba : b ≤ a := le_of_lt (h.resolve_left (by simp [hb]))
    exact ⟨fun hac => ⟨hac, le_trans hba hac⟩, And.left⟩
  · have hab : a ≤ b := le_of_not_lt hb ha fun hlt => h (.inr hlt)
    exact ⟨fun hbc => ⟨le_trans hab hbc, hbc⟩, And.right⟩

/-! ## Entries

The program goes through lists of entries, and the theory speaks of indices. -/

theorem Vec.forall_mem_toList {α : Type} {n : Nat} {v : Vec α n} {P : α → Prop} :
    (∀ x ∈ v.toList, P x) ↔ ∀ i, P (v.get i) := by
  rw [List.forall_mem_iff_forall_getElem, Fin.forall_iff]
  simp [Vector.get]

theorem Mat.forall_mem_entryList {α : Type} {m n : Nat} {a : Mat α m n} {P : α → Prop} :
    (∀ x ∈ a.entryList, P x) ↔ ∀ i j, P (a.entry i j) := by
  rw [entryList, List.forall_mem_flatMap, Vec.forall_mem_toList]
  exact forall_congr' fun i => Vec.forall_mem_toList

variable {n : Nat} {xs : List Float}

/-! ## Sums

A scalar product is summed up in eight lanes, and an entry of a product with a matrix in one chain.
Either way each term goes into an addition whose result goes into another one or is the sum. -/

theorem isNaN_of_foldl_add {a : Float} (h : (xs.foldl (fun acc p => acc + p) a).isNaN = false) :
    a.isNaN = false ∧ ∀ x ∈ xs, x.isNaN = false := by
  induction xs generalizing a with
  | nil => exact ⟨h, by simp⟩
  | cons x xs ih =>
    obtain ⟨hsum, hrest⟩ := ih h
    obtain ⟨ha, hx⟩ := isNaN_of_add hsum
    exact ⟨ha, List.forall_mem_cons.2 ⟨hx, hrest⟩⟩

/-- The terms of a chain of additions are numbers if the sum is. -/
theorem isNaN_of_chainSum (h : (chainSum xs).isNaN = false) : ∀ x ∈ xs, x.isNaN = false := by
  cases xs with
  | nil => simp
  | cons x xs => exact List.forall_mem_cons.2 (isNaN_of_foldl_add h)

/-- The terms of eight sums that run side by side are numbers if the sum of them all is. -/
theorem isNaN_of_laneSum (s₀ s₁ s₂ s₃ s₄ s₅ s₆ s₇ : Float)
    (h : (laneSum s₀ s₁ s₂ s₃ s₄ s₅ s₆ s₇ xs).isNaN = false) :
    (∀ s ∈ [s₀, s₁, s₂, s₃, s₄, s₅, s₆, s₇], s.isNaN = false) ∧ ∀ x ∈ xs, x.isNaN = false := by
  fun_induction laneSum s₀ s₁ s₂ s₃ s₄ s₅ s₆ s₇ xs with
  | case1 s₀ s₁ s₂ s₃ s₄ s₅ s₆ s₇ p₀ p₁ p₂ p₃ p₄ p₅ p₆ p₇ rest ih =>
    obtain ⟨hsums, hrest⟩ := ih h
    simp only [List.forall_mem_cons] at hsums ⊢
    obtain ⟨h₀, h₁, h₂, h₃, h₄, h₅, h₆, h₇, hnil⟩ := hsums
    exact ⟨⟨(isNaN_of_add h₀).1, (isNaN_of_add h₁).1, (isNaN_of_add h₂).1, (isNaN_of_add h₃).1,
        (isNaN_of_add h₄).1, (isNaN_of_add h₅).1, (isNaN_of_add h₆).1, (isNaN_of_add h₇).1, hnil⟩,
      (isNaN_of_add h₀).2, (isNaN_of_add h₁).2, (isNaN_of_add h₂).2, (isNaN_of_add h₃).2,
      (isNaN_of_add h₄).2, (isNaN_of_add h₅).2, (isNaN_of_add h₆).2, (isNaN_of_add h₇).2, hrest⟩
  | case2 s₀ s₁ s₂ s₃ s₄ s₅ s₆ s₇ rest _ =>
    obtain ⟨hsum, hrest⟩ := isNaN_of_foldl_add h
    obtain ⟨hsum, h₃₇⟩ := isNaN_of_add hsum
    obtain ⟨hsum, h₂₆⟩ := isNaN_of_add hsum
    obtain ⟨hsum, h₁₅⟩ := isNaN_of_add hsum
    obtain ⟨-, h₀₄⟩ := isNaN_of_add hsum
    simp only [List.forall_mem_cons]
    exact ⟨⟨(isNaN_of_add h₀₄).1, (isNaN_of_add h₁₅).1, (isNaN_of_add h₂₆).1, (isNaN_of_add h₃₇).1,
      (isNaN_of_add h₀₄).2, (isNaN_of_add h₁₅).2, (isNaN_of_add h₂₆).2, (isNaN_of_add h₃₇).2,
      by simp⟩, hrest⟩

namespace Vec

/-- The sum of the squares is a number if and only if all entries are. -/
theorem isNaN_normSq_iff {v : Vec Float n} :
    v.normSq.isNaN = false ↔ ∀ x ∈ v.toList, x.isNaN = false := by
  refine ⟨fun h x hx => ?_, isNaN_normSq⟩
  have hsquare : (x * x).isNaN = false := by
    refine (isNaN_of_laneSum _ _ _ _ _ _ _ _ h).2 _ ?_
    rw [List.zipWith_self]
    exact List.mem_map_of_mem hx
  exact (isNaN_of_mul hsquare).1

/-! ## The maximum norm

One step compares the norm so far with a magnitude. It is written so that what is no number stays or
is let in, whereas the maximum alone would drop it. -/

theorem maxAbs_le_iff {acc x c : Float} : maxAbs acc x ≤ c ↔ acc ≤ c ∧ x.abs ≤ c := by
  have not_le {y : Float} (hy : y.isNaN = true) : ¬ y ≤ c := fun h => by
    rw [(le_iff_value.1 h).1] at hy
    contradiction
  have habs : Scalar.isNaN (Scalar.abs x) = Scalar.isNaN x := isNaN_abs x
  unfold maxAbs
  split_ifs with hacc hx
  · exact iff_of_false (not_le hacc) fun h => not_le hacc h.1
  · exact iff_of_false (not_le hx) fun h => not_le (habs.trans hx) h.2
  · rw [Bool.not_eq_true] at hacc hx
    exact OrderedScalar.max_le_iff hacc (habs.trans hx)

/-- The maximum norm is at most `c` if and only if zero and the magnitudes of all entries are. -/
theorem normInf_le_iff {v : Vec Float n} {c : Float} :
    v.normInf ≤ c ↔ 0 ≤ c ∧ ∀ x ∈ v.toList, x.abs ≤ c := by
  have fold (xs : List Float) (acc : Float) :
      xs.foldl maxAbs acc ≤ c ↔ acc ≤ c ∧ ∀ x ∈ xs, x.abs ≤ c := by
    induction xs generalizing acc with
    | nil => simp
    | cons x xs ih => rw [List.foldl_cons, ih, maxAbs_le_iff, List.forall_mem_cons, and_assoc]
  exact fold v.toList 0

variable {m : Nat} {acc x : Float} {v : Vec Float n} {w : Vec Float m}

/-- On numbers, one step of the maximum norm keeps the larger magnitude. -/
theorem maxAbs_of_numbers (hacc : acc.isNaN = false) (hx : x.isNaN = false) :
    maxAbs acc x = if x.abs < acc then acc else x.abs := by
  have hacc' : ¬ Scalar.isNaN acc = true := ne_true_of_eq_false hacc
  have hx' : ¬ Scalar.isNaN x = true := ne_true_of_eq_false hx
  have habs : ¬ x.abs.isNaN = true := ne_true_of_eq_false ((isNaN_abs x).trans hx)
  rw [maxAbs, if_neg hacc', if_neg hx']
  exact if_congr (or_iff_right habs) rfl rfl

theorem maxAbs_eq_or (hacc : acc.isNaN = false) (hx : x.isNaN = false) :
    maxAbs acc x = acc ∨ maxAbs acc x = x.abs := by
  rw [maxAbs_of_numbers hacc hx]
  exact ite_eq_or_eq ..

/-- The norm starts at zero, which any magnitude replaces. -/
theorem maxAbs_zero (hx : x.isNaN = false) : maxAbs 0.0 x = x.abs := by
  rw [maxAbs_of_numbers rfl hx, if_neg (OrderedScalar.not_lt_of_le (zero_le_abs hx))]

/-- One step of the maximum norm loses nothing that is no number. -/
theorem isNaN_maxAbs : (maxAbs acc x).isNaN = false ↔ acc.isNaN = false ∧ x.isNaN = false := by
  cases hacc : acc.isNaN with
  | true =>
    have hkeep : maxAbs acc x = acc := if_pos hacc
    simp only [hkeep, hacc, reduceCtorEq, false_and]
  | false =>
    have hacc' : ¬ Scalar.isNaN acc = true := ne_true_of_eq_false hacc
    cases hx : x.isNaN with
    | true =>
      have hfound : maxAbs acc x = x := (if_neg hacc').trans (if_pos hx)
      simp only [hfound, hx, reduceCtorEq, and_false]
    | false =>
      refine iff_of_true ?_ ⟨rfl, rfl⟩
      obtain h | h := maxAbs_eq_or hacc hx
      · rw [h, hacc]
      · rw [h, isNaN_abs, hx]

theorem isNaN_foldl_maxAbs : (xs.foldl maxAbs acc).isNaN = false
    ↔ acc.isNaN = false ∧ ∀ x ∈ xs, x.isNaN = false := by
  induction xs generalizing acc with
  | nil => simp
  | cons x xs ih => rw [List.foldl_cons, ih, isNaN_maxAbs, List.forall_mem_cons, and_assoc]

/-- The maximum norm is a number if and only if all entries are. -/
theorem isNaN_normInf_iff : v.normInf.isNaN = false ↔ ∀ x ∈ v.toList, x.isNaN = false :=
  isNaN_foldl_maxAbs.trans (and_iff_right rfl)

theorem foldl_maxAbs_eq_or (hacc : acc.isNaN = false) (hxs : ∀ x ∈ xs, x.isNaN = false) :
    xs.foldl maxAbs acc = acc ∨ ∃ x ∈ xs, xs.foldl maxAbs acc = x.abs := by
  induction xs generalizing acc with
  | nil => exact .inl rfl
  | cons x xs ih =>
    obtain ⟨hx, hxs⟩ := List.forall_mem_cons.1 hxs
    obtain h | ⟨y, hy, h⟩ := ih (isNaN_maxAbs.2 ⟨hacc, hx⟩) hxs
    · obtain hstep | hstep := maxAbs_eq_or hacc hx
      · exact .inl (h.trans hstep)
      · exact .inr ⟨x, List.mem_cons_self, h.trans hstep⟩
    · exact .inr ⟨y, List.mem_cons_of_mem x hy, h⟩

/-- Without entries it stays zero. -/
theorem normInf_of_nil (h : v.toList = []) : v.normInf = 0 := by
  rw [normInf, h]
  rfl

/-- If there are entries and all of them are numbers, the maximum norm is the magnitude of one. -/
theorem exists_normInf_eq (h : ∀ x ∈ v.toList, x.isNaN = false) (hne : v.toList ≠ []) :
    ∃ x ∈ v.toList, v.normInf = x.abs := by
  obtain ⟨x, xs, hv⟩ := List.exists_cons_of_ne_nil hne
  rw [hv, List.forall_mem_cons] at h
  obtain ⟨hx, hxs⟩ := h
  -- the first step leaves the zero at which the norm starts
  have hfold : v.normInf = xs.foldl maxAbs x.abs := by
    rw [normInf, hv, List.foldl_cons]
    exact congrArg (fun acc => xs.foldl maxAbs acc) (maxAbs_zero hx)
  rw [hfold, hv, List.exists_mem_cons_iff]
  exact foldl_maxAbs_eq_or ((isNaN_abs x).trans hx) hxs

theorem abs_le_normInf (h : ∀ x ∈ v.toList, x.isNaN = false) :
    ∀ x ∈ v.toList, x.abs ≤ v.normInf :=
  (normInf_le_iff.1 (OrderedScalar.le_refl (isNaN_normInf_iff.2 h))).2

/-- Vectors with the same entries, in whatever order, have the same maximum norm. -/
theorem normInf_congr (h : ∀ x, x ∈ v.toList ↔ x ∈ w.toList) : v.normInf = w.normInf := by
  have hnil : v.toList = [] ↔ w.toList = [] := by simp only [List.eq_nil_iff_forall_not_mem, h]
  have hnumbers : (∀ x ∈ v.toList, x.isNaN = false) ↔ ∀ x ∈ w.toList, x.isNaN = false := by
    simp only [h]
  by_cases hv : ∀ x ∈ v.toList, x.isNaN = false
  · have hw := hnumbers.1 hv
    by_cases hempty : v.toList = []
    · rw [normInf_of_nil hempty, normInf_of_nil (hnil.1 hempty)]
    · obtain ⟨x, hx, hxv⟩ := exists_normInf_eq hv hempty
      obtain ⟨y, hy, hyw⟩ := exists_normInf_eq hw fun hempty' => hempty (hnil.2 hempty')
      have hxy : x.abs ≤ y.abs := hyw ▸ abs_le_normInf hw x ((h x).1 hx)
      have hyx : y.abs ≤ x.abs := hxv ▸ abs_le_normInf hv y ((h y).2 hy)
      rw [hxv, hyw, abs_antisymm hxy hyx]
  · -- both norms are no number, and there is only one double that is none
    have hw := mt hnumbers.2 hv
    rw [← isNaN_normInf_iff, Bool.not_eq_false, Float.isNaN_eq_decide_eq_nan,
      decide_eq_true_iff] at hv hw
    rw [hv, hw]

/-- The maximum norm of doubles is no number if some entry is none, and otherwise the largest
magnitude. The order of the entries does not matter, and a bound on the norm is a bound on every
entry. -/
theorem normInf_exact (v : Vec Float n) :
    (v.normInf.isNaN = true ↔ ∃ x ∈ v.toList, x.isNaN = true)
    ∧ ((∀ x ∈ v.toList, x.isNaN = false) →
      (∀ x ∈ v.toList, x.abs ≤ v.normInf)
      ∧ (0 < n → ∃ x ∈ v.toList, v.normInf = x.abs))
    ∧ (n = 0 → v.normInf = 0)
    ∧ (∀ w : Vec Float n, v.toList.Perm w.toList → v.normInf = w.normInf)
    ∧ ∀ epsilon, v.normInf ≤ epsilon
      ↔ 0 ≤ epsilon ∧ ∀ x ∈ v.toList, x.isNaN = false ∧ x.abs ≤ epsilon := by
  have hlen : v.toList.length = n := v.length_toList
  refine ⟨?_, fun h => ⟨abs_le_normInf h, fun hn => exists_normInf_eq h ?_⟩, fun hn => ?_,
    fun w h => normInf_congr fun x => h.mem_iff, fun epsilon => ?_⟩
  · have hnumber := not_congr (isNaN_normInf_iff (v := v))
    simpa only [Bool.not_eq_false, not_forall, exists_prop] using hnumber
  · exact List.ne_nil_of_length_pos (by omega)
  · exact normInf_of_nil (List.eq_nil_of_length_eq_zero (hlen.trans hn))
  · rw [normInf_le_iff]
    have number {x : Float} (hx : x.abs ≤ epsilon) : x.isNaN = false :=
      (isNaN_abs x).symm.trans (le_iff_value.1 hx).1
    exact and_congr_right fun _ =>
      forall₂_congr fun x _ => ⟨fun hx => ⟨number hx, hx⟩, And.right⟩

/-- An infinite entry is larger than all others, and a negative zero has a magnitude too. -/
theorem normInf_exact_infinite :
    let v : Vec Float 3 := #v[-0.0, -1.0 / 0.0, 2.0]
    let w : Vec Float 3 := #v[2.0, -0.0, -1.0 / 0.0]
    let u : Vec Float 2 := #v[0.0 / 0.0, 1.0]
    let e : Vec Float 0 := #v[]
    (∃ x ∈ v.toList, v.normInf = x.abs) ∧ (∀ x ∈ v.toList, x.abs ≤ v.normInf)
      ∧ v.normInf = w.normInf ∧ u.normInf.isNaN = true ∧ e.normInf = 0 := by
  intro v w u e
  obtain ⟨-, largest, -, order, -⟩ := normInf_exact v
  have numbers : ∀ x ∈ v.toList, x.isNaN = false := by decide +kernel
  have perm : v.toList.Perm w.toList := by decide +kernel
  have found : ∃ x ∈ u.toList, x.isNaN = true := ⟨_, List.mem_cons_self, by decide +kernel⟩
  obtain ⟨bound, attained⟩ := largest numbers
  exact ⟨attained (by decide), bound, order w perm, (normInf_exact u).1.2 found,
    (normInf_exact e).2.2.1 rfl⟩

end Vec

end LeastSquares
