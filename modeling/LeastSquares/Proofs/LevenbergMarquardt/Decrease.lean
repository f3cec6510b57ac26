/-
LeastSquares.Proofs.LevenbergMarquardt.Decrease — how often the damped method can accept a trial,
computed exactly.

A run goes on after a trial only if the error there differs by `ε` or more from the one of the
current point. So each trial that is accepted, and after which the run goes on, takes `ε` or more
off the error (`Trial.lowers`), and each one that is rejected lies above it by as much
(`Trial.raises`).
The current point is the one before it is moved; nothing is assumed of the problem.

An error cannot become negative, so accepted trials come to an end. A run that spends every budget
is an infinite sequence of trials (`Endless`), and all of them are rejected from one of them on
(`acceptances_bounded`).
-/
import Mathlib
import LeastSquares.Proofs.LevenbergMarquardt.Exact
import LeastSquares.Proofs.LevenbergMarquardt.Termination
import LeastSquares.Proofs.LevenbergMarquardt.Verdict

namespace LeastSquares.LevenbergMarquardt

/-! ## Histories with any budget

A run that never ends is not a run of the program, which always has a budget. It is what all runs
with some budget have in common: they make the same trials, as far as they go, and none of them is
over before its budget is. -/

section Histories

variable {K : Type} [Scalar K] {n : Nat} {o : Options K} {p : Problem K n} {x₀ x : Vec K n}
  {s s' : State K n} {ts ts' : List (Trial K n)} {t : Trial K n}

/-- The last trial was made in the state before it, and made the state after it. -/
theorem History.of_concat (h : History o p x₀ (ts ++ [t]) s) :
    History o p x₀ ts t.state ∧ t.state.converged = false ∧ t.state.trialPoint? = some t.point
      ∧ s = t.state.advance o t.point (p.evaluate t.point) := by
  generalize hall : ts ++ [t] = all at h
  cases h with
  | start _ => simp at hall
  | next history running _ solved =>
    obtain ⟨rfl, hlast⟩ := List.append_inj' hall rfl
    obtain rfl := List.cons.inj hlast |>.1
    exact ⟨history, running, solved, rfl⟩

/-- After each number of steps there is one state, and one list of trials before it. -/
theorem History.unique (h : History o p x₀ ts s) (h' : History o p x₀ ts' s')
    (hlength : ts.length = ts'.length) : ts = ts' ∧ s = s' := by
  induction h generalizing ts' s' with
  | start _ =>
    cases h' with
    | start _ => exact ⟨rfl, rfl⟩
    | next _ _ _ _ => simp at hlength
  | next _ _ _ solved ih =>
    cases h' with
    | start _ => simp at hlength
    | next history' _ _ solved' =>
      obtain ⟨rfl, rfl⟩ := ih history' (by simpa using hlength)
      obtain rfl := Option.some.inj (solved.symm.trans solved')
      exact ⟨rfl, rfl⟩

/-- What is a run now was one after each of its steps. -/
theorem History.take (h : History o p x₀ ts s) {k : Nat} (hk : k ≤ ts.length) :
    ∃ s, History o p x₀ (ts.take k) s := by
  induction h with
  | start count => exact ⟨_, by simpa using History.start count⟩
  | @next ts s x history running budget solved ih =>
    rcases Nat.le_or_eq_of_le_succ (by simpa using hk) with hle | rfl
    · rw [List.take_append_of_le_length hle]
      exact ih hle
    · rw [List.take_of_length_le (by simp)]
      exact ⟨_, history.next running budget solved⟩

/-- A budget does not change the trials that are made within it. -/
theorem History.eq_take {k l : Nat} (h : History (o.withMaxSteps k) p x₀ ts s)
    (h' : History (o.withMaxSteps l) p x₀ ts' s') (hle : ts.length ≤ ts'.length) :
    ts = ts'.take ts.length := by
  obtain ⟨s'', htake⟩ := h'.take hle
  have hsteps : s''.steps = ts.length := by
    rw [htake.tracks.steps, List.length_take_of_le hle]
  exact ((h.withMaxSteps h.tracks.steps.le).unique (htake.withMaxSteps hsteps.le)
    (List.length_take_of_le hle).symm).1

/-- The trials of a run that never ends. Each of them is made in the state after those before it. -/
def Endless (o : Options K) (p : Problem K n) (x₀ : Vec K n) (t : ℕ → Trial K n) : Prop :=
  ∀ k, History (o.withMaxSteps k) p x₀ ((List.range k).map t) (t k).state
    ∧ (t k).state.converged = false

/-- A trial of an endless run is made in the state that the one before it has led to. -/
theorem Endless.state_succ {t : ℕ → Trial K n} (h : Endless o p x₀ t) (k : Nat) :
    (t (k + 1)).state = (t k).state.advance o (t k).point (p.evaluate (t k).point) := by
  have hnext := (h (k + 1)).1
  rw [List.range_succ, List.map_append] at hnext
  exact hnext.of_concat.2.2.2

/-- A run that spends every budget is in the middle of its steps after each of them. -/
theorem exists_history_of_spent
    (spent : ∀ k, (minimize (o.withMaxSteps k) p x₀).report.steps = k) (k : Nat) :
    ∃ ts s, History (o.withMaxSteps k) p x₀ ts s ∧ ts.length = k ∧ s.converged = false := by
  have count : (p.evaluate x₀).count ≠ 0 := by
    intro hcount
    have hone := spent 1
    rw [minimize, if_pos hcount] at hone
    exact absurd hone Nat.zero_ne_one
  obtain ⟨ts, s, h, hend⟩ := exists_history count (o.withMaxSteps k)
  have hsteps : s.steps = k := hend.steps_eq.symm.trans (spent k)
  refine ⟨ts, s, h, h.tracks.steps.symm.trans hsteps, Bool.eq_false_iff.2 fun found => ?_⟩
  -- otherwise the next larger budget would not be spent
  have hmore := (h.withMaxSteps (l := k + 1) (by omega)).minimize_eq_of_ends (.converged found)
  have hnext := spent (k + 1)
  rw [hmore] at hnext
  exact absurd (hsteps.symm.trans hnext) (Nat.succ_ne_self k).symm

/-- Such a run is an endless one. -/
theorem exists_endless (spent : ∀ k, (minimize (o.withMaxSteps k) p x₀).report.steps = k) :
    ∃ t, Endless o p x₀ t := by
  -- each run has one more trial than the run with a budget that is one smaller
  choose ts s history hlength running using exists_history_of_spent spent
  have hlast (k : Nat) : ∃ t, ts (k + 1) = ts k ++ [t] ∧ t.state = s k := by
    obtain ⟨before, t, hsplit⟩ := (ts (k + 1)).eq_nil_or_concat'.resolve_left fun hnil => by
      simpa [hnil] using hlength (k + 1)
    have hbefore : before.length = k := by simpa [hsplit] using hlength (k + 1)
    have h := history (k + 1)
    rw [hsplit] at h
    have hsame := (h.of_concat.1.withMaxSteps (l := k)
      (by rw [h.of_concat.1.tracks.steps, hbefore])).unique (history k)
      (hbefore.trans (hlength k).symm)
    exact ⟨t, by rw [hsplit, hsame.1], hsame.2⟩
  choose t ht hstate using hlast
  have hrange (k : Nat) : (List.range k).map t = ts k := by
    induction k with
    | zero => exact (List.eq_nil_of_length_eq_zero (hlength 0)).symm
    | succ k ih => rw [List.range_succ, List.map_append, ih, ht, List.map_singleton]
  refine ⟨t, fun k => ?_⟩
  rw [hrange, hstate]
  exact ⟨history k, running k⟩

end Histories

/-! ## Trials after which a run goes on

The test for convergence compares two errors, and leaves a gap between them if it fails. On which
side the gap is depends on whether the trial is accepted. -/

/-- How many trials were accepted without an end of the run. -/
def acceptances {K : Type} [Scalar K] {n : Nat} (o : Options K) (p : Problem K n)
    (ts : List (Trial K n)) : Nat :=
  ts.countP fun t => t.Accepted p ∧ ¬ t.Converges o p

variable {n : Nat} {o : Options ℝ} {p : Problem ℝ n} {x₀ x : Vec ℝ n} {s : State ℝ n}
  {ts : List (Trial ℝ n)} {t : Trial ℝ n}

/-- The error of such a trial is not near the one of the point it starts from. -/
theorem Trial.le_gap (goesOn : ¬ t.Converges o p) :
    o.epsilon ≤ |p.error t.state.point - p.error t.point| :=
  not_lt.1 fun hnear => goesOn (.inr (.inr hnear))

/-- An accepted trial lies below the point that it starts from, by the gap. -/
theorem Trial.lowers (accepted : t.Accepted p) (goesOn : ¬ t.Converges o p) :
    p.error t.point + o.epsilon ≤ p.error t.state.point := by
  have hlt : p.error t.point < p.error t.state.point := accepted
  have hgap := le_gap goesOn
  rw [abs_of_pos (sub_pos.2 hlt)] at hgap
  linarith

/-- A rejected one lies above it. -/
theorem Trial.raises (rejected : ¬ t.Accepted p) (goesOn : ¬ t.Converges o p) :
    p.error t.state.point + o.epsilon ≤ p.error t.point := by
  have hle : p.error t.state.point ≤ p.error t.point := not_lt.1 rejected
  have hgap := le_gap goesOn
  rw [abs_of_nonpos (sub_nonpos.2 hle)] at hgap
  linarith

/-! ## A run

The error of the current point never rises, and each acceptance that is counted lowers it by the
gap. By induction on the history it has been lowered by as many gaps as there are. -/

theorem acceptances_append (o : Options ℝ) (p : Problem ℝ n) (ts us : List (Trial ℝ n)) :
    acceptances o p (ts ++ us) = acceptances o p ts + acceptances o p us :=
  List.countP_append

theorem acceptances_singleton (o : Options ℝ) (p : Problem ℝ n) (t : Trial ℝ n) :
    acceptances o p [t] = if t.Accepted p ∧ ¬ t.Converges o p then 1 else 0 := by
  simp [acceptances, List.countP_singleton]

/-- Each acceptance has taken `ε` or more off the error. -/
theorem History.acceptances_mul_le (h : History o p x₀ ts s) :
    acceptances o p ts * o.epsilon ≤ p.error x₀ - p.error s.point := by
  induction h with
  | start _ => simp [acceptances, State.start]
  | @next ts s x history _ _ _ ih =>
    rw [history.tracks.point_advance, acceptances_append, acceptances_singleton]
    by_cases accepted : Trial.Accepted p ⟨s, x⟩
    · have hlt : p.error x < p.error s.point := accepted
      rw [if_pos hlt]
      by_cases converges : Trial.Converges o p ⟨s, x⟩
      · rw [if_neg fun both => both.2 converges, add_zero]
        exact ih.trans (by linarith)
      · have hlower : p.error x + o.epsilon ≤ p.error s.point := Trial.lowers accepted converges
        rw [if_pos ⟨accepted, converges⟩]
        push_cast
        linarith
    · have hstays : ¬ p.error x < p.error s.point := accepted
      rw [if_neg hstays, if_neg fun both => accepted both.1, add_zero]
      exact ih

/-- A run that has not converged has accepted as many trials as it has counted. -/
theorem History.acceptances_le (h : History o p x₀ ts s) (hpos : 0 < o.epsilon) :
    acceptances o p ts ≤ ⌊p.error x₀ / o.epsilon⌋₊ := by
  have herror : 0 ≤ p.error s.point := Vec.normSq_nonneg _
  refine Nat.le_floor ?_
  rw [le_div_iff₀ hpos]
  exact h.acceptances_mul_le.trans (sub_le_self _ herror)

/-- Whatever the budget is, a run rejects all but its first trials, except perhaps one that ends
it. -/
theorem exists_last_acceptance (hpos : 0 < o.epsilon) (p : Problem ℝ n) (x₀ : Vec ℝ n) :
    ∃ N, ∀ k ts s, History (o.withMaxSteps k) p x₀ ts s →
      ∀ t ∈ ts.drop N, ¬ (t.Accepted p ∧ ¬ t.Converges o p) := by
  let counts : Set ℕ := {c | ∃ k ts s, History (o.withMaxSteps k) p x₀ ts s
    ∧ acceptances o p ts = c}
  have bounded : BddAbove counts := by
    refine ⟨⌊p.error x₀ / o.epsilon⌋₊, ?_⟩
    rintro c ⟨k, ts, s, h, rfl⟩
    exact h.acceptances_le hpos
  rcases counts.eq_empty_or_nonempty with hempty | hnonempty
  · refine ⟨0, fun k ts s h => absurd ?_ (Set.notMem_empty (acceptances o p ts))⟩
    rw [← hempty]
    exact ⟨k, ts, s, h, rfl⟩
  -- a history with as many acceptances as any other
  obtain ⟨k₀, most, s₀, h₀, hmost⟩ := Nat.sSup_mem hnonempty bounded
  refine ⟨most.length, fun k ts s h t ht both => ?_⟩
  have hle : most.length ≤ ts.length := by
    by_contra! hlt
    simp [List.drop_of_length_le hlt.le] at ht
  have hcount : acceptances o p ts ≤ acceptances o p most := by
    rw [hmost]
    exact le_csSup bounded ⟨k, ts, s, h, rfl⟩
  have hsplit : ts = most ++ ts.drop most.length := by
    conv_lhs => rw [← List.take_append_drop most.length ts, ← h₀.eq_take h hle]
  have hlater : 0 < acceptances o p (ts.drop most.length) :=
    List.countP_pos_iff.2 ⟨t, ht, by simpa using both⟩
  rw [hsplit, acceptances_append] at hcount
  omega

/-! ## Endless runs -/

section Endless

variable {t : ℕ → Trial ℝ n}

/-- No trial of an endless run converges, or the run would be over. -/
theorem Endless.not_converges (h : Endless o p x₀ t) (k : Nat) : ¬ (t k).Converges o p := by
  obtain ⟨history, running⟩ := h (k + 1)
  intro converges
  have found := history.converged_iff.2
    ⟨t k, List.mem_map_of_mem (List.mem_range.2 k.lt_succ_self), converges⟩
  exact absurd (running.symm.trans found) Bool.false_ne_true

/-- A rejected trial leaves the point where it is. -/
theorem Endless.point_of_rejected (h : Endless o p x₀ t) {k : Nat} (rejected : ¬ (t k).Accepted p) :
    (t (k + 1)).state.point = (t k).state.point := by
  rw [h.state_succ, (h k).1.tracks.point_advance]
  exact if_neg rejected

/-- From some trial on, all are rejected, and the run stays where it is. -/
theorem Endless.exists_stays (h : Endless o p x₀ t) (hpos : 0 < o.epsilon) :
    ∃ N, ∀ k, N ≤ k → ¬ (t k).Accepted p ∧ (t k).state.point = (t N).state.point := by
  obtain ⟨N, hN⟩ := exists_last_acceptance hpos p x₀
  have rejected (k : Nat) (hk : N ≤ k) : ¬ (t k).Accepted p := by
    intro accepted
    refine hN _ _ _ (h (k + 1)).1 (t k) ?_ ⟨accepted, h.not_converges k⟩
    rw [List.range_succ, List.map_append, List.drop_append_of_le_length (by simpa using hk)]
    simp
  refine ⟨N, fun k hk => ⟨rejected k hk, ?_⟩⟩
  induction k, hk using Nat.le_induction with
  | base => rfl
  | succ k hk ih => exact (h.point_of_rejected (rejected k hk)).trans ih

end Endless

/-- With a positive threshold `ε`, each trial that a run has accepted without ending there has taken
`ε` or more off the error, and each one that it has rejected without ending there lies above the
error of its point by `ε` or more. So a run that spends every budget rejects all trials from one of
them on. -/
theorem acceptances_bounded {o : Options ℝ} (hpos : 0 < o.epsilon) (p : Problem ℝ n)
    (x₀ : Vec ℝ n) :
    (∀ ts s, History o p x₀ ts s →
        acceptances o p ts * o.epsilon ≤ p.error x₀ - p.error s.point
          ∧ ∀ t ∈ ts, ¬ t.Accepted p → ¬ t.Converges o p →
            p.error t.state.point + o.epsilon ≤ p.error t.point)
      ∧ ((p.evaluate x₀).count ≠ 0 → ∃ ts s, (minimize o p x₀).Verdict o p x₀ ts s)
      ∧ ((∀ k, (minimize (o.withMaxSteps k) p x₀).report.steps = k) →
        ∃ t, Endless o p x₀ t
          ∧ ∃ N, ∀ k, N ≤ k → ¬ (t k).Accepted p ∧ (t k).state.point = (t N).state.point) := by
  refine ⟨fun ts s h => ⟨h.acceptances_mul_le, fun t _ => Trial.raises⟩, fun count => ?_,
    fun spent => ?_⟩
  · obtain ⟨ts, s, h, hend⟩ := exists_history count o
    exact ⟨ts, s, h.verdict hend⟩
  · obtain ⟨t, endless⟩ := exists_endless spent
    exact ⟨t, endless, endless.exists_stays hpos⟩

/-- The residual is the unknown, with an eighth in the place of its derivative. -/
noncomputable def eighth : Problem ℝ 1 where
  evaluate x := ⟨1, x, (Mat.identity 1).scale (1 / 8)⟩

theorem error_eighth (y : ℝ) : eighth.error #v[y] = y ^ 2 := by
  show Vec.normSq (#v[y] : Vec ℝ 1) = y ^ 2
  rw [Vec.normSq_eq, dotProduct, Fin.sum_univ_one]
  exact (sq y).symm

theorem accepted_eighth_iff {s : State ℝ 1} {y z : ℝ} (hpoint : s.point = #v[y]) :
    Trial.Accepted eighth ⟨s, #v[z]⟩ ↔ z ^ 2 < y ^ 2 := by
  rw [Trial.Accepted, hpoint, error_eighth, error_eighth]

theorem not_converges_eighth {o : Options ℝ} {s : State ℝ 1} {y z : ℝ} (hpoint : s.point = #v[y])
    (value : o.epsilon ≤ z ^ 2) (slope : o.epsilon ≤ 1 / 8) (gap : o.epsilon ≤ |y ^ 2 - z ^ 2|) :
    ¬ Trial.Converges o eighth ⟨s, #v[z]⟩ := by
  rintro (small | flat | near)
  · rw [error_eighth] at small
    exact value.not_gt small
  · have hentry : (eighth.evaluate #v[z]).jacobian.entry (0 : Fin 1) 0 = 1 / 8 := by
      simp [eighth]
    have hflat := flat (0 : Fin 1) 0
    rw [hentry] at hflat
    exact absurd slope (not_le.2 ((le_abs_self _).trans_lt hflat))
  · rw [hpoint, error_eighth, error_eighth] at near
    exact gap.not_gt near

/-- The step `d` from `y` solves `(1 / 64 + λ) d = y / 8`. -/
theorem State.Tracks.trialPoint?_eighth {s : State ℝ 1} {y d : ℝ} {x₀ : Vec ℝ 1}
    {ts : List (Trial ℝ 1)} (h : s.Tracks eighth x₀ ts) (hpoint : s.point = #v[y])
    (hne : 1 / 64 + s.lambda ≠ 0) (hd : (1 / 64 + s.lambda) * d = y / 8) :
    s.trialPoint? = some #v[y - d] := by
  have hmodel : s.model = .ofEvaluation ⟨1, #v[y], (Mat.identity 1).scale (1 / 8)⟩ := by
    rw [h.model, hpoint]
    rfl
  have hmatrix : (s.model.shiftedNormal s.lambda).entry 0 0 = 1 / 64 + s.lambda := by
    rw [hmodel, ← Mat.toMatrix_apply, LinearModel.toMatrix_shiftedNormal, Mat.toMatrix_scale,
      Mat.toMatrix_identity]
    simp only [Matrix.transpose_smul, Matrix.transpose_one, Matrix.smul_mul, Matrix.mul_smul,
      Matrix.one_mul, Matrix.add_apply, Matrix.smul_apply, Matrix.one_apply_eq, smul_eq_mul]
    ring
  have hgradient : s.model.gradient.get 0 = y / 8 := by
    rw [hmodel, LinearModel.get_gradient, Mat.toMatrix_scale, Mat.toMatrix_identity]
    rw [Matrix.transpose_smul, Matrix.transpose_one, Matrix.smul_mulVec, Matrix.one_mulVec,
      Pi.smul_apply, smul_eq_mul]
    exact one_div_mul_eq_div ..
  have hsolve : (s.model.shiftedNormal s.lambda).solve? s.model.gradient = some #v[d] := by
    rw [Mat.solve?_one, hmatrix, hgradient, if_neg fun h => hne (Exact.beq_zero_iff.1 h), ← hd,
      mul_div_cancel_left₀ _ hne]
  rw [trialPoint?_of_solution hsolve, hpoint]
  rfl

/-- The first step from one is accepted. The second one leads three times as far from zero as the
point it starts from, and with a damping that does not grow it is made in vain forever. -/
theorem acceptances_bounded_eighth :
    let o : Options ℝ := ⟨15 / 64, 1, 15, 1 / 100, 5⟩
    0 < o.epsilon
      ∧ (∃ ts s, History o eighth #v[1] ts s ∧ ts.length = 2 ∧ acceptances o eighth ts = 1
        ∧ 1 * o.epsilon ≤ eighth.error #v[1] - eighth.error s.point)
      ∧ (∃ ts s, (minimize o eighth #v[1]).Verdict o eighth #v[1] ts s)
      ∧ ∃ t, Endless o eighth #v[1] t
        ∧ ∃ N, ∀ k, N ≤ k → ¬ (t k).Accepted eighth
          ∧ (t k).state.point = (t N).state.point := by
  intro o
  have hpos : 0 < o.epsilon := by norm_num [o]
  have count : (eighth.evaluate #v[1]).count ≠ 0 := one_ne_zero
  let s₀ : State ℝ 1 := .start o #v[1] (eighth.evaluate #v[1])
  let s₁ : State ℝ 1 := s₀.advance o #v[1 - 1 / 2] (eighth.evaluate #v[1 - 1 / 2])
  let t₀ : Trial ℝ 1 := ⟨s₀, #v[1 - 1 / 2]⟩
  let t₁ : Trial ℝ 1 := ⟨s₁, #v[1 - 1 / 2 - 2]⟩
  have h₀ : History o eighth #v[1] [] s₀ := .start count
  have solved₀ : s₀.trialPoint? = some t₀.point :=
    h₀.tracks.trialPoint?_eighth rfl (by norm_num [s₀, o, State.start])
      (by norm_num [s₀, o, State.start])
  have h₁ : History o eighth #v[1] [t₀] s₁ := h₀.next rfl (by decide) solved₀
  have accepted : t₀.Accepted eighth := (accepted_eighth_iff rfl).2 (by norm_num)
  have goesOn₀ : ¬ t₀.Converges o eighth :=
    not_converges_eighth rfl (by norm_num [o]) (by norm_num [o]) (by norm_num [o])
  have running : s₁.converged = false := by
    rw [State.converged_advance, Bool.eq_false_iff, Ne, h₀.tracks.endsAt_iff]
    exact goesOn₀
  have hpoint : s₁.point = #v[1 - 1 / 2] := by
    rw [h₀.tracks.point_advance]
    exact if_pos accepted
  have hlambda : s₁.lambda = 1 / 64 := by
    rw [State.lambda_advance, h₀.tracks.model]
    exact (if_pos accepted).trans (by norm_num [s₀, o, State.start])
  have solved₁ : s₁.trialPoint? = some t₁.point :=
    h₁.tracks.trialPoint?_eighth hpoint (by norm_num [hlambda]) (by norm_num [hlambda])
  have rejected : ¬ t₁.Accepted eighth :=
    (accepted_eighth_iff hpoint).not.2 (by norm_num)
  have goesOn₁ : ¬ t₁.Converges o eighth :=
    not_converges_eighth hpoint (by norm_num [o]) (by norm_num [o]) (by norm_num [o])
  have stalled : s₁.Stalled o eighth t₁.point := by
    refine ⟨running, solved₁, ?_, ?_, mul_one _⟩
    · rw [Bool.eq_false_iff, Ne, h₁.tracks.endsAt_iff]
      exact goesOn₁
    · rw [h₁.tracks.model]
      exact rejected
  have spent (k : Nat) : (minimize (o.withMaxSteps k) eighth #v[1]).report.steps = k := by
    cases k with
    | zero =>
      rw [minimize_withMaxSteps count]
      rfl
    | succ k =>
      refine History.steps_of_stalled (k := 5) h₁ stalled ?_
      rw [h₁.tracks.steps]
      exact Nat.le_add_left 1 k
  obtain ⟨decrease, verdict, endless⟩ := acceptances_bounded hpos eighth #v[1]
  have h₂ : History o eighth #v[1] [t₀, t₁] _ :=
    h₁.next running (by rw [h₁.tracks.steps]; decide) solved₁
  have hcount : acceptances o eighth [t₀, t₁] = 1 := by
    rw [acceptances, List.countP_cons, List.countP_singleton]
    simp [accepted, goesOn₀, rejected]
  refine ⟨hpos, ⟨_, _, h₂, rfl, hcount, ?_⟩, verdict count, endless spent⟩
  have hbound := (decrease _ _ h₂).1
  rwa [hcount, Nat.cast_one] at hbound

end LeastSquares.LevenbergMarquardt
