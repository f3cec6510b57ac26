/-
LeastSquares.Proofs.LevenbergMarquardt.Verdict — what the outcome of a run says.

A trial converges if its error is small, or its Jacobian, or the difference of its error and the one
of the point it starts from (`Trial.Converges`). A run makes trials until one of them converges, or
its budget is spent, or there is no solution of the damped equations to try; its report tells which
of the three it was (`verdict_of_trials`).

The residuals of a trial have a say in two of the three tests only. Neither is met where a residual
is no number, but the test of the Jacobian does not look at the residuals: a run may end at a point
where they are no numbers, and report no failure (`objective_of_converged_pole`). It does so only if
all entries of the Jacobian are small there (`objective_of_converged`).
-/
import LeastSquares.Problem.Formulas
import LeastSquares.Proofs.LevenbergMarquardt.Iterates
import LeastSquares.Proofs.Norms
import LeastSquares.Proofs.Requests

namespace LeastSquares.LevenbergMarquardt

open Postfix

variable {K : Type} [Scalar K] {n : Nat}

/-! ## Trials that end a run -/

/-- The trial meets one of the tests for convergence. -/
def Trial.Converges (o : Options K) (p : Problem K n) (t : Trial K n) : Prop :=
  p.error t.point < o.epsilon
    ∨ (∀ i j, Scalar.abs ((p.evaluate t.point).jacobian.entry i j) < o.epsilon)
    ∨ Scalar.abs (p.error t.state.point - p.error t.point) < o.epsilon

instance (o : Options K) (p : Problem K n) (t : Trial K n) : Decidable (t.Converges o p) :=
  inferInstanceAs (Decidable (_ ∨ _ ∨ _))

/-- The damped equations have no solution, or one with an entry that is no number. -/
def Insoluble (e : Evaluation K n) (lambda : K) : Prop :=
  ∀ d, dampedStep? e lambda = some d → d.toList.any Scalar.isNaN = true

variable {o : Options K} {p : Problem K n} {x₀ x : Vec K n} {s : State K n}
  {ts : List (Trial K n)} {r : Run K n}

theorem State.Tracks.endsAt_iff (h : s.Tracks p x₀ ts) :
    s.endsAt o (p.evaluate x) = true ↔ Trial.Converges o p ⟨s, x⟩ := by
  rw [State.endsAt, h.model, Bool.or_eq_true, Bool.or_eq_true, decide_eq_true_iff,
    decide_eq_true_iff, List.all_eq_true, or_assoc]
  simp only [decide_eq_true_iff]
  rw [Mat.forall_mem_entryList]
  rfl

namespace History

/-- A run is over if one of its trials converges. -/
theorem converged_iff (h : History o p x₀ ts s) :
    s.converged = true ↔ ∃ t ∈ ts, t.Converges o p := by
  induction h with
  | start _ => simp [State.start]
  | @next ts s x history running _ _ ih =>
    have before : ¬ ∃ t ∈ ts, t.Converges o p := by simp [← ih, running]
    rw [State.converged_advance, history.tracks.endsAt_iff]
    simp only [List.mem_append, List.mem_singleton, or_and_right, exists_or, exists_eq_left]
    exact (or_iff_right before).symm

/-- A run goes on after a trial only if it does not converge. -/
theorem not_converges (h : History o p x₀ ts s) : ∀ t ∈ ts.dropLast, ¬ t.Converges o p := by
  cases h with
  | start _ => simp
  | next history running _ _ =>
    rw [List.dropLast_concat]
    intro t ht converges
    simp [history.converged_iff.2 ⟨t, ht, converges⟩] at running

theorem trialPoint?_eq_none_iff (h : History o p x₀ ts s) :
    s.trialPoint? = none ↔ Insoluble (p.evaluate s.point) (damping o p ts) := by
  rw [Option.eq_none_iff_forall_ne_some]
  simp only [ne_eq, h.trialPoint?_eq_some_iff, Insoluble]
  constructor
  · intro hnone d hd
    rw [← Bool.not_eq_false]
    exact fun hnumbers => hnone _ ⟨d, hd, hnumbers, rfl⟩
  · rintro insoluble x ⟨d, hd, hnumbers, -⟩
    simp [insoluble d hd] at hnumbers

end History

/-- What the result of a run says about its trials `ts` and the state `s` after them. -/
structure Run.Verdict (o : Options K) (p : Problem K n) (x₀ : Vec K n) (ts : List (Trial K n))
    (s : State K n) (r : Run K n) : Prop where
  history : History o p x₀ ts s
  /-- These are all the trials that the run makes. -/
  requests : r.requests.toList = (x₀ :: ts.map Trial.point).map .evaluation
  steps : r.report.steps = ts.length
  budget : ts.length ≤ o.maxSteps
  /-- No trial but the last one converges. -/
  first : ∀ t ∈ ts.dropLast, ¬ t.Converges o p
  converged : r.report.failure = none ↔ ∃ t ∈ ts, t.Converges o p
  lostPatience : r.report.failure = some .lostPatience ↔
    ts.length = o.maxSteps ∧ ∀ t ∈ ts, ¬ t.Converges o p
  numerical : r.report.failure = some .numerical ↔ ts.length < o.maxSteps
    ∧ (∀ t ∈ ts, ¬ t.Converges o p) ∧ Insoluble (p.evaluate s.point) (damping o p ts)
  /-- The run returns its last trial, unless the equations of its step were insoluble. -/
  point : r.point = if r.report.failure = some .numerical then none
    else (x₀ :: ts.map Trial.point).getLast?

/-- A run that has converged or used up its budget has the verdict that its trials give. -/
theorem History.verdict_finish (h : History o p x₀ ts s)
    (spent : s.converged = false → o.maxSteps ≤ ts.length) : s.finish.Verdict o p x₀ ts s := by
  have hbudget : ts.length ≤ o.maxSteps := h.tracks.steps ▸ h.minimize_eq.1
  have hpoint : s.finish.point = (x₀ :: ts.map Trial.point).getLast? := h.tracks.trial.symm
  cases hs : s.converged with
  | true =>
    have hfailure : s.finish.report.failure = none := if_pos hs
    obtain ⟨t, ht, converges⟩ := h.converged_iff.1 hs
    refine ⟨h, h.tracks.requests, h.tracks.steps, hbudget, h.not_converges, ?_, ?_, ?_, ?_⟩
    · exact iff_of_true hfailure ⟨t, ht, converges⟩
    · exact iff_of_false (by simp [hfailure]) fun hlost => hlost.2 t ht converges
    · exact iff_of_false (by simp [hfailure]) fun hlost => hlost.2.1 t ht converges
    · rw [hpoint, if_neg (by simp [hfailure])]
  | false =>
    have hfailure : s.finish.report.failure = some .lostPatience := if_neg (by simp [hs])
    have never : ¬ ∃ t ∈ ts, t.Converges o p := by simp [← h.converged_iff, hs]
    refine ⟨h, h.tracks.requests, h.tracks.steps, hbudget, h.not_converges, ?_, ?_, ?_, ?_⟩
    · exact iff_of_false (by simp [hfailure]) never
    · exact iff_of_true hfailure
        ⟨Nat.le_antisymm hbudget (spent hs), fun t ht converges => never ⟨t, ht, converges⟩⟩
    · exact iff_of_false (by simp [hfailure]) fun hunsolved => absurd (spent hs) (by omega)
    · rw [hpoint, if_neg (by simp [hfailure])]

/-- The run that ends after the trials `ts` has the verdict that they give. -/
theorem History.verdict (h : History o p x₀ ts s) (hend : s.Ends o r) :
    r.Verdict o p x₀ ts s := by
  have hlength : s.steps = ts.length := h.tracks.steps
  cases hend with
  | converged found => exact h.verdict_finish fun running => by simp [found] at running
  | outOfSteps spent => exact h.verdict_finish fun _ => hlength ▸ spent
  | unsolved running budget unsolved =>
    have hfailure : s.giveUp.report.failure = some .numerical := rfl
    have never : ¬ ∃ t ∈ ts, t.Converges o p := by simp [← h.converged_iff, running]
    rw [hlength] at budget
    refine ⟨h, h.tracks.requests, hlength, budget.le, h.not_converges, ?_, ?_, ?_, ?_⟩
    · exact iff_of_false (by simp [hfailure]) never
    · exact iff_of_false (by simp [hfailure]) fun hlost => budget.ne hlost.1
    · exact iff_of_true hfailure ⟨budget, fun t ht converges => never ⟨t, ht, converges⟩,
        h.trialPoint?_eq_none_iff.1 unsolved⟩
    · exact (if_pos hfailure).symm

/-- What a run without failure returns is its last trial, and this one converges. -/
theorem Run.Verdict.exists_trial (h : r.Verdict o p x₀ ts s) (hfailure : r.report.failure = none) :
    ∃ t : Trial K n, t.Converges o p ∧ r.point = some t.point := by
  obtain ⟨t, ht, converges⟩ := h.converged.1 hfailure
  have hpoint : r.point = (x₀ :: ts.map Trial.point).getLast? := by
    rw [h.point, if_neg (by simp [hfailure])]
  have hfirst := h.first
  rcases ts.eq_nil_or_concat' with rfl | ⟨before, last, rfl⟩
  · simp at ht
  · rw [List.dropLast_concat] at hfirst
    rw [List.map_append, ← List.cons_append, List.map_singleton, List.getLast?_concat] at hpoint
    rcases List.mem_append.1 ht with hbefore | hlast
    · exact absurd converges (hfirst t hbefore)
    · obtain rfl := List.mem_singleton.1 hlast
      exact ⟨t, converges, hpoint⟩

/-- A run with residuals at its initial point makes trials until one of them converges, or its
budget is spent, or there is no trial to make; and its report tells which. -/
theorem verdict_of_trials (o : Options Float) (p : Problem Float n) (x₀ : Vec Float n)
    (count : (p.evaluate x₀).count ≠ 0) :
    ∃ ts s, (minimize o p x₀).Verdict o p x₀ ts s := by
  obtain ⟨ts, s, h, hend⟩ := exists_history count o
  exact ⟨ts, s, h.verdict hend⟩

/-- With the right damping the first trial on `steep` goes from one to zero, and it converges
although the budget is spent with it. -/
theorem verdict_of_trials_steep :
    let o : Options Float := { Options.standard with initialLambda := 0.109375, maxSteps := 1 }
    (steep.evaluate #v[1.0]).count ≠ 0
      ∧ ∃ ts s, (minimize o steep #v[1.0]).Verdict o steep #v[1.0] ts s
        ∧ ts.length = o.maxSteps ∧ (∃ t ∈ ts, t.Converges o steep)
        ∧ (minimize o steep #v[1.0]).point = some #v[0.0] := by
  intro o
  have count : (steep.evaluate #v[1.0]).count ≠ 0 := by decide
  obtain ⟨ts, s, verdict⟩ := verdict_of_trials o steep #v[1.0] count
  have hsteps : (minimize o steep #v[1.0]).report.steps = 1 := by decide +kernel
  have hfailure : (minimize o steep #v[1.0]).report.failure = none := by decide +kernel
  exact ⟨count, ts, s, verdict, verdict.steps.symm.trans hsteps, verdict.converged.1 hfailure,
    by decide +kernel⟩

/-! ## Residuals that are no numbers -/

section Float

variable {o : Options Float} {p : Problem Float n} {x₀ x : Vec Float n} {t : Trial Float n}

/-- The error is a number if and only if all residuals are. -/
theorem isNaN_error_iff :
    (p.error x).isNaN = true ↔ ∃ r ∈ (p.evaluate x).residuals.toList, r.isNaN = true := by
  rw [← not_iff_not, Bool.not_eq_true, Problem.error, Vec.isNaN_normSq_iff]
  simp only [not_exists, not_and, Bool.not_eq_true]

/-- Where the error is no number, only the Jacobian can make a trial converge. -/
theorem Trial.converges_iff_of_isNaN (hnan : (p.error t.point).isNaN = true) : t.Converges o p ↔
    ∀ i j, ((p.evaluate t.point).jacobian.entry i j).abs < o.epsilon := by
  have herror : ¬ p.error t.point < o.epsilon := Double.not_gt_of_isNaN hnan _
  have hdifference : ¬ Scalar.abs (p.error t.state.point - p.error t.point) < o.epsilon := by
    refine Double.not_gt_of_isNaN ?_ _
    exact (Double.isNaN_abs _).trans (Double.isNaN_sub (.inr hnan))
  rw [Converges, or_iff_right herror, or_iff_left hdifference]
  rfl

/-- A run that reports no failure returns a point with the objective that it reports. The objective
is a number if the residuals are, and in any case where some entry of the Jacobian is not small. -/
theorem objective_of_converged (hfailure : (minimize o p x₀).report.failure = none) :
    ∃ x, (minimize o p x₀).point = some x
      ∧ (minimize o p x₀).report.objective = p.error x * 0.5
      ∧ ((minimize o p x₀).report.objective.isNaN = true
        ↔ ∃ r ∈ (p.evaluate x).residuals.toList, r.isNaN = true)
      ∧ ((∃ i j, ¬ ((p.evaluate x).jacobian.entry i j).abs < o.epsilon) →
        (minimize o p x₀).report.objective.isNaN = false) := by
  have faithful := minimize_faithful o p x₀
  obtain ⟨x, hx⟩ : ∃ x, (minimize o p x₀).point = some x := by
    refine Option.ne_none_iff_exists'.1 fun hnone => ?_
    simp [faithful.none_iff.1 hnone] at hfailure
  have hobjective := (faithful.returned x hx).2
  have hnan : (minimize o p x₀).report.objective.isNaN = (p.error x).isNaN := by
    rw [hobjective, Double.mul_comm]
    exact Double.isNaN_half _
  refine ⟨x, hx, hobjective, hnan ▸ isNaN_error_iff, fun ⟨i, j, hij⟩ => ?_⟩
  rw [hnan, ← Bool.not_eq_true]
  intro herror
  have count : (p.evaluate x₀).count ≠ 0 := fun hcount => by
    -- without residuals the run stays at its initial point, and there is no Jacobian
    have hrun : (minimize o p x₀).point = some x₀ := by rw [minimize, if_pos hcount]; rfl
    obtain rfl : x₀ = x := Option.some.inj (hrun.symm.trans hx)
    exact absurd i.isLt (by omega)
  obtain ⟨ts, s, h, hend⟩ := exists_history count o
  obtain ⟨t, converges, ht⟩ := (h.verdict hend).exists_trial hfailure
  obtain rfl : t.point = x := Option.some.inj (ht.symm.trans hx)
  exact hij ((t.converges_iff_of_isNaN herror).1 converges i j)

end Float

/-- The run of the first trial on `steep` from one to zero reports a number as its objective. -/
theorem objective_of_converged_steep :
    let o : Options Float := { Options.standard with initialLambda := 0.109375, maxSteps := 1 }
    (minimize o steep #v[1.0]).report.failure = none
      ∧ (minimize o steep #v[1.0]).report.objective.isNaN = false := by
  intro o
  have hfailure : (minimize o steep #v[1.0]).report.failure = none := by decide +kernel
  obtain ⟨x, hx, -, -, hnumber⟩ := objective_of_converged hfailure
  have hpoint : (minimize o steep #v[1.0]).point = some #v[0.0] := by decide +kernel
  obtain rfl : x = #v[0.0] := Option.some.inj (hx.symm.trans hpoint)
  exact ⟨hfailure, hnumber ⟨⟨0, by decide⟩, 0, by decide +kernel⟩⟩

/-- The residual `10000000000 - 1 / (sqrt x * sqrt x)` and its derivative `1 / (x * x)`. The residual
is no number to the left of zero, and the derivative is small far from zero on either side. -/
def poleRow : Formulas.Row ["x"] where
  value := ⟨[.literal "10000000000" ⟨false, 10000000000, 0⟩, .literal "1" ⟨false, 1, 0⟩,
    .parameter "x" (Fin.last 0), .call (.elementary .sqrt), .parameter "x" (Fin.last 0),
    .call (.elementary .sqrt), .operator .mul, .operator .div, .operator .sub], rfl⟩
  derivatives := #v[⟨[.literal "1" ⟨false, 1, 0⟩, .parameter "x" (Fin.last 0),
    .parameter "x" (Fin.last 0), .operator .mul, .operator .div], rfl⟩]

/-- The first trial on `poleRow` goes from one far to the left of zero. The run ends there without a
failure, and its objective is no number. -/
theorem objective_of_converged_pole :
    let o : Options Float := { Options.standard with maxSteps := 1 }
    let r := minimize o (Formulas.problem [poleRow]) #v[1.0]
    r.report.failure = none ∧ r.point = some #v[-909090908.0]
      ∧ r.report.objective.isNaN = true := by
  decide +kernel

end LeastSquares.LevenbergMarquardt
