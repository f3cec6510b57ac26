/-
LeastSquares.Proofs.DogLeg.Constraints — descent where the two evaluations differ.

On a set of constraints the residuals of a trial come from the plain evaluation of the expressions
and those of an iterate from the dual one. A trial is accepted if its plain error is smaller than
the dual error of the iterate. Where it is accepted its dual error becomes the current one, and
nothing has compared that with anything. The reported objective is not larger than the one at the
initial point if no accepted point has a larger dual error than plain error, and so in any case if
no expression has an extremum and no divisor is zero at an accepted point
(`constraints_objective_le`). It is larger where a step ends on a zero of a divisor
(`constraints_objective_gt_at_pole`).
-/
import LeastSquares.Proofs.Agreement
import LeastSquares.Proofs.DogLeg.Descent

namespace LeastSquares.DogLeg

open Postfix

/-- Where residuals and gradient are finite, the objective is a number. -/
theorem isNaN_objective {K : Type} [Scalar K] [OrderedScalar K] {n : Nat} {p : Problem K n}
    {x : Vec K n} (finite : (LinearModel.ofEvaluation (p.evaluate x)).isFinite = true) :
    Scalar.isNaN (0.5 * p.error x) = false := by
  rw [OrderedScalar.isNaN_half]
  refine Vec.isNaN_normSq fun r hr => OrderedScalar.isNaN_of_isFinite ?_
  obtain ⟨hresiduals, -⟩ := Bool.and_eq_true_iff.1 finite
  exact List.all_eq_true.1 hresiduals r hr

/-- An expression without extrema, at a point where no divisor is zero. -/
def SameEvaluations {params : List String} (x : Vec Float params.length) (t : Tape params) : Prop :=
  (∀ m, .call (.extremum m) ∉ t.code) ∧ t.tree.NoZeroDivisor x

/-- From a point with finite residuals and gradient, each accepted point has a smaller plain error
than the dual error of the point before. If no accepted point has a larger dual error than plain
error, the reported objective is not larger than the one at the initial point; the two errors are
the same wherever no expression has an extremum or a zero divisor. -/
theorem constraints_objective_le (o : Options Float) (s : Constraints)
    (x₀ : Vec Float s.params.length)
    (finite : (LinearModel.ofEvaluation (s.problem.evaluate x₀)).isFinite = true) :
    let p : Problem Float s.params.length := s.problem
    let r := minimize o p x₀
    let accepted := (iterates r.requests).tail
    Descending p (iterates r.requests)
      ∧ ((∀ x ∈ accepted, p.error x ≤ p.plainError x) → r.report.objective ≤ 0.5 * p.error x₀)
      ∧ ((∀ x ∈ accepted, ∀ t ∈ s.tapes, SameEvaluations x t) →
        r.report.objective ≤ 0.5 * p.error x₀) := by
  intro p r accepted
  have descending : Descending p (iterates r.requests) := descending_minimize o p x₀
  have hnan : (0.5 * p.error x₀).isNaN = false := isNaN_objective finite
  refine ⟨descending, fun hle => ?_, fun same => ?_⟩
  · exact objective_le (descending.pairwise fun x hx _ => hle x hx) hnan
  · refine objective_le (descending.pairwise fun x hx hnumber => ?_) hnan
    have hresiduals : (p.evaluate x).residuals.toList = p.residuals x :=
      evaluations_agree.2 s x (same x hx)
    have herror : p.plainError x = p.error x := by
      rw [Problem.plainError, ← hresiduals, Sized.normSq_toList, Problem.error]
    rw [← herror]
    exact OrderedScalar.le_refl hnumber

/-- The residual `1 / x`. -/
def reciprocal : Constraints :=
  ⟨["x"], [⟨[.literal "1" ⟨false, 1, 0⟩, .parameter "x" (Fin.last 0), .operator .div], rfl⟩]⟩

/-- From one, the first step on `reciprocal` leads away from the pole. -/
theorem constraints_objective_le_reciprocal :
    let o : Options Float := { Options.standard with delta0 := some 0.5, maxSteps := 1 }
    let p : Problem Float 1 := reciprocal.problem
    (LinearModel.ofEvaluation (p.evaluate #v[1.0])).isFinite = true
      ∧ iterates (minimize o p #v[1.0]).requests = [#v[1.0], #v[1.5]]
      ∧ (minimize o p #v[1.0]).report.objective ≤ 0.5 * p.error #v[1.0] := by
  intro o p
  have finite : (LinearModel.ofEvaluation (p.evaluate #v[1.0])).isFinite = true := by
    decide +kernel
  have hiterates : iterates (minimize o p #v[1.0]).requests = [#v[1.0], #v[1.5]] := by
    decide +kernel
  refine ⟨finite, hiterates, (constraints_objective_le o reciprocal #v[1.0] finite).2.2 ?_⟩
  intro x hx t ht
  replace hx : x ∈ (iterates (minimize o p #v[1.0]).requests).tail := hx
  rw [hiterates] at hx
  obtain rfl : x = #v[1.5] := List.mem_singleton.1 hx
  obtain rfl := List.mem_singleton.1 ht
  refine ⟨fun m => ?_, trivial, trivial, fun _ => by decide +kernel⟩
  cases m <;> decide

/-- The residuals `x + 3` and `10⁻¹² / x`. At zero the second one is `10⁻²` in plain numbers and
`10³` in dual ones. -/
def pole : Constraints :=
  ⟨["x"], [⟨[.parameter "x" (Fin.last 0), .literal "3" ⟨false, 3, 0⟩, .operator .add], rfl⟩,
    ⟨[.literal "0.000000000001" ⟨false, 1, 12⟩, .parameter "x" (Fin.last 0), .operator .div],
      rfl⟩]⟩

/-- From one, the first step on `pole` leads to zero. The plain error there is smaller, so the step
is accepted, and the objective that is reported is more than sixty thousand times as large as the
one at the initial point. -/
theorem constraints_objective_gt_at_pole :
    let o : Options Float := { Options.standard with delta0 := some 1.0, maxSteps := 1 }
    let p : Problem Float 1 := pole.problem
    Constraints.ofExpressions ["x"] ["x 3 +", "0.000000000001 x /"] = .ok pole
      ∧ (LinearModel.ofEvaluation (p.evaluate #v[1.0])).isFinite = true
      ∧ (minimize o p #v[1.0]).point = #v[0.0]
      ∧ 0.5 * p.error #v[1.0] = 8.0
      ∧ 500000.0 < (minimize o p #v[1.0]).report.objective
      ∧ ¬ (minimize o p #v[1.0]).report.objective ≤ 0.5 * p.error #v[1.0] := by
  intro o p
  exact ⟨rfl, by decide +kernel, by decide +kernel, by decide +kernel, by decide +kernel,
    by decide +kernel⟩

end LeastSquares.DogLeg
