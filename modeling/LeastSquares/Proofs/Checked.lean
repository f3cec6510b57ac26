/-
LeastSquares.Proofs.Checked — nothing that the library checks can go wrong.

The library leaves its lengths and shapes to types. The modules of `Proofs.Checked` hold the same
program on plain data, where each of these is a check that may fault:

* the number of arguments of a tape, the index of a parameter, the pops of the machine, the height
  of the stack that is left (`Checked.Machine`);
* the rows of residuals and derivatives, and that there are as many of the one as of the other
  (`Checked.System`);
* the operands of sums, scalar products and products, and for systems of equations the square
  matrix and the length of the right-hand side (`Checked.Linear`, `Checked.LevenbergMarquardt`,
  `Checked.DogLeg`);
* the coordinates and columns of a numerical Jacobian (`Checked.Differentiation`).

`checks_succeed` puts them together: over at least one parameter no check fails, whatever
expressions were added, at whatever point and with whatever settings, and each result is the one
of the program with types. The only condition is a point with a coordinate for each parameter.
-/
import LeastSquares.Proofs.Checked.Differentiation
import LeastSquares.Proofs.Checked.DogLeg
import LeastSquares.Proofs.Checked.LevenbergMarquardt

namespace LeastSquares.Checked

/-- Over at least one parameter, any expressions can be added, and those that compile make up the
system. Its residuals and derivatives, its numerical Jacobian and the runs of both solvers are
computed without a fault from each point with a coordinate for each parameter. From any other point
the two evaluations fault, if there is a constraint. -/
theorem checks_succeed {K : Type} [Scalar K] {params : List String} (hparams : 0 < params.length)
    (expressions : List String) :
    let s : Constraints := ⟨params, compiled params expressions⟩
    (System.new params : System K).addAll expressions = .ok (.of s)
      ∧ (∀ x : Vec K params.length,
        (System.of s).valDers x.toList = .ok (.of (s.problem.evaluate x))
          ∧ (System.of s).residuals x.toList = .ok (s.problem.residuals x)
          ∧ (∃ a, numericJacobian (System.of s).problem x.toList = .ok a
            ∧ (LeastSquares.numericJacobian (M := Id) s.problem.evaluate x).run = .ok a)
          ∧ (∀ o, LevenbergMarquardt.minimize o (System.of s).problem x.toList
            = .ok (.of (LeastSquares.LevenbergMarquardt.minimize o s.problem x)))
          ∧ ∀ o, DogLeg.minimize o (System.of s).problem x.toList
            = .ok (.of (LeastSquares.DogLeg.minimize o s.problem x)))
      ∧ (s.tapes ≠ [] → ∀ x : List K, x.length ≠ params.length →
        (System.of s).valDers x = .error (.wrongLength params.length x.length)
          ∧ (System.of s).residuals x = .error (.wrongLength params.length x.length)) := by
  intro s
  have hs : (System.of s : System K).problem.Refines s.problem := System.refines s
  have steady (x y : Vec K params.length) :
      (s.problem.evaluate y).count = (s.problem.evaluate x).count := by
    simp [Constraints.problem, Evaluation.ofRows]
  refine ⟨System.addAll_of [] expressions, fun x => ?_, fun nonempty x hx => ?_⟩
  · exact ⟨System.valDers_of s x, System.residuals_of s x,
      ⟨_, numericJacobian_of (steady x) hs x⟩,
      fun o => LevenbergMarquardt.minimize_of hs hparams o x,
      fun o => DogLeg.minimize_of hs hparams o x⟩
  · exact ⟨System.valDers_of_wrongLength s nonempty hx,
      System.residuals_of_wrongLength s nonempty hx⟩

/-- A system from which one expression was refused, at a point where a derivative is infinite, and
the same system at a point that is too short. -/
theorem checks_succeed_at_infinite_slope :
    let params := ["x", "y"]
    let expressions := ["x y *", "x +", "x sqrt"]
    let s : Constraints := ⟨params, compiled params expressions⟩
    0 < params.length
      ∧ s.tapes.length = 2
      ∧ (System.new params : System Float).addAll expressions = .ok (.of s)
      ∧ (System.of s).valDers [0.0, 1.0] = .ok (.of (s.problem.evaluate #v[0.0, 1.0]))
      ∧ LevenbergMarquardt.minimize .standard (System.of s).problem [0.0, 1.0]
        = .ok (.of (LeastSquares.LevenbergMarquardt.minimize .standard s.problem #v[0.0, 1.0]))
      ∧ DogLeg.minimize .standard (System.of s).problem [0.0, 1.0]
        = .ok (.of (LeastSquares.DogLeg.minimize .standard s.problem #v[0.0, 1.0]))
      ∧ (System.of s).residuals ([0.0] : List Float) = .error (.wrongLength 2 1) := by
  intro params expressions s
  have hsize : s.tapes.length = 2 := by decide +kernel
  have nonempty : s.tapes ≠ [] := by
    rintro h
    simp [h] at hsize
  have hparams : 0 < params.length := by decide
  obtain ⟨hadd, hok, hfault⟩ := checks_succeed (K := Float) hparams expressions
  obtain ⟨hvalDers, -, -, hdamped, htrust⟩ := hok #v[0.0, 1.0]
  exact ⟨hparams, hsize, hadd, hvalDers, hdamped .standard, htrust .standard,
    (hfault nonempty [0.0] (by decide)).2⟩

end LeastSquares.Checked
