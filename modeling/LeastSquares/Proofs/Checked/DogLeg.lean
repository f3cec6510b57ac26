/-
LeastSquares.Proofs.Checked.DogLeg — the trust region method on plain data.

Here the vectors of a step come from several places: the Gauss-Newton step out of a system of
equations, the steepest descent out of the gradient, the residuals of the trial out of the other
evaluation of the problem. They meet in sums, scalar products and products with the Jacobian, so
each of these checks lengths. One step from the data of a state with types leads to the data of
the next (`State.turn_of`), so no run faults (`minimize_of`).
-/
import LeastSquares.DogLeg.Minimize
import LeastSquares.Proofs.Checked.Linear

namespace LeastSquares.Checked.DogLeg

open LeastSquares.DogLeg (Options regularization)

variable {K : Type} [Scalar K] {n : Nat}

/-- Where a run stands between two steps. -/
structure State (K : Type) where
  point : List K
  current : Linearization K
  radius : K
  found : Bool
  steps : Nat
  evaluations : Nat

/-- What a run returns. -/
abbrev Outcome (K : Type) : Type := List K × Report K

/-- The outcome of one step. -/
inductive Turn (K : Type) where
  | stop (outcome : Outcome K)
  | go (state : State K)

/-- The step along the path of the given Gauss-Newton and steepest descent steps. -/
def pathStep (newton descent : List K) (factor radius : K) : Except Fault (List K) :=
  if Sized.norm newton ≤ radius then pure newton
  else
    let a := Sized.scaleVec descent factor
    if radius ≤ Sized.norm a then pure (Sized.scaleVec descent (radius / Sized.norm descent))
    else do
      let leg ← Sized.subVec newton a
      let c ← Sized.dot a leg
      let square := Sized.normSq leg
      let rest := radius * radius - Sized.normSq a
      let root := Scalar.sqrt (c * c + square * rest)
      let beta := if c ≤ 0 then (root - c) / square else rest / (c + root)
      Sized.addVec a (Sized.scaleVec leg beta)

/-- The step that a linear model gives within the given radius, unless it is singular. -/
def step? (identity : SizedMat K) (l : Linearization K) (radius : K) :
    Except Fault (Option (List K)) := do
  match ← shiftedSolve l identity regularization (Sized.scaleVec l.gradient (-1)) with
  | none => pure none
  | some newton =>
    let image ← Sized.mulVec l.jacobian l.gradient
    let curvature := Sized.normSq image
    let factor := if 0 < curvature then Sized.normSq l.gradient / curvature else 0
    let h ← pathStep newton (Sized.scaleVec l.gradient (-1)) factor radius
    pure (some h)

/-- The decrease of the objective in units of the promised one; zero if none is promised. -/
def gainRatio (l : Linearization K) (h residuals : List K) : Except Fault K := do
  let actual := 0.5 * l.error - 0.5 * Sized.normSq residuals
  let slope ← Sized.dot h l.gradient
  let image ← Sized.mulVec l.jacobian h
  let predicted := -slope - 0.5 * Sized.normSq image
  pure (if 0 < predicted then actual / predicted else 0)

namespace State

def fail (s : State K) : Outcome K :=
  (s.point, ⟨some .numerical, s.evaluations, s.steps, 0.5 * s.current.error⟩)

def finish (s : State K) : Outcome K :=
  (s.point, ⟨if s.found then none else some .lostPatience, s.evaluations, s.steps,
    0.5 * s.current.error⟩)

/-- Is the length small beside the current point? -/
def isNegligible (s : State K) (epsilon length : K) : Bool :=
  length ≤ epsilon * (Sized.norm s.point + epsilon)

/-- The state with the radius that fits the gain ratio of a step of the given length. -/
def resize (o : Options K) (s : State K) (length ratio : K) : State K :=
  if 0.75 < ratio then { s with radius := Scalar.max s.radius (3.0 * length) }
  else if ratio < 0.25 then
    let radius := s.radius / 2.0
    { s with radius := radius, found := s.found || s.isNegligible o.epsilon radius }
  else s

/-- The state after the residuals at a trial point have been asked for. -/
def tried (s : State K) : State K :=
  { s with evaluations := s.evaluations + 1 }

/-- The state at the accepted point `x` with its linear model. -/
def moved (o : Options K) (s : State K) (x : List K) (current : Linearization K) : State K :=
  { s with
    point := x
    current := current
    found := current.isStationary o.epsilon
    evaluations := s.evaluations + 1 }

/-- What an accepted step leads to: the run ends if its point is not usable. -/
def arrive (o : Options K) (s : State K) (length ratio : K) : Turn K :=
  if s.current.isFinite then .go (s.resize o length ratio) else .stop s.fail

/-- One step. -/
def turn (o : Options K) (q : Problem K) (identity : SizedMat K) (before : State K) :
    Except Fault (Turn K) := do
  let s := { before with steps := before.steps + 1 }
  match ← step? identity s.current s.radius with
  | none => pure (.stop s.fail)
  | some h =>
    let length := Sized.norm h
    if s.isNegligible o.epsilon length then pure (.stop { s with found := true }.finish)
    else
      let x ← Sized.addVec s.point h
      let residuals ← q.residuals x
      let ratio ← gainRatio s.current h residuals
      let t := s.tried
      if 0 < ratio then
        let v ← q.valDers x
        let current ← Linearization.new v
        pure (arrive o (t.moved o x current) length ratio)
      else pure (.go (t.resize o length ratio))

end State

/-- The run from a state on, with at most `budget` further steps. -/
def loop (o : Options K) (q : Problem K) (identity : SizedMat K) :
    (budget : Nat) → State K → Except Fault (Outcome K)
  | 0, s => pure s.finish
  | budget + 1, s =>
    if s.found then pure s.finish
    else do
      match ← s.turn o q identity with
      | .stop outcome => pure outcome
      | .go next => loop o q identity budget next

/-- Minimizes half the sum of the squared residuals, starting at `x₀`. -/
def minimize (o : Options K) (q : Problem K) (x₀ : List K) : Except Fault (Outcome K) := do
  let initial ← q.valDers x₀
  let current ← Linearization.new initial
  if current.residuals.isEmpty then pure (x₀, ⟨none, 1, 0, 0⟩)
  else if current.isFinite then
    let radius := o.delta0.getD (0.5 * Sized.normInf current.gradient)
    loop o q (Sized.identity x₀.length) o.maxSteps
      { point := x₀, current := current, radius := radius,
        found := current.isStationary o.epsilon, steps := 0, evaluations := 1 }
  else pure (x₀, ⟨some .numerical, 1, 0, 0.5 * current.error⟩)

/-! ## No run faults -/

/-- The data of a state. -/
def State.of (s : LeastSquares.DogLeg.State K n) : State K where
  point := s.point.toList
  current := .of s.model
  radius := s.radius
  found := s.found
  steps := s.steps
  evaluations := s.evaluations

/-- What is returned of a run. -/
def Outcome.of (run : LeastSquares.DogLeg.Run K n) : Outcome K :=
  (run.point.toList, run.report)

/-- The data of the outcome of a step. -/
def Turn.of : LeastSquares.DogLeg.Turn K n → Turn K
  | .stop run => .stop (.of run)
  | .go s => .go (.of s)

theorem pathStep_of (newton descent : Vec K n) (factor radius : K) :
    pathStep newton.toList descent.toList factor radius
      = .ok (LeastSquares.DogLeg.pathStep newton descent factor radius).toList := by
  simp only [pathStep, LeastSquares.DogLeg.pathStep, Sized.norm_toList, Sized.scaleVec_toList,
    Sized.subVec_toList, Sized.dot_toList, Sized.normSq_toList, Sized.addVec_toList, ok_bind]
  split
  · rfl
  · split <;> rfl

/-- The two steps that a path joins have the length of the gradient. -/
theorem step?_of (hn : 0 < n) (m : LinearModel K n) (radius : K) :
    step? (Sized.identity n) (.of m) radius
      = .ok ((LeastSquares.DogLeg.step? m radius).map Vector.toList) := by
  have hgradient : (Linearization.of m).gradient = m.gradient.toList := rfl
  have himage : Sized.mulVec (Linearization.of m).jacobian m.gradient.toList
      = .ok (m.jacobian.mulVec m.gradient).toList := Sized.mulVec_mk _ _
  simp only [step?, LeastSquares.DogLeg.step?, LeastSquares.DogLeg.gaussNewton?, hgradient, himage,
    Sized.scaleVec_toList, shiftedSolve_of hn, ok_bind]
  cases (m.shiftedNormal regularization).solve? (m.gradient.scale (-1)) with
  | none => rfl
  | some newton =>
    simp only [Option.map_some, pathStep_of, Sized.normSq_toList]
    rfl

theorem gainRatio_of (m : LinearModel K n) (h : Vec K n) (residuals : List K) :
    gainRatio (.of m) h.toList residuals = .ok (LeastSquares.DogLeg.gainRatio m h residuals) := by
  have hslope : Sized.dot h.toList (Linearization.of m).gradient = .ok (h.dot m.gradient) :=
    Sized.dot_toList _ _
  have himage : Sized.mulVec (Linearization.of m).jacobian h.toList
      = .ok (m.jacobian.mulVec h).toList := Sized.mulVec_mk _ _
  simp only [gainRatio, hslope, himage, Sized.normSq_toList, ok_bind]
  rfl

theorem State.isNegligible_of (s : LeastSquares.DogLeg.State K n) (epsilon length : K) :
    (of s).isNegligible epsilon length = s.isNegligible epsilon length := by
  have hnorm : Sized.norm (of s).point = s.point.norm := Sized.norm_toList _
  rw [isNegligible, hnorm]
  rfl

theorem State.resize_of (o : Options K) (s : LeastSquares.DogLeg.State K n) (length ratio : K) :
    (of s).resize o length ratio = of (s.resize o length ratio) := by
  simp only [resize, LeastSquares.DogLeg.State.resize, isNegligible_of]
  split
  · rfl
  · split <;> rfl

theorem State.moved_of (o : Options K) (s : LeastSquares.DogLeg.State K n) (x : Vec K n)
    (e : Evaluation K n) :
    (of s).moved o x.toList (.of (.ofEvaluation e)) = of (s.moved o x e) := by
  rw [moved, Linearization.isStationary_of]
  rfl

theorem State.arrive_of (o : Options K) (s : LeastSquares.DogLeg.State K n) (length ratio : K) :
    (of s).arrive o length ratio = .of (if s.model.isFinite then .go (s.resize o length ratio)
      else .stop (s.fail (.notFinite s.steps))) := by
  rw [arrive, resize_of, show (of s).current.isFinite = s.model.isFinite from rfl]
  split <;> rfl

/-- A step from the data of a state does not fault. -/
theorem State.turn_of {q : Problem K} {p : LeastSquares.Problem K n} (h : q.Refines p) (hn : 0 < n)
    (o : Options K) (s : LeastSquares.DogLeg.State K n) :
    (of s).turn o q (Sized.identity n) = .ok (.of (s.turn o p)) := by
  have hstep : step? (Sized.identity n) (of s).current (of s).radius
      = .ok ((LeastSquares.DogLeg.step? s.model s.radius).map Vector.toList) :=
    step?_of hn s.model s.radius
  simp only [turn, LeastSquares.DogLeg.State.turn, hstep, ok_bind]
  cases LeastSquares.DogLeg.step? s.model s.radius with
  | none => rfl
  | some step =>
    have hsum : Sized.addVec (of s).point step.toList = .ok (s.point.add step).toList :=
      Sized.addVec_toList _ _
    have hratio (residuals : List K) : gainRatio (of s).current step.toList residuals
        = .ok (LeastSquares.DogLeg.gainRatio s.model step residuals) := gainRatio_of _ _ _
    -- the step is counted before it is made
    have hsmall := isNegligible_of { s with steps := s.steps + 1 } o.epsilon step.norm
    simp only [Option.map_some, Sized.norm_toList, hsum, h.residuals, hratio, h.valDers,
      Linearization.new_of, ok_bind]
    generalize LeastSquares.DogLeg.gainRatio s.model step (p.residuals (s.point.add step)) = ratio
    by_cases hnegligible : LeastSquares.DogLeg.State.isNegligible { s with steps := s.steps + 1 }
        o.epsilon step.norm = true
    · rw [if_pos hnegligible]
      exact if_pos (hsmall.trans hnegligible)
    · rw [if_neg hnegligible]
      refine (if_neg (mt hsmall.symm.trans hnegligible)).trans ?_
      let t := LeastSquares.DogLeg.State.tried { s with steps := s.steps + 1 } (s.point.add step)
        step.norm ratio
      by_cases hgain : 0 < ratio
      · rw [if_pos hgain, if_pos hgain]
        refine (congrArg (fun u => Except.ok (arrive o u step.norm ratio))
          (moved_of o t (s.point.add step) (p.evaluate (s.point.add step)))).trans ?_
        rw [arrive_of]
      · rw [if_neg hgain, if_neg hgain]
        exact congrArg (fun u => Except.ok (Turn.go u)) (resize_of o t step.norm ratio)

theorem loop_of {q : Problem K} {p : LeastSquares.Problem K n} (h : q.Refines p) (hn : 0 < n)
    (o : Options K) (budget : Nat) (s : LeastSquares.DogLeg.State K n) :
    loop o q (Sized.identity n) budget (.of s)
      = .ok (.of (LeastSquares.DogLeg.loop o p budget s)) := by
  induction budget generalizing s with
  | zero => rfl
  | succ budget ih =>
    rw [loop, LeastSquares.DogLeg.loop, State.turn_of h hn,
      show (State.of s).found = s.found from rfl]
    cases s.found with
    | true => rfl
    | false =>
      cases s.turn o p with
      | stop run => rfl
      | go next => exact ih next

theorem loop_of_found {o : Options K} {q : Problem K} {identity : SizedMat K} {s : State K}
    (h : s.found = true) (budget : Nat) : loop o q identity budget s = .ok s.finish := by
  cases budget with
  | zero => rfl
  | succ budget => exact if_pos h

/-- No run on a problem with at least one unknown faults, and its outcome is that of the run with
types. -/
theorem minimize_of {q : Problem K} {p : LeastSquares.Problem K n} (h : q.Refines p) (hn : 0 < n)
    (o : Options K) (x₀ : Vec K n) :
    minimize o q x₀.toList = .ok (.of (LeastSquares.DogLeg.minimize o p x₀)) := by
  have hempty (m : LinearModel K n) :
      (Linearization.of m).residuals.isEmpty = true ↔ m.count = 0 := by
    simp [Linearization.of, List.isEmpty_iff, ← List.length_eq_zero_iff]
  rw [minimize, h.valDers, LeastSquares.DogLeg.minimize]
  simp only [ok_bind, Linearization.new_of, LeastSquares.DogLeg.opening]
  generalize LinearModel.ofEvaluation (p.evaluate x₀) = m
  by_cases hcount : m.count = 0
  · rw [if_pos ((hempty m).2 hcount), if_pos hcount]
    rfl
  · rw [if_neg (mt (hempty m).1 hcount), if_neg hcount, Linearization.isFinite_of]
    cases m.isFinite with
    | false => rfl
    | true =>
      rw [Linearization.isStationary_of, Vector.length_toList]
      cases m.isStationary o.epsilon with
      | true => exact loop_of_found rfl o.maxSteps
      | false =>
        -- the radius of the first step is taken from the gradient as a list
        have hradius : Sized.normInf (Linearization.of m).gradient = m.gradient.normInf :=
          Sized.normInf_toList _
        rw [hradius]
        exact loop_of h hn o o.maxSteps
          { point := x₀, model := m, radius := o.delta0.getD (0.5 * m.gradient.normInf),
            found := false, steps := 0, evaluations := 1, requests := #[.evaluation x₀],
            notes := #[] }

end LeastSquares.Checked.DogLeg
