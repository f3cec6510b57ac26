/-
LeastSquares.DogLeg.Minimize — Powell's trust region method.

Each step stays within the current radius. It is accepted if the objective decreases; the radius
grows if the linear model was a good guide, and is halved if it was a bad one. The run ends when
residuals or gradient are small, or the step or the radius is small beside the point.

A run is a sequence of states. `opening` decides whether there is anything to do, `turn` is one
step, and `loop` repeats it within the step budget.
-/
import LeastSquares.DogLeg.Note
import LeastSquares.DogLeg.Options
import LeastSquares.DogLeg.Step

namespace LeastSquares.DogLeg

/-- Where a run stands between two steps. -/
structure State (K : Type) (n : Nat) where
  point : Vec K n
  /-- The linear model at the point. -/
  model : LinearModel K n
  radius : K
  /-- A test for convergence has been met. -/
  found : Bool
  steps : Nat
  evaluations : Nat
  /-- What the problem has been asked for so far. -/
  requests : Array (Request K n)
  notes : Array (Note K)

/-- A finished run. -/
structure Run (K : Type) (n : Nat) where
  point : Vec K n
  report : Report K
  requests : Array (Request K n)
  notes : Array (Note K)

/-- The outcome of one step. -/
inductive Turn (K : Type) (n : Nat) where
  | stop (run : Run K n)
  | go (state : State K n)

variable {K : Type} [Scalar K] {n : Nat}

namespace State

/-- The end of a run that has failed at its last step. -/
def fail (s : State K n) (note : Note K) : Run K n where
  point := s.point
  report := ⟨some .numerical, s.evaluations, s.steps, 0.5 * s.model.error⟩
  requests := s.requests
  notes := s.notes.push note

/-- The end of a run that has converged or used up its budget. -/
def finish (s : State K n) : Run K n where
  point := s.point
  report := ⟨if s.found then none else some .lostPatience, s.evaluations, s.steps,
    0.5 * s.model.error⟩
  requests := s.requests
  notes := if s.found then s.notes else s.notes.push (.outOfSteps s.steps s.model.error)

/-- Is the length small beside the current point? -/
def isNegligible (s : State K n) (epsilon length : K) : Bool :=
  length ≤ epsilon * (s.point.norm + epsilon)

/-- The state with the radius that fits the gain ratio of a step of the given length. -/
def resize (o : Options K) (s : State K n) (length ratio : K) : State K n :=
  if 0.75 < ratio then { s with radius := Scalar.max s.radius (3.0 * length) }
  else if ratio < 0.25 then
    let radius := s.radius / 2.0
    { s with radius := radius, found := s.found || s.isNegligible o.epsilon radius }
  else s

/-- The state after the residuals at `x` have been asked for. -/
def tried (s : State K n) (x : Vec K n) (length ratio : K) : State K n :=
  { s with
    evaluations := s.evaluations + 1
    requests := s.requests.push (.residuals x)
    notes := s.notes.push (.trial s.steps s.radius length ratio) }

/-- The state at the accepted point `x`, where the problem gave `e`. -/
def moved (o : Options K) (s : State K n) (x : Vec K n) (e : Evaluation K n) : State K n :=
  let model := LinearModel.ofEvaluation e
  { s with
    point := x
    model := model
    found := model.isStationary o.epsilon
    evaluations := s.evaluations + 1
    requests := s.requests.push (.evaluation x) }

/-- One step. -/
def turn (o : Options K) (p : Problem K n) (before : State K n) : Turn K n :=
  let s := { before with steps := before.steps + 1 }
  match step? s.model s.radius with
  | none => .stop (s.fail (.singular s.steps))
  | some h =>
    let length := h.norm
    if s.isNegligible o.epsilon length then .stop { s with found := true }.finish
    else
      let x := s.point.add h
      let ratio := gainRatio s.model h (p.residuals x)
      let t := s.tried x length ratio
      if 0 < ratio then
        let u := t.moved o x (p.evaluate x)
        if u.model.isFinite then .go (u.resize o length ratio)
        else .stop (u.fail (.notFinite u.steps))
      else .go (t.resize o length ratio)

end State

/-- The run from a state on, with at most `budget` further steps. -/
def loop (o : Options K) (p : Problem K n) : (budget : Nat) → State K n → Run K n
  | 0, s => s.finish
  | budget + 1, s =>
    if s.found then s.finish
    else match s.turn o p with
      | .stop run => run
      | .go next => loop o p budget next

/-- What the first evaluation leads to. -/
inductive Opening (K : Type) (n : Nat) where
  | stop (run : Run K n)
  /-- Steps are needed, the first one within the given radius. -/
  | go (radius : K)

/-- A run that ends at its initial point. -/
def Run.atStart (x₀ : Vec K n) (failure : Option Failure) (objective : K)
    (notes : Array (Note K)) : Run K n where
  point := x₀
  report := ⟨failure, 1, 0, objective⟩
  requests := #[.evaluation x₀]
  notes := notes

/-- Looks at the linear model at the initial point. -/
def opening (o : Options K) (x₀ : Vec K n) (m : LinearModel K n) : Opening K n :=
  if m.count = 0 then .stop (.atStart x₀ none 0 #[])
  else if m.isFinite then
    if m.isStationary o.epsilon then .stop (.atStart x₀ none (0.5 * m.error) #[])
    else .go (o.delta0.getD (0.5 * m.gradient.normInf))
  else .stop (.atStart x₀ (some .numerical) (0.5 * m.error) #[.notFiniteAtStart])

/-- Minimizes half the sum of the squared residuals, starting at `x₀`. -/
def minimize (o : Options K) (p : Problem K n) (x₀ : Vec K n) : Run K n :=
  let m := LinearModel.ofEvaluation (p.evaluate x₀)
  match opening o x₀ m with
  | .stop run => run
  | .go radius => loop o p o.maxSteps
      { point := x₀, model := m, radius := radius, found := false, steps := 0, evaluations := 1,
        requests := #[.evaluation x₀], notes := #[] }

end LeastSquares.DogLeg
