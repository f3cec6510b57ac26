/-
LeastSquares.DogLeg.Step — one step of the trust region method.

The path from the current point goes first along the steepest descent to the minimum of the
linear model in that direction, and from there straight to the Gauss-Newton point, where the
model has its minimum. The step follows the path as far as the trust region reaches.
-/
import LeastSquares.Linear.Sized
import LeastSquares.Problem.LinearModel

namespace LeastSquares.DogLeg

variable {K : Type} [Scalar K] {n : Nat}

/-- What is added on the diagonal of the normal matrix, so that it can be inverted. -/
def regularization : K := 1e-8

/-- The step to the minimum of the linear model. -/
def gaussNewton? (m : LinearModel K n) : Option (Vec K n) :=
  (m.shiftedNormal regularization).solve? (m.gradient.scale (-1))

/-- How far the minimum of the linear model lies along the steepest descent, as a multiple of the
gradient; zero if the model does not change in that direction. -/
def descentFactor (m : LinearModel K n) : K :=
  let curvature := (m.jacobian.mulVec m.gradient).normSq
  if 0 < curvature then m.gradient.normSq / curvature else 0

/-- The part of the way from `a` along `leg` that ends on the sphere of the given radius around
zero. Of the two ways to solve the quadratic equation the one without cancellation is taken. -/
def boundaryFraction (a leg : Vec K n) (radius : K) : K :=
  let c := a.dot leg
  let square := leg.normSq
  let rest := radius * radius - a.normSq
  let root := Scalar.sqrt (c * c + square * rest)
  if c ≤ 0 then (root - c) / square else rest / (c + root)

/-- The step along the path of the given Gauss-Newton and steepest descent steps. -/
def pathStep (newton descent : Vec K n) (factor radius : K) : Vec K n :=
  if newton.norm ≤ radius then newton
  else
    let a := descent.scale factor
    if radius ≤ a.norm then descent.scale (radius / descent.norm)
    else
      let leg := newton.sub a
      a.add (leg.scale (boundaryFraction a leg radius))

/-- The step that a linear model gives within the given radius. -/
def step? (m : LinearModel K n) (radius : K) : Option (Vec K n) :=
  (gaussNewton? m).map fun newton =>
    pathStep newton (m.gradient.scale (-1)) (descentFactor m) radius

/-- The decrease of the objective that the linear model promises for the step `h`. -/
def predictedGain (m : LinearModel K n) (h : Vec K n) : K :=
  -h.dot m.gradient - 0.5 * (m.jacobian.mulVec h).normSq

/-- The decrease of the objective, given the residuals after the step. -/
def actualGain (m : LinearModel K n) (residuals : List K) : K :=
  0.5 * m.error - 0.5 * Sized.normSq residuals

/-- The decrease in units of the promised one; zero if no decrease is promised. -/
def gainRatio (m : LinearModel K n) (h : Vec K n) (residuals : List K) : K :=
  let predicted := predictedGain m h
  if 0 < predicted then actualGain m residuals / predicted else 0

end LeastSquares.DogLeg
