import LeastSquares.DogLeg.Minimize
import LeastSquares.Dual
import LeastSquares.Fault
import LeastSquares.LevenbergMarquardt.Minimize
import LeastSquares.Linear.Sized
import LeastSquares.Postfix.Compile
import LeastSquares.Postfix.Evaluation
import LeastSquares.Problem.Constraints
import LeastSquares.Problem.Differentiation
import LeastSquares.Problem.Formulas
import LeastSquares.Problem.LinearModel
import LeastSquares.Proofs.Agreement
import LeastSquares.Proofs.Budget
import LeastSquares.Proofs.Checked
import LeastSquares.Proofs.Checked.Differentiation
import LeastSquares.Proofs.Checked.DogLeg
import LeastSquares.Proofs.Checked.LevenbergMarquardt
import LeastSquares.Proofs.Checked.Linear
import LeastSquares.Proofs.Checked.Machine
import LeastSquares.Proofs.Checked.System
import LeastSquares.Proofs.Compilation
import LeastSquares.Proofs.ConstantOperands
import LeastSquares.Proofs.Constraints
import LeastSquares.Proofs.Diagnosis
import LeastSquares.Proofs.Differentiation
import LeastSquares.Proofs.DogLeg.Affine
import LeastSquares.Proofs.DogLeg.Constraints
import LeastSquares.Proofs.DogLeg.Descent
import LeastSquares.Proofs.DogLeg.Exact
import LeastSquares.Proofs.DogLeg.Gain
import LeastSquares.Proofs.DogLeg.History
import LeastSquares.Proofs.DogLeg.Path
import LeastSquares.Proofs.DogLeg.Radius
import LeastSquares.Proofs.DogLeg.Region
import LeastSquares.Proofs.DogLeg.Trajectory
import LeastSquares.Proofs.DogLeg.Verdict
import LeastSquares.Proofs.Double
import LeastSquares.Proofs.Double.Arithmetic
import LeastSquares.Proofs.Double.Bounds
import LeastSquares.Proofs.Double.Order
import LeastSquares.Proofs.Double.Rounding
import LeastSquares.Proofs.Double.SignedZero
import LeastSquares.Proofs.Double.Special
import LeastSquares.Proofs.Dual
import LeastSquares.Proofs.Elimination
import LeastSquares.Proofs.Exact
import LeastSquares.Proofs.Exact.Differentiation
import LeastSquares.Proofs.Exact.Discrepancy
import LeastSquares.Proofs.Exact.DualNumbers
import LeastSquares.Proofs.Exact.Elimination
import LeastSquares.Proofs.Exact.Linear
import LeastSquares.Proofs.Exact.Normal
import LeastSquares.Proofs.Exact.Settings
import LeastSquares.Proofs.Exact.SmoothExtrema
import LeastSquares.Proofs.Exact.Systems
import LeastSquares.Proofs.Expression
import LeastSquares.Proofs.Gradient
import LeastSquares.Proofs.GradientLength
import LeastSquares.Proofs.Halving
import LeastSquares.Proofs.LevenbergMarquardt.Affine
import LeastSquares.Proofs.LevenbergMarquardt.Decrease
import LeastSquares.Proofs.LevenbergMarquardt.Exact
import LeastSquares.Proofs.LevenbergMarquardt.Iterates
import LeastSquares.Proofs.LevenbergMarquardt.Termination
import LeastSquares.Proofs.LevenbergMarquardt.Trajectory
import LeastSquares.Proofs.LevenbergMarquardt.Verdict
import LeastSquares.Proofs.Literals
import LeastSquares.Proofs.Log
import LeastSquares.Proofs.Loop
import LeastSquares.Proofs.Norms
import LeastSquares.Proofs.Objective
import LeastSquares.Proofs.Ordered
import LeastSquares.Proofs.Parametricity
import LeastSquares.Proofs.Renaming
import LeastSquares.Proofs.Reordering
import LeastSquares.Proofs.Requests
import LeastSquares.Proofs.RoundTrip
import LeastSquares.Proofs.Singularities
import LeastSquares.Proofs.Solvability
import LeastSquares.Proofs.UnusedParameters
import LeastSquares.Scalar
import LeastSquares.Source
import LeastSquares.Text.Quoted
import LeastSquares.Text.Scientific
import LeastSquares.Text.Words
