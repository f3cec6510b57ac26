/-
LeastSquares.Proofs.Reordering — the order of residuals and parameters.

In exact arithmetic a sum does not depend on the order of its terms, and a system of equations with
a single solution has the same one in whatever order the equations and the unknowns stand. So if
the residuals of a problem change places, and its parameters, then the linear model of every point
is the old one with its entries in other places (`LinearModel.Reordered`), each step of a solver
leads to the point with its coordinates in the new order, and all numbers that the solvers compare
are the same. Step after step both runs stay in line (`LevenbergMarquardt.loop_reindex`,
`DogLeg.loop_reindex`), which makes them the same up to the order of the coordinates
(`minimize_reordered`).

In rounded arithmetic none of this holds, not even for the sum of three numbers.
-/
import Mathlib
import LeastSquares.Problem.Constraints
import LeastSquares.Proofs.DogLeg.Trajectory
import LeastSquares.Proofs.Exact.Elimination
import LeastSquares.Proofs.LevenbergMarquardt.Trajectory

namespace LeastSquares

/-! ## Vectors and matrices with their entries in another order

Entries are put into another order by reading them through an equivalence of their places. For the
coordinates of a point that is a permutation. For residuals it is an equivalence between two types,
since each evaluation has a number of residuals of its own. -/

/-- The vector whose entry `i` is entry `τ i` of `v`. -/
def Vec.reindex {α : Type} {m n : Nat} (τ : Fin m ≃ Fin n) (v : Vec α n) : Vec α m :=
  Vector.ofFn fun i => v.get (τ i)

/-- The matrix whose entry `i`, `j` is entry `τ i`, `σ j` of `a`. -/
def Mat.reindex {α : Type} {k l m n : Nat} (τ : Fin k ≃ Fin m) (σ : Fin l ≃ Fin n) (a : Mat α m n) :
    Mat α k l :=
  Mat.ofFn fun i j => a.entry (τ i) (σ j)

@[simp] theorem Vec.get_reindex {α : Type} {m n : Nat} (τ : Fin m ≃ Fin n) (v : Vec α n)
    (i : Fin m) : (v.reindex τ).get i = v.get (τ i) := by
  simp [reindex]

@[simp] theorem Mat.entry_reindex {α : Type} {k l m n : Nat} (τ : Fin k ≃ Fin m) (σ : Fin l ≃ Fin n)
    (a : Mat α m n) (i : Fin k) (j : Fin l) : (a.reindex τ σ).entry i j = a.entry (τ i) (σ j) := by
  simp [reindex]

theorem Vec.reindex_one {α : Type} {n : Nat} (v : Vec α n) :
    v.reindex (1 : Equiv.Perm (Fin n)) = v :=
  ext_get fun i => get_reindex _ v i

theorem Vec.toList_reindex_perm {α : Type} {n : Nat} (σ : Equiv.Perm (Fin n)) (v : Vec α n) :
    (v.reindex σ).toList.Perm v.toList := by
  have hlist : v.toList = List.ofFn v.get := by
    rw [← Vector.toList_ofFn]
    exact congrArg Vector.toList (ext_get fun i => (get_ofFn v.get i).symm)
  rw [reindex, Vector.toList_ofFn, hlist]
  exact σ.ofFn_comp_perm v.get

section Algebra

/-! ### The operations of the solvers

What is computed place by place is reordered along with its operands. What takes all entries of a
vector or of a row together is a sum, a maximum or a test, and the same in every order, as long as
the entries that belong together stay together. -/

variable {k l m n : Nat}

namespace Vec

variable (τ : Fin m ≃ Fin n) (a b : Vec ℝ n)

theorem add_reindex : (a.reindex τ).add (b.reindex τ) = (a.add b).reindex τ :=
  ext_get fun i => by simp

theorem sub_reindex : (a.reindex τ).sub (b.reindex τ) = (a.sub b).reindex τ :=
  ext_get fun i => by simp

theorem scale_reindex (c : ℝ) : (a.reindex τ).scale c = (a.scale c).reindex τ :=
  ext_get fun i => by simp

/-- A sum over all places, the same in every order. -/
theorem dot_reindex : (a.reindex τ).dot (b.reindex τ) = a.dot b := by
  simp only [dot_eq, dotProduct, get_reindex]
  exact Equiv.sum_comp τ fun i => a.get i * b.get i

theorem normSq_reindex : (a.reindex τ).normSq = a.normSq :=
  dot_reindex τ a a

theorem norm_reindex : (a.reindex τ).norm = a.norm :=
  congrArg Scalar.sqrt (normSq_reindex τ a)

/-- The numbers that bound all entries are the same in every order, so the least of them is. -/
theorem normInf_reindex : (a.reindex τ).normInf = a.normInf := by
  refine eq_of_forall_ge_iff fun c => ?_
  rw [normInf_le_iff_abs, normInf_le_iff_abs]
  simp only [get_reindex]
  exact and_congr_right' (τ.forall_congr fun i => Iff.rfl)

end Vec

namespace Mat

variable (τ : Fin k ≃ Fin m) (σ : Fin l ≃ Fin n)

theorem transpose_reindex (a : Mat ℝ m n) : (a.reindex τ σ).transpose = a.transpose.reindex σ τ :=
  ext_entry fun i j => by simp

theorem identity_reindex (σ : Fin n ≃ Fin n) :
    (identity n : Mat ℝ n n).reindex σ σ = identity n :=
  ext_entry fun i j => by simp

/-- The columns of the one matrix and the rows of the other have to be in the same order. -/
theorem mul_reindex {p q : Nat} (υ : Fin q ≃ Fin p) (a : Mat ℝ m n) (b : Mat ℝ n p) :
    (a.reindex τ σ).mul (b.reindex σ υ) = (a.mul b).reindex τ υ := by
  refine ext_entry fun i j => ?_
  simp only [entry_mul, entry_reindex, chainSum_finRange]
  exact Equiv.sum_comp σ fun c => a.entry (τ i) c * b.entry c (υ j)

theorem mulVec_reindex (a : Mat ℝ m n) (v : Vec ℝ n) :
    (a.reindex τ σ).mulVec (v.reindex σ) = (a.mulVec v).reindex τ := by
  refine Vec.ext_get fun i => ?_
  simp only [get_mulVec, Vec.get_reindex, entry_reindex, chainSum_finRange]
  exact Equiv.sum_comp σ fun c => a.entry (τ i) c * v.get c

theorem all_entryList_reindex (a : Mat ℝ m n) (test : ℝ → Bool) :
    (a.reindex τ σ).entryList.all test = a.entryList.all test := by
  rw [Bool.eq_iff_iff, List.all_eq_true, List.all_eq_true, forall_mem_entryList,
    forall_mem_entryList]
  simp only [entry_reindex]
  exact τ.forall_congr fun i => σ.forall_congr fun j => Iff.rfl

/-- With the equations and the unknowns in another order elimination takes other pivots, but it
solves the same system. -/
theorem solve?_reindex (σ : Fin n ≃ Fin n) (a : Mat ℝ n n) (b : Vec ℝ n) :
    (a.reindex σ σ).solve? (b.reindex σ) = (a.solve? b).map (Vec.reindex σ) := by
  have hmatrix : (a.reindex σ σ).toMatrix = a.toMatrix.submatrix σ σ := by
    ext i j
    simp
  -- rows and columns change places alike, which leaves the determinant as it is
  have hdet : (a.reindex σ σ).toMatrix.det = a.toMatrix.det := by
    rw [hmatrix, Matrix.det_submatrix_equiv_self]
  cases hx : a.solve? b with
  | none =>
    rw [Option.map_none]
    rw [solve?_eq_none_iff] at hx ⊢
    exact hdet.trans hx
  | some x =>
    rw [Option.map_some]
    rw [solve?_eq_some_iff] at hx ⊢
    rw [← get_mulVec_eq] at hx ⊢
    -- the reordered solution solves the reordered equations, and these have only one
    refine ⟨hdet ▸ hx.1, ?_⟩
    rw [mulVec_reindex, Vec.ext_get (congrFun hx.2)]

end Mat

end Algebra

/-- A list has the same sum of squares in any order. -/
theorem Sized.normSq_perm {xs ys : List ℝ} (h : xs.Perm ys) : normSq xs = normSq ys := by
  have sum (xs : List ℝ) : normSq xs = (xs.map fun x => x * x).sum := by
    simp [normSq, vec, Vec.normSq, Vec.dot, laneSum_eq_sum]
  rw [sum, sum]
  exact (h.map _).sum_eq

/-! ## Problems

The order of the residuals may be another one at each point, and another one when they are asked for
without the Jacobian. Nobody sees it but the sums that are made of the residuals: the entries of the
normal equations and of the gradient are such sums, and so are the errors. -/

variable {n : Nat} {σ : Equiv.Perm (Fin n)}

section Problems

variable {K : Type}

/-- A request at the reordered point. -/
def Request.reindex (σ : Equiv.Perm (Fin n)) : Request K n → Request K n
  | .evaluation x => .evaluation (x.reindex σ)
  | .residuals x => .residuals (x.reindex σ)

theorem Request.reindex_one : (reindex 1 : Request K n → Request K n) = id := by
  funext r
  cases r <;> simp [reindex, Vec.reindex_one]

/-- `e'` has the residuals of `e` in some order, with their rows of the Jacobian, and the columns of
the Jacobian are in the order `σ`. -/
def Evaluation.Reordered (σ : Equiv.Perm (Fin n)) (e e' : Evaluation K n) : Prop :=
  ∃ τ : Fin e'.count ≃ Fin e.count,
    e'.residuals = e.residuals.reindex τ ∧ e'.jacobian = e.jacobian.reindex τ σ

/-- `q` is the problem `p` with its parameters in the order `σ` and its residuals in some order, be
they asked for with the Jacobian or alone. -/
structure Problem.Reordered (σ : Equiv.Perm (Fin n)) (p q : Problem K n) : Prop where
  evaluate (x : Vec K n) : (p.evaluate x).Reordered σ (q.evaluate (x.reindex σ))
  residuals (x : Vec K n) : (q.residuals (x.reindex σ)).Perm (p.residuals x)

end Problems

/-- The linear model `m'` is `m`, with its entries in other places. -/
structure LinearModel.Reordered (σ : Equiv.Perm (Fin n)) (m m' : LinearModel ℝ n) : Prop where
  rows : ∃ τ : Fin m'.count ≃ Fin m.count,
    m'.residuals = m.residuals.reindex τ ∧ m'.jacobian = m.jacobian.reindex τ σ
  normal : m'.normal = m.normal.reindex σ σ
  gradient : m'.gradient = m.gradient.reindex σ
  error : m'.error = m.error

namespace Evaluation.Reordered

variable {e e' : Evaluation ℝ n}

theorem normSq_eq (h : e.Reordered σ e') : e'.residuals.normSq = e.residuals.normSq := by
  obtain ⟨τ, hresiduals, -⟩ := h
  rw [hresiduals, Vec.normSq_reindex]

/-- A test of all partial derivatives finds the same ones. -/
theorem all_entryList_eq (h : e.Reordered σ e') (test : ℝ → Bool) :
    e'.jacobian.entryList.all test = e.jacobian.entryList.all test := by
  obtain ⟨τ, -, hjacobian⟩ := h
  rw [hjacobian, Mat.all_entryList_reindex]

/-- The order of the residuals is gone in the normal equations, that of the parameters is not. -/
theorem model (h : e.Reordered σ e') :
    (LinearModel.ofEvaluation e).Reordered σ (.ofEvaluation e') where
  rows := h
  normal := by
    obtain ⟨τ, -, hjacobian⟩ := h
    show e'.jacobian.transpose.mul e'.jacobian = (e.jacobian.transpose.mul e.jacobian).reindex σ σ
    rw [hjacobian, Mat.transpose_reindex, Mat.mul_reindex]
  gradient := by
    obtain ⟨τ, hresiduals, hjacobian⟩ := h
    show e'.jacobian.transpose.mulVec e'.residuals
      = (e.jacobian.transpose.mulVec e.residuals).reindex σ
    rw [hresiduals, hjacobian, Mat.transpose_reindex, Mat.mulVec_reindex]
  error := h.normSq_eq

end Evaluation.Reordered

namespace LinearModel.Reordered

variable {m m' : LinearModel ℝ n}

theorem count_eq (h : m.Reordered σ m') : m'.count = m.count := by
  obtain ⟨τ, -, -⟩ := h.rows
  exact Fin.equiv_iff_eq.1 ⟨τ⟩

/-- The shift is on the diagonal, and stays there. -/
theorem shiftedNormal (h : m.Reordered σ m') (shift : ℝ) :
    m'.shiftedNormal shift = (m.shiftedNormal shift).reindex σ σ := by
  refine Mat.ext_entry fun i j => ?_
  simp [LinearModel.shiftedNormal, h.normal]

theorem isStationary_eq (h : m.Reordered σ m') (epsilon : ℝ) :
    m'.isStationary epsilon = m.isStationary epsilon := by
  obtain ⟨τ, hresiduals, -⟩ := h.rows
  simp only [isStationary, hresiduals, h.gradient, Vec.normInf_reindex]

/-- The length of what the Jacobian makes of a vector. -/
theorem normSq_mulVec (h : m.Reordered σ m') (v : Vec ℝ n) :
    (m'.jacobian.mulVec (v.reindex σ)).normSq = (m.jacobian.mulVec v).normSq := by
  obtain ⟨τ, -, hjacobian⟩ := h.rows
  rw [hjacobian, Mat.mulVec_reindex, Vec.normSq_reindex]

end LinearModel.Reordered

/-! ## The damped method

Two runs are in line when all points of the one are the reordered points of the other and all
numbers are the same. This says nothing about the order of the residuals, so the linear model of the
second run is only known to be a reordered one. The reordered state therefore takes its model as an
argument, `m` in `State.reindex σ m`, and a step has to find the model of the next state. -/

namespace LevenbergMarquardt

/-- The state with all coordinates reordered, and with the linear model that belongs to it. -/
def State.reindex (σ : Equiv.Perm (Fin n)) (m : LinearModel ℝ n) (s : State ℝ n) : State ℝ n :=
  { s with
    point := s.point.reindex σ
    model := m
    trial := s.trial.reindex σ
    requests := s.requests.map (Request.reindex σ) }

/-- The run with all coordinates reordered: what was decided and counted stays. -/
def Run.reindex (σ : Equiv.Perm (Fin n)) (r : Run ℝ n) : Run ℝ n :=
  { r with
    point := r.point.map (Vec.reindex σ)
    requests := r.requests.map (Request.reindex σ) }

theorem Run.reindex_one (r : Run ℝ n) : r.reindex 1 = r := by
  have hpoint : (Vec.reindex 1 : Vec ℝ n → Vec ℝ n) = id := funext Vec.reindex_one
  simp [reindex, Request.reindex_one, hpoint]

variable {s : State ℝ n} {m : LinearModel ℝ n}

/-- The step is the solution of reordered equations. -/
theorem State.trialPoint?_reindex (h : s.model.Reordered σ m) :
    (s.reindex σ m).trialPoint? = s.trialPoint?.map (Vec.reindex σ) := by
  have hsolve : (m.shiftedNormal s.lambda).solve? m.gradient
      = ((s.model.shiftedNormal s.lambda).solve? s.model.gradient).map (Vec.reindex σ) := by
    rw [h.shiftedNormal, h.gradient, Mat.solve?_reindex]
  simp only [trialPoint?, reindex, hsolve]
  cases (s.model.shiftedNormal s.lambda).solve? s.model.gradient with
  | none => rfl
  | some d => simp [Exact.any_isNaN, Vec.sub_reindex]

/-- All three tests for the end of a run are about numbers that have no order. -/
theorem State.endsAt_reindex (h : s.model.Reordered σ m) (o : Options ℝ) {e e' : Evaluation ℝ n}
    (he : e.Reordered σ e') : (s.reindex σ m).endsAt o e' = s.endsAt o e := by
  simp only [endsAt, reindex, he.normSq_eq, he.all_entryList_eq, h.error]

/-- A trial at the reordered point leads to the reordered state. -/
theorem State.advance_reindex (h : s.model.Reordered σ m) (o : Options ℝ) (x : Vec ℝ n)
    {e e' : Evaluation ℝ n} (he : e.Reordered σ e') :
    ∃ m', (s.advance o x e).model.Reordered σ m'
      ∧ (s.reindex σ m).advance o (x.reindex σ) e' = (s.advance o x e).reindex σ m' := by
  have hends := State.endsAt_reindex h o he
  by_cases hless : e.residuals.normSq < s.model.error
  · -- the trial becomes the current point, and brings its model along
    refine ⟨.ofEvaluation e', ?_, ?_⟩
    · simp only [advance, if_pos hless]
      exact he.model
    · simp only [advance, hends, he.normSq_eq]
      simp only [reindex, h.error, if_pos hless, Array.map_push, Request.reindex]
  · -- the current point stays, with the model that it had
    refine ⟨m, ?_, ?_⟩
    · simp only [advance, if_neg hless]
      exact h
    · simp only [advance, hends, he.normSq_eq]
      simp only [reindex, h.error, if_neg hless, Array.map_push, Request.reindex]

theorem State.finish_reindex (s : State ℝ n) (m : LinearModel ℝ n) :
    (s.reindex σ m).finish = s.finish.reindex σ :=
  rfl

theorem State.giveUp_reindex (s : State ℝ n) (m : LinearModel ℝ n) :
    (s.reindex σ m).giveUp = s.giveUp.reindex σ :=
  rfl

/-- `s'` is the state `s` with its coordinates reordered. -/
def State.Reordered (σ : Equiv.Perm (Fin n)) (s s' : State ℝ n) : Prop :=
  ∃ m, s.model.Reordered σ m ∧ s' = s.reindex σ m

/-- Steps from a state and from the reordered state are the same up to the order. -/
theorem round_reindex {p q : Problem ℝ n} (hpq : p.Reordered σ q) (o : Options ℝ)
    (h : s.model.Reordered σ m) :
    Sum.LiftRel (fun r r' : Run ℝ n => r' = r.reindex σ) (State.Reordered σ)
      ((iteration o p).round s) ((iteration o q).round (s.reindex σ m)) := by
  have htrial := State.trialPoint?_reindex h
  cases solved : s.trialPoint? with
  | none =>
    rw [solved, Option.map_none] at htrial
    rw [iteration_round_of_none o p solved, iteration_round_of_none o q htrial]
    exact .inl (s.giveUp_reindex m)
  | some x =>
    rw [solved, Option.map_some] at htrial
    rw [iteration_round_of_some o p solved, iteration_round_of_some o q htrial]
    obtain ⟨m', hm', hadvance⟩ := State.advance_reindex h o x (hpq.evaluate x)
    exact .inr ⟨m', hm', hadvance⟩

/-- Runs on the two problems stay in line. -/
theorem iteration_reindex {p q : Problem ℝ n} (hpq : p.Reordered σ q) (o : Options ℝ) :
    (iteration o p).Related (iteration o q) (State.Reordered σ)
      fun r r' : Run ℝ n => r' = r.reindex σ where
  done := by
    rintro s _ ⟨m, -, rfl⟩
    rfl
  finish := by
    rintro s _ ⟨m, -, rfl⟩
    exact s.finish_reindex m
  round := by
    rintro s _ ⟨m, h, rfl⟩
    exact round_reindex hpq o h

/-- Runs from a state and from the reordered state are the same up to the order. -/
theorem loop_reindex {p q : Problem ℝ n} (hpq : p.Reordered σ q) (o : Options ℝ) (budget : Nat)
    (h : s.model.Reordered σ m) :
    loop o q budget (s.reindex σ m) = (loop o p budget s).reindex σ := by
  rw [loop_eq_run, loop_eq_run]
  exact (iteration_reindex hpq o).run ⟨m, h, rfl⟩ budget

theorem minimize_reindex {p q : Problem ℝ n} (hpq : p.Reordered σ q) (o : Options ℝ)
    (x₀ : Vec ℝ n) : minimize o q (x₀.reindex σ) = (minimize o p x₀).reindex σ := by
  have hmodel := (hpq.evaluate x₀).model
  have hcount : (q.evaluate (x₀.reindex σ)).count = (p.evaluate x₀).count := hmodel.count_eq
  unfold minimize
  dsimp only
  rw [hcount]
  split_ifs with hempty
  · simp [Run.trivial, Run.reindex, Request.reindex]
  · rw [← loop_reindex hpq o o.maxSteps hmodel]
    simp [State.start, State.reindex, Request.reindex, (hpq.evaluate x₀).normSq_eq]

end LevenbergMarquardt

/-! ## The trust region method -/

namespace DogLeg

variable {m m' : LinearModel ℝ n}

/-! ### Steps

A step is made of two directions, the Gauss-Newton step and the gradient. Both are reordered. How
far to go in each is decided by dot products and lengths, which are not. -/

theorem gaussNewton?_reindex (h : m.Reordered σ m') :
    gaussNewton? m' = (gaussNewton? m).map (Vec.reindex σ) := by
  rw [gaussNewton?, h.shiftedNormal, h.gradient, Vec.scale_reindex, Mat.solve?_reindex]
  rfl

theorem descentFactor_reindex (h : m.Reordered σ m') : descentFactor m' = descentFactor m := by
  rw [descentFactor, h.gradient, h.normSq_mulVec, Vec.normSq_reindex]
  rfl

theorem boundaryFraction_reindex (a leg : Vec ℝ n) (radius : ℝ) :
    boundaryFraction (a.reindex σ) (leg.reindex σ) radius = boundaryFraction a leg radius := by
  simp only [boundaryFraction, Vec.dot_reindex, Vec.normSq_reindex]

/-- All points of the path are sums of multiples of the two directions. -/
theorem pathStep_reindex (newton descent : Vec ℝ n) (factor radius : ℝ) :
    pathStep (newton.reindex σ) (descent.reindex σ) factor radius
      = (pathStep newton descent factor radius).reindex σ := by
  simp only [pathStep, Vec.norm_reindex, Vec.scale_reindex, Vec.sub_reindex,
    boundaryFraction_reindex, Vec.add_reindex, apply_ite (Vec.reindex σ)]

theorem step?_reindex (h : m.Reordered σ m') (radius : ℝ) :
    step? m' radius = (step? m radius).map (Vec.reindex σ) := by
  rw [step?, step?, gaussNewton?_reindex h, descentFactor_reindex h, h.gradient,
    Vec.scale_reindex]
  cases gaussNewton? m with
  | none => rfl
  | some newton => exact congrArg some (pathStep_reindex ..)

/-- The gain is predicted with the Jacobian, and observed from residuals that were asked for alone:
either may have an order of its own. -/
theorem gainRatio_reindex (h : m.Reordered σ m') (step : Vec ℝ n) {residuals residuals' : List ℝ}
    (hperm : residuals'.Perm residuals) :
    gainRatio m' (step.reindex σ) residuals' = gainRatio m step residuals := by
  have hpredicted : predictedGain m' (step.reindex σ) = predictedGain m step := by
    rw [predictedGain, h.gradient, h.normSq_mulVec, Vec.dot_reindex, predictedGain]
  have hactual : actualGain m' residuals' = actualGain m residuals := by
    rw [actualGain, h.error, Sized.normSq_perm hperm, actualGain]
  unfold gainRatio
  dsimp only
  rw [hpredicted, hactual]

/-! ### States and runs -/

/-- The state with all coordinates reordered, and with the linear model that belongs to it. -/
def State.reindex (σ : Equiv.Perm (Fin n)) (m : LinearModel ℝ n) (s : State ℝ n) : State ℝ n :=
  { s with
    point := s.point.reindex σ
    model := m
    requests := s.requests.map (Request.reindex σ) }

/-- The run with all coordinates reordered: what was decided and counted stays. -/
def Run.reindex (σ : Equiv.Perm (Fin n)) (r : Run ℝ n) : Run ℝ n :=
  { r with
    point := r.point.reindex σ
    requests := r.requests.map (Request.reindex σ) }

theorem Run.reindex_one (r : Run ℝ n) : r.reindex 1 = r := by
  simp [reindex, Request.reindex_one, Vec.reindex_one]

/-- Two steps have the same outcome up to the order. -/
inductive Turn.Reordered (σ : Equiv.Perm (Fin n)) : Turn ℝ n → Turn ℝ n → Prop where
  | stop (run : Run ℝ n) : Reordered σ (.stop run) (.stop (run.reindex σ))
  | go {s : State ℝ n} {m : LinearModel ℝ n} (h : s.model.Reordered σ m) :
    Reordered σ (.go s) (.go (s.reindex σ m))

variable {s : State ℝ n}

theorem State.isNegligible_reindex (s : State ℝ n) (m : LinearModel ℝ n) (epsilon length : ℝ) :
    (s.reindex σ m).isNegligible epsilon length = s.isNegligible epsilon length := by
  simp only [isNegligible, reindex, Vec.norm_reindex]

theorem State.resize_reindex (s : State ℝ n) (m : LinearModel ℝ n) (o : Options ℝ)
    (length ratio : ℝ) :
    (s.reindex σ m).resize o length ratio = (s.resize o length ratio).reindex σ m := by
  simp only [resize, isNegligible_reindex]
  split_ifs <;> rfl

theorem State.fail_reindex (h : s.model.Reordered σ m) (note : Note ℝ) :
    (s.reindex σ m).fail note = (s.fail note).reindex σ := by
  simp [fail, reindex, Run.reindex, h.error]

theorem State.finish_reindex (h : s.model.Reordered σ m) :
    (s.reindex σ m).finish = s.finish.reindex σ := by
  cases hfound : s.found <;> simp [finish, reindex, Run.reindex, h.error, hfound]

theorem State.tried_reindex (s : State ℝ n) (m : LinearModel ℝ n) (x : Vec ℝ n)
    (length ratio : ℝ) :
    (s.reindex σ m).tried (x.reindex σ) length ratio = (s.tried x length ratio).reindex σ m := by
  simp [tried, reindex, Request.reindex]

theorem State.moved_reindex (s : State ℝ n) (m : LinearModel ℝ n) (o : Options ℝ) (x : Vec ℝ n)
    {e e' : Evaluation ℝ n} (he : e.Reordered σ e') :
    (s.reindex σ m).moved o (x.reindex σ) e'
      = (s.moved o x e).reindex σ (.ofEvaluation e') := by
  simp [moved, reindex, Request.reindex, he.model.isStationary_eq]

/-- Steps from a state and from the reordered state are the same up to the order. -/
theorem State.turn_reindex {p q : Problem ℝ n} (hpq : p.Reordered σ q) (o : Options ℝ)
    (h : s.model.Reordered σ m) : (s.turn o p).Reordered σ ((s.reindex σ m).turn o q) := by
  -- in both runs the step is counted first
  generalize hs : ({ s with steps := s.steps + 1 } : State ℝ n) = t
  have hcounted : ({ s.reindex σ m with steps := (s.reindex σ m).steps + 1 } : State ℝ n)
      = t.reindex σ m := by
    rw [← hs]
    rfl
  have ht : t.model.Reordered σ m := hs ▸ h
  have hmodel : (t.reindex σ m).model = m := rfl
  have hradius : (t.reindex σ m).radius = t.radius := rfl
  have hsteps : (t.reindex σ m).steps = t.steps := rfl
  have hpoint (x : Vec ℝ n) : (t.reindex σ m).point.add (x.reindex σ)
      = (t.point.add x).reindex σ := Vec.add_reindex σ t.point x
  unfold turn
  rw [hs, hcounted]
  dsimp only
  rw [hmodel, hradius, hsteps, step?_reindex ht]
  cases step? t.model t.radius with
  | none =>
    dsimp only [Option.map_none]
    rw [fail_reindex ht]
    exact .stop _
  | some step =>
    have hratio := gainRatio_reindex ht step (hpq.residuals (t.point.add step))
    have he := hpq.evaluate (t.point.add step)
    simp only [Option.map_some, Vec.norm_reindex, isNegligible_reindex, hpoint, hratio,
      tried_reindex, moved_reindex _ _ _ _ he, resize_reindex, LinearModel.isFinite_eq_true,
      if_true]
    split_ifs with hnegligible haccepted
    · have hfinish := finish_reindex (s := { t with found := true }) ht
      exact hfinish ▸ .stop _
    · refine .go ?_
      rw [model_resize]
      exact he.model
    · refine .go ?_
      rw [model_resize]
      exact ht

/-- `s'` is the state `s` with its coordinates reordered. -/
def State.Reordered (σ : Equiv.Perm (Fin n)) (s s' : State ℝ n) : Prop :=
  ∃ m, s.model.Reordered σ m ∧ s' = s.reindex σ m

/-- The outcomes of `State.turn_reindex`, as those of a round. -/
theorem round_reindex {p q : Problem ℝ n} (hpq : p.Reordered σ q) (o : Options ℝ)
    (h : s.model.Reordered σ m) :
    Sum.LiftRel (fun r r' : Run ℝ n => r' = r.reindex σ) (State.Reordered σ)
      ((iteration o p).round s) ((iteration o q).round (s.reindex σ m)) := by
  have hturn := State.turn_reindex hpq o h
  unfold iteration
  dsimp only
  generalize s.turn o p = turn at hturn ⊢
  generalize (s.reindex σ m).turn o q = turn' at hturn ⊢
  cases hturn with
  | stop run => exact .inl rfl
  | go hnext => exact .inr ⟨_, hnext, rfl⟩

/-- Runs on the two problems stay in line. -/
theorem iteration_reindex {p q : Problem ℝ n} (hpq : p.Reordered σ q) (o : Options ℝ) :
    (iteration o p).Related (iteration o q) (State.Reordered σ)
      fun r r' : Run ℝ n => r' = r.reindex σ where
  done := by
    rintro s _ ⟨m, -, rfl⟩
    rfl
  finish := by
    rintro s _ ⟨m, h, rfl⟩
    exact State.finish_reindex h
  round := by
    rintro s _ ⟨m, h, rfl⟩
    exact round_reindex hpq o h

/-- Runs from a state and from the reordered state are the same up to the order. -/
theorem loop_reindex {p q : Problem ℝ n} (hpq : p.Reordered σ q) (o : Options ℝ) (budget : Nat)
    (h : s.model.Reordered σ m) :
    loop o q budget (s.reindex σ m) = (loop o p budget s).reindex σ := by
  rw [loop_eq_run, loop_eq_run]
  exact (iteration_reindex hpq o).run ⟨m, h, rfl⟩ budget

theorem minimize_reindex {p q : Problem ℝ n} (hpq : p.Reordered σ q) (o : Options ℝ)
    (x₀ : Vec ℝ n) : minimize o q (x₀.reindex σ) = (minimize o p x₀).reindex σ := by
  have hmodel := (hpq.evaluate x₀).model
  -- whether there is anything to do, and within which radius, does not depend on the order
  have hopening : opening o (x₀.reindex σ) (.ofEvaluation (q.evaluate (x₀.reindex σ)))
      = match opening o x₀ (.ofEvaluation (p.evaluate x₀)) with
        | .stop run => .stop (run.reindex σ)
        | .go radius => .go radius := by
    simp only [opening, hmodel.count_eq, hmodel.isStationary_eq, hmodel.error, hmodel.gradient,
      Vec.normInf_reindex, LinearModel.isFinite_eq_true, if_true]
    split_ifs <;> simp [Run.atStart, Run.reindex, Request.reindex]
  unfold minimize
  dsimp only
  rw [hopening]
  cases opening o x₀ (.ofEvaluation (p.evaluate x₀)) with
  | stop run => rfl
  | go radius =>
    dsimp only
    rw [← loop_reindex hpq o o.maxSteps hmodel]
    simp [State.reindex, Request.reindex]

end DogLeg

/-! ## Constraints

Each constraint is one residual, and they stand in the order in which they were added. The
parameters keep their places here (`σ = 1`), so all that is left to show is that a permuted list of
expressions is compiled to a permuted list of tapes, and that such a list is a reordered problem. -/

/-- The entries of a permuted list are those of the list, at permuted places. -/
theorem exists_equiv_of_perm {α : Type} {l l' : List α} (h : l'.Perm l) :
    ∃ τ : Fin l'.length ≃ Fin l.length, ∀ i, l'.get i = l.get (τ i) := by
  -- reorder the places of `l` along with its entries
  have places : List.Forall₂ (fun a i => a = l.get i) l (List.finRange l.length) := by
    rw [List.forall₂_iff_get]
    refine ⟨by simp, fun i hi hi' => ?_⟩
    simp
  obtain ⟨is, his, hperm⟩ := List.perm_comp_forall₂ h places
  have hlength : l'.length = is.length := his.length_eq
  have hnodup : is.Nodup := hperm.nodup_iff.2 (List.nodup_finRange _)
  have hall (j : Fin l.length) : j ∈ is := hperm.mem_iff.2 (List.mem_finRange j)
  refine ⟨(finCongr hlength).trans (hnodup.getEquivOfForallMemList is hall), fun i => ?_⟩
  exact (List.forall₂_iff_get.1 his).2 i i.isLt (hlength ▸ i.isLt)

namespace Evaluation

variable {K : Type} {rows rows' : List (K × Vec K n)}

theorem get_residuals_ofRows (i : Fin rows.length) :
    (ofRows rows).residuals.get i = (rows.get i).1 :=
  Vec.get_ofFn _ i

theorem entry_jacobian_ofRows (i : Fin rows.length) (j : Fin n) :
    (ofRows rows).jacobian.entry i j = (rows.get i).2.get j :=
  congrArg (Vector.get · j) (Vec.get_ofFn _ i)

/-- Rows in another order are the same residuals in that order. -/
theorem ofRows_reordered (h : rows'.Perm rows) : (ofRows rows).Reordered 1 (ofRows rows') := by
  obtain ⟨τ, hτ⟩ := exists_equiv_of_perm h
  -- a residual and its row of the Jacobian have moved to the same place
  refine ⟨τ, Vec.ext_get fun i => ?_, Mat.ext_entry fun i j => ?_⟩
  · calc (ofRows rows').residuals.get i
        = (rows'.get i).1 := get_residuals_ofRows i
      _ = (rows.get (τ i)).1 := congrArg Prod.fst (hτ i)
      _ = (ofRows rows).residuals.get (τ i) := (get_residuals_ofRows (τ i)).symm
      _ = ((ofRows rows).residuals.reindex τ).get i := (Vec.get_reindex τ _ i).symm
  · calc (ofRows rows').jacobian.entry i j
        = (rows'.get i).2.get j := entry_jacobian_ofRows i j
      _ = (rows.get (τ i)).2.get j := congrArg (fun row => row.2.get j) (hτ i)
      _ = (ofRows rows).jacobian.entry (τ i) j := (entry_jacobian_ofRows (τ i) j).symm
      _ = ((ofRows rows).jacobian.reindex τ 1).entry i j := (Mat.entry_reindex τ 1 _ i j).symm

end Evaluation

namespace Constraints

/-- Each expression is compiled on its own. -/
theorem ofExpressions_eq_ok_iff {params es : List String} {s : Constraints} :
    ofExpressions params es = .ok s ↔ ∃ tapes : List (Postfix.Tape params),
      List.Forall₂ (fun e t => Postfix.compile params e = .ok t) es tapes
        ∧ s = ⟨params, tapes⟩ := by
  -- by induction on what is left to compile, behind the tapes that are there already
  have appended (ts : List (Postfix.Tape params)) :
      es.foldlM (fun s e => (s.add e).map Prod.fst) (⟨params, ts⟩ : Constraints) = .ok s
        ↔ ∃ tapes : List (Postfix.Tape params),
          List.Forall₂ (fun e t => Postfix.compile params e = .ok t) es tapes
            ∧ s = ⟨params, ts ++ tapes⟩ := by
    induction es generalizing ts with
    | nil => simp [pure, Except.pure, eq_comm]
    | cons e es ih =>
      rw [List.foldlM_cons, add]
      cases he : Postfix.compile params e with
      | error fault => simp [Except.map, bind, Except.bind, List.forall₂_cons_left_iff, he]
      | ok t =>
        refine (ih (ts ++ [t])).trans ?_
        simp [List.forall₂_cons_left_iff, he]
  exact appended []

/-- Constraints in another order pose the same problem, up to the order of the residuals. -/
theorem problem_reordered {params : List String} {tapes tapes' : List (Postfix.Tape params)}
    (h : tapes'.Perm tapes) : (problem ⟨params, tapes⟩ : Problem ℝ params.length).Reordered 1
      (problem ⟨params, tapes'⟩) where
  evaluate x := by
    rw [Vec.reindex_one]
    exact Evaluation.ofRows_reordered (h.map _)
  residuals x := by
    rw [Vec.reindex_one]
    exact h.map _

end Constraints

/-! ## Both solvers -/

/-- Both solvers make the same run on the reordered problem, from the reordered point: all requests
and the returned point have their coordinates in the new order, and nothing else changes. As far as
constraints are concerned, it does not matter in which order they are added. -/
theorem minimize_reordered :
    (∀ (n : Nat) (σ : Equiv.Perm (Fin n)) (p q : Problem ℝ n), p.Reordered σ q →
      ∀ x₀ : Vec ℝ n,
        (∀ o, LevenbergMarquardt.minimize o q (x₀.reindex σ)
          = (LevenbergMarquardt.minimize o p x₀).reindex σ)
        ∧ ∀ o, DogLeg.minimize o q (x₀.reindex σ) = (DogLeg.minimize o p x₀).reindex σ)
    ∧ ∀ (params es es' : List String) (s : Constraints), es'.Perm es →
      Constraints.ofExpressions params es = .ok s →
      ∃ tapes, tapes.Perm s.tapes ∧ Constraints.ofExpressions params es' = .ok ⟨s.params, tapes⟩ ∧
        ∀ x₀ : Vec ℝ s.params.length,
          (∀ o, LevenbergMarquardt.minimize o (Constraints.problem ⟨s.params, tapes⟩) x₀
            = LevenbergMarquardt.minimize o s.problem x₀)
          ∧ ∀ o, DogLeg.minimize o (Constraints.problem ⟨s.params, tapes⟩) x₀
            = DogLeg.minimize o s.problem x₀ := by
  refine ⟨fun n σ p q hpq x₀ => ⟨fun o => LevenbergMarquardt.minimize_reindex hpq o x₀,
    fun o => DogLeg.minimize_reindex hpq o x₀⟩, fun params es es' s hperm hs => ?_⟩
  obtain ⟨tapes, hcompiled, rfl⟩ := Constraints.ofExpressions_eq_ok_iff.1 hs
  obtain ⟨tapes', hcompiled', hperm'⟩ := List.perm_comp_forall₂ hperm hcompiled
  have hpq := Constraints.problem_reordered hperm'
  refine ⟨tapes', hperm', Constraints.ofExpressions_eq_ok_iff.2 ⟨tapes', hcompiled', rfl⟩,
    fun x₀ => ⟨fun o => ?_, fun o => ?_⟩⟩
  · -- with the parameters in their places, the reordered run is the run itself
    have hrun := LevenbergMarquardt.minimize_reindex hpq o x₀
    rwa [Vec.reindex_one, LevenbergMarquardt.Run.reindex_one] at hrun
  · have hrun := DogLeg.minimize_reindex hpq o x₀
    rwa [Vec.reindex_one, DogLeg.Run.reindex_one] at hrun

/-- The residuals `x - c`. -/
noncomputable def Problem.offset (c : Vec ℝ n) : Problem ℝ n where
  evaluate x := ⟨n, x.sub c, .identity n⟩

theorem Problem.offset_reordered (σ : Equiv.Perm (Fin n)) (c : Vec ℝ n) :
    (offset c).Reordered σ (offset (c.reindex σ)) where
  evaluate x := ⟨σ, Vec.sub_reindex σ x c, (Mat.identity_reindex σ).symm⟩
  residuals x := by
    show ((x.reindex σ).sub (c.reindex σ)).toList.Perm (x.sub c).toList
    rw [Vec.sub_reindex]
    exact Vec.toList_reindex_perm σ _

/-- Two coordinates change places, and two constraints. -/
theorem minimize_reordered_swap :
    (Problem.offset #v[1, 2]).Reordered (Equiv.swap 0 1) (Problem.offset #v[2, 1])
      ∧ LevenbergMarquardt.minimize .standard (Problem.offset #v[2, 1]) #v[4, 3]
        = (LevenbergMarquardt.minimize .standard (Problem.offset #v[1, 2]) #v[3, 4]).reindex
          (Equiv.swap 0 1)
      ∧ ∃ s tapes, Constraints.ofExpressions ["x"] ["x", "1"] = .ok s
        ∧ Constraints.ofExpressions ["x"] ["1", "x"] = .ok ⟨s.params, tapes⟩
        ∧ ∀ x₀ : Vec ℝ s.params.length,
          DogLeg.minimize .standard (Constraints.problem ⟨s.params, tapes⟩) x₀
            = DogLeg.minimize .standard s.problem x₀ := by
  have swapped (a b : ℝ) : Vec.reindex (Equiv.swap 0 1) #v[a, b] = #v[b, a] :=
    Vec.ext_get fun i => by fin_cases i <;> rfl
  have hpq := Problem.offset_reordered (Equiv.swap 0 1) #v[1, 2]
  have hrun := (minimize_reordered.1 2 _ _ _ hpq #v[3, 4]).1 .standard
  rw [swapped] at hpq hrun
  rw [swapped] at hrun
  obtain ⟨tapes, -, htapes, hruns⟩ := minimize_reordered.2 ["x"] ["x", "1"] ["1", "x"] _
    (.swap ..) rfl
  exact ⟨hpq, hrun, _, tapes, rfl, htapes, fun x₀ => (hruns x₀).2 .standard⟩

end LeastSquares
