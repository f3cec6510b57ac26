/-
LeastSquares.Proofs.Checked.Linear — linear models on plain data.

The operations of `Sized` compare the shapes of their operands. On vectors and matrices of fixed
shape the comparison succeeds, and the result is that of the operation behind it. So all products
of a linear model can be formed (`Linearization.new_of`), and its equations have the right shape
(`shiftedSolve_of`).
-/
import LeastSquares.Linear.Sized
import LeastSquares.Problem.LinearModel
import LeastSquares.Proofs.Checked.System
import LeastSquares.Proofs.Objective

namespace LeastSquares

variable {K : Type} {m n p : Nat}

/-! ## Operands that fit -/

namespace Sized

theorem pairing_toList {α : Type} (a b : Vec K n) (f : {n : Nat} → Vec K n → Vec K n → α) :
    pairing a.toList b.toList f = .ok (f a b) := by
  obtain ⟨⟨a⟩, rfl⟩ := a
  obtain ⟨⟨b⟩, hb⟩ := b
  exact dif_pos hb

theorem matching_mk (a b : Mat K m n) (f : {m n : Nat} → Mat K m n → Mat K m n → Mat K m n) :
    matching ⟨m, n, a⟩ ⟨m, n, b⟩ f = .ok ⟨m, n, f a b⟩ :=
  dif_pos ⟨rfl, rfl⟩

variable [Scalar K]

@[simp] theorem norm_toList (v : Vec K n) : norm v.toList = v.norm := by
  obtain ⟨⟨v⟩, rfl⟩ := v
  rfl

@[simp] theorem normInf_toList (v : Vec K n) : normInf v.toList = v.normInf := by
  obtain ⟨⟨v⟩, rfl⟩ := v
  rfl

@[simp] theorem scaleVec_toList (v : Vec K n) (factor : K) :
    scaleVec v.toList factor = (v.scale factor).toList := by
  obtain ⟨⟨v⟩, rfl⟩ := v
  rfl

theorem dot_toList (a b : Vec K n) : dot a.toList b.toList = .ok (a.dot b) :=
  pairing_toList a b Vec.dot

theorem addVec_toList (a b : Vec K n) : addVec a.toList b.toList = .ok (a.add b).toList :=
  pairing_toList a b fun u v => (Vec.add u v).toList

theorem subVec_toList (a b : Vec K n) : subVec a.toList b.toList = .ok (a.sub b).toList :=
  pairing_toList a b fun u v => (Vec.sub u v).toList

theorem add_mk (a b : Mat K m n) : add ⟨m, n, a⟩ ⟨m, n, b⟩ = .ok ⟨m, n, a.add b⟩ :=
  matching_mk a b Mat.add

theorem mul_mk (a : Mat K m n) (b : Mat K n p) :
    mul ⟨m, n, a⟩ ⟨n, p, b⟩ = .ok ⟨m, p, a.mul b⟩ :=
  dif_pos rfl

theorem mulVec_mk (a : Mat K m n) (v : Vec K n) :
    mulVec ⟨m, n, a⟩ v.toList = .ok (a.mulVec v).toList := by
  obtain ⟨⟨v⟩, rfl⟩ := v
  exact dif_pos rfl

theorem solve?_mk (a : Mat K n n) (b : Vec K n) :
    solve? ⟨n, n, a⟩ b.toList = .ok ((a.solve? b).map Vector.toList) := by
  obtain ⟨⟨b⟩, rfl⟩ := b
  exact (dif_pos rfl).trans (dif_pos rfl)

end Sized

namespace Checked

variable [Scalar K]

/-! ## Problems -/

/-- A problem whose points are lists. -/
structure Problem (K : Type) where
  valDers : List K → Except Fault (ValDers K)
  residuals : List K → Except Fault (List K)

def System.problem (s : System K) : Problem K :=
  ⟨s.valDers, s.residuals⟩

/-- At points with `n` coordinates the problem does not fault, and is the given one. -/
structure Problem.Refines (q : Problem K) (p : LeastSquares.Problem K n) : Prop where
  valDers (x : Vec K n) : q.valDers x.toList = .ok (.of (p.evaluate x))
  residuals (x : Vec K n) : q.residuals x.toList = .ok (p.residuals x)

theorem System.refines (s : Constraints) :
    (of s : System K).problem.Refines s.problem :=
  ⟨valDers_of s, residuals_of s⟩

/-! ## Linear models -/

/-- What a solver keeps of residuals and derivatives. -/
structure Linearization (K : Type) where
  residuals : List K
  jacobian : SizedMat K
  /-- `Jᵀ J` -/
  hessian : SizedMat K
  /-- `Jᵀ r` -/
  gradient : List K
  error : K

namespace Linearization

def new (v : ValDers K) : Except Fault (Linearization K) := do
  let transposed := Sized.transpose v.jacobian
  let hessian ← Sized.mul transposed v.jacobian
  let gradient ← Sized.mulVec transposed v.vals
  pure ⟨v.vals, v.jacobian, hessian, gradient, Sized.normSq v.vals⟩

/-- The data of a linear model. -/
def of (m : LinearModel K n) : Linearization K where
  residuals := m.residuals.toList
  jacobian := ⟨m.count, n, m.jacobian⟩
  hessian := ⟨n, n, m.normal⟩
  gradient := m.gradient.toList
  error := m.error

/-- Are all residuals and all entries of the gradient finite? -/
def isFinite (l : Linearization K) : Bool :=
  l.residuals.all Scalar.isFinite && l.gradient.all Scalar.isFinite

/-- Is no residual, or no entry of the gradient, larger in magnitude than `epsilon`? -/
def isStationary (l : Linearization K) (epsilon : K) : Bool :=
  Sized.normInf l.residuals ≤ epsilon || Sized.normInf l.gradient ≤ epsilon

/-- All products of a linear model can be formed. -/
theorem new_of (e : Evaluation K n) : new (.of e) = .ok (of (.ofEvaluation e)) := by
  have hgradient : Sized.mulVec (Sized.transpose ⟨e.count, n, e.jacobian⟩) e.residuals.toList
      = .ok (e.jacobian.transpose.mulVec e.residuals).toList := Sized.mulVec_mk _ _
  have hhessian : Sized.mul (Sized.transpose ⟨e.count, n, e.jacobian⟩) ⟨e.count, n, e.jacobian⟩
      = .ok ⟨n, n, e.jacobian.transpose.mul e.jacobian⟩ := Sized.mul_mk _ _
  simp only [new, ValDers.of, hgradient, hhessian, ok_bind, Sized.normSq_toList]
  rfl

@[simp] theorem isFinite_of (m : LinearModel K n) : (of m).isFinite = m.isFinite :=
  rfl

@[simp] theorem isStationary_of (m : LinearModel K n) (epsilon : K) :
    (of m).isStationary epsilon = m.isStationary epsilon := by
  simp [isStationary, of, LinearModel.isStationary]

end Linearization

/-! ## Systems of equations -/

/-- The solution of a system of equations, of which there has to be at least one. -/
def luSolve (a : SizedMat K) (b : List K) : Except Fault (Option (List K)) :=
  if a.rows = 0 then .error .shapeMismatch else Sized.solve? a b

/-- The solution of the equations whose matrix is `Jᵀ J` with a multiple of `identity` added. -/
def shiftedSolve (l : Linearization K) (identity : SizedMat K) (shift : K) (b : List K) :
    Except Fault (Option (List K)) := do
  let shifted ← Sized.add l.hessian (Sized.scale identity shift)
  luSolve shifted b

/-- With at least one unknown, the equations have the right shape. -/
theorem shiftedSolve_of (hn : 0 < n) (m : LinearModel K n) (shift : K) (b : Vec K n) :
    shiftedSolve (.of m) (Sized.identity n) shift b.toList
      = .ok (((m.shiftedNormal shift).solve? b).map Vector.toList) := by
  have hadd : Sized.add ⟨n, n, m.normal⟩ (Sized.scale (Sized.identity n) shift)
      = .ok ⟨n, n, m.shiftedNormal shift⟩ := Sized.add_mk _ _
  simp only [shiftedSolve, Linearization.of, hadd, ok_bind]
  exact (if_neg hn.ne').trans (Sized.solve?_mk _ _)

end Checked

end LeastSquares
