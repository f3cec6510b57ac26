/-
LeastSquares.Proofs.Differentiation — what a numerical Jacobian consists of, and what it asks for.

A problem may write down what it is asked (`Problem.recorded`). The approximation of a Jacobian asks
for the point itself, and then for two points for each coordinate (`probesAt`), which agree with the
point in all other coordinates. Entry by entry it is the difference quotient of one residual along
one coordinate.

A program that has a single probe, overwrites one coordinate of it at a time and puts the old value
back (`numericJacobianInPlace`), asks for the same points and returns the same matrix: each round
finds the probe as the first one did (`writes_varyInPlace`). `numericJacobian_recorded` puts the two
together, for numbers of any kind.
-/
import LeastSquares.Proofs.Checked.Differentiation

namespace LeastSquares

/-! ## Computations that write something down -/

section Writes

variable {σ α β ε : Type}

/-- The computation returns `b` and appends `l` to what has been written down. -/
def Writes (c : StateM (List σ) β) (b : β) (l : List σ) : Prop :=
  ∀ s, c.run s = (b, s ++ l)

theorem Writes.pure (b : β) : Writes (σ := σ) (pure b) b [] := by
  intro s
  rw [List.append_nil]
  rfl

theorem Writes.bind {c : StateM (List σ) α} {f : α → StateM (List σ) β} {a : α} {b : β}
    {l l' : List σ} (h : Writes c a l) (h' : Writes (f a) b l') : Writes (c >>= f) b (l ++ l') := by
  intro s
  rw [StateT.run_bind, h s, ← List.append_assoc]
  exact h' (s ++ l)

/-- What is done last may write nothing. -/
theorem Writes.bind_pure {c : StateM (List σ) α} {a : α} {l : List σ} (h : Writes c a l)
    (f : α → β) : Writes (c >>= fun a => Pure.pure (f a)) (f a) l := by
  rw [← List.append_nil l]
  exact h.bind (.pure (f a))

theorem Writes.mapM {f : α → StateM (List σ) β} {g : α → β} {l : α → List σ}
    (h : ∀ a, Writes (f a) (g a) (l a)) (xs : List α) :
    Writes (xs.mapM f) (xs.map g) (xs.flatMap l) := by
  induction xs with
  | nil => exact .pure []
  | cons x xs ih =>
    rw [List.mapM_cons, List.flatMap_cons]
    exact (h x).bind (ih.bind_pure fun bs => g x :: bs)

/-! A computation that may fail writes down what it has done until it fails. -/

theorem Writes.lift {c : StateM (List σ) β} {b : β} {l : List σ} (h : Writes c b l) :
    Writes (liftM c : ExceptT ε (StateM (List σ)) β).run (.ok b) l :=
  h.bind_pure Except.ok

theorem Writes.bindExcept {c : ExceptT ε (StateM (List σ)) α}
    {f : α → ExceptT ε (StateM (List σ)) β} {a : α} {b : Except ε β} {l l' : List σ}
    (h : Writes c.run (.ok a) l) (h' : Writes (f a).run b l') :
    Writes (c >>= f).run b (l ++ l') :=
  Writes.bind (f := ExceptT.bindCont f) h h'

/-- A loop over all indices that goes through the values of `g`. -/
theorem Writes.foldlM_finRange {n : Nat} {f : β → Fin n → ExceptT ε (StateM (List σ)) β}
    {g : Nat → β} {l : Fin n → List σ}
    (h : ∀ k : Fin n, Writes (f (g k) k).run (.ok (g (k + 1))) (l k)) :
    Writes ((List.finRange n).foldlM f (g 0)).run (.ok (g n)) ((List.finRange n).flatMap l) := by
  have upTo (k : Nat) (hk : k ≤ n) : Writes (((List.finRange n).take k).foldlM f (g 0)).run
      (.ok (g k)) (((List.finRange n).take k).flatMap l) := by
    induction k with
    | zero => exact .pure _
    | succ k ih =>
      rw [List.take_succ_eq_append_getElem (by simpa using hk), List.foldlM_append,
        List.flatMap_append, List.getElem_finRange, List.flatMap_singleton]
      refine (ih (Nat.le_of_succ_le hk)).bindExcept ?_
      rw [List.foldlM_cons, ← List.append_nil (l _)]
      exact (h ⟨k, hk⟩).bindExcept (.pure _)
  have hall := upTo n (Nat.le_refl n)
  rwa [List.take_of_length_le (by simp)] at hall

end Writes

variable {K : Type} {m n : Nat}

namespace Problem

/-- The problem with each evaluation written down. -/
def recorded (p : Problem K n) (x : Vec K n) : StateM (List (Request K n)) (Evaluation K n) := do
  modify fun asked => asked ++ [.evaluation x]
  pure (p.evaluate x)

theorem writes_recorded (p : Problem K n) (x : Vec K n) :
    Writes (p.recorded x) (p.evaluate x) [.evaluation x] :=
  fun _ => rfl

/-- Residual `i` of a problem that has `m` of them everywhere. -/
def residual (p : Problem K n) (steady : ∀ y, (p.evaluate y).count = m) (i : Fin m)
    (x : Vec K n) : K :=
  ((p.evaluate x).residuals.cast (steady x)).get i

end Problem

variable [Scalar K]

/-! ## One probe for all coordinates -/

section InPlace

variable {M : Type → Type} [Monad M]

/-- Treats coordinate `j` of `x`: the probe is overwritten there twice and then restored, and column
`j` is filled. -/
def varyInPlace (evaluate : Vec K n → M (Evaluation K n)) (x : Vec K n)
    (s : Mat K m n × Vec K n) (j : Fin n) : ExceptT Fault M (Mat K m n × Vec K n) := do
  let (jacobian, probe) := s
  let h := differenceStep (x.get j)
  let probe := probe.set j (x.get j + h) j.isLt
  let forward ← evaluate probe
  let probe := probe.set j (x.get j - h) j.isLt
  let backward ← evaluate probe
  let probe := probe.set j (x.get j) j.isLt
  let column ← differenceColumn m h forward backward
  pure (Mat.ofFn fun i k => if k = j then column.get i else jacobian.entry i k, probe)

/-- An approximation of the Jacobian at `x`. -/
def numericJacobianInPlace (evaluate : Vec K n → M (Evaluation K n)) (x : Vec K n) :
    ExceptT Fault M (SizedMat K) := do
  let here ← evaluate x
  let zeros : Mat K here.count n := Mat.ofFn fun _ _ => 0
  let (jacobian, _) ← (List.finRange n).foldlM (varyInPlace evaluate x) (zeros, x)
  pure ⟨here.count, n, jacobian⟩

end InPlace

/-! ## What is asked for -/

/-- The two points at which the problem is evaluated for coordinate `j` of `x`. -/
def probesAt (x : Vec K n) (j : Fin n) : List (Vec K n) :=
  let h := differenceStep (x.get j)
  [x.set j (x.get j + h) j.isLt, x.set j (x.get j - h) j.isLt]

theorem get_of_mem_probesAt {x y : Vec K n} {j k : Fin n} (hy : y ∈ probesAt x j) (hk : k ≠ j) :
    y.get k = x.get k := by
  have hset (a : K) : (x.set j a j.isLt).get k = x.get k :=
    Vector.getElem_set_ne _ _ (Fin.val_ne_of_ne hk.symm)
  rcases List.mem_cons.1 hy with rfl | hy
  · exact hset _
  · obtain rfl := List.mem_singleton.1 hy
    exact hset _

/-- All requests for the sake of a Jacobian at `x`. -/
def jacobianRequests (x : Vec K n) : List (Request K n) :=
  (x :: (List.finRange n).flatMap (probesAt x)).map .evaluation

theorem jacobianRequests_eq (x : Vec K n) : jacobianRequests x
    = .evaluation x :: (List.finRange n).flatMap fun j => (probesAt x j).map .evaluation := by
  rw [jacobianRequests, List.map_cons, List.map_flatMap]

theorem length_jacobianRequests (x : Vec K n) : (jacobianRequests x).length = 1 + 2 * n := by
  have hprobes (j : Fin n) : (probesAt x j).length = 2 := rfl
  simp [jacobianRequests, List.length_flatMap, hprobes]
  omega

variable {p : Problem K n}

theorem writes_numericJacobian (p : Problem K n) (x : Vec K n) : Writes
    (numericJacobian p.recorded x) (numericJacobian (M := Id) p.evaluate x).run
    (jacobianRequests x) := by
  have hcolumn (j : Fin n) : Writes (do
      let h := differenceStep (x.get j)
      let forward ← p.recorded (x.set j (x.get j + h) j.isLt)
      let backward ← p.recorded (x.set j (x.get j - h) j.isLt)
      pure (differenceColumn (p.evaluate x).count h forward backward)) (Checked.columnAt p x j)
      ((probesAt x j).map .evaluation) :=
    (p.writes_recorded _).bind ((p.writes_recorded _).bind_pure _)
  have hrun : (numericJacobian (M := Id) p.evaluate x).run
      = (((List.finRange n).map (Checked.columnAt p x)).mapM id).map SizedMat.ofColumns := by
    rw [Checked.numericJacobian_run, List.mapM_map]
    rfl
  rw [hrun, jacobianRequests_eq]
  exact (p.writes_recorded x).bind ((Writes.mapM hcolumn _).bind_pure _)

section Steady

variable (steady : ∀ y, (p.evaluate y).count = m)

/-- A round leaves the probe as it was. -/
theorem writes_varyInPlace (x : Vec K n) (a : Mat K m n) (j : Fin n) :
    Writes (varyInPlace p.recorded x (a, x) j).run
      (.ok (Mat.ofFn fun i k => if k = j then (Checked.quotients steady x j).get i
        else a.entry i k, x))
      ((probesAt x j).map .evaluation) := by
  have hcolumn : differenceColumn m (differenceStep (x.get j))
      (p.evaluate (x.set j (x.get j + differenceStep (x.get j)) j.isLt))
      (p.evaluate (x.set j (x.get j - differenceStep (x.get j)) j.isLt))
      = .ok (Checked.quotients steady x j) := dif_pos ⟨steady _, steady _⟩
  simp only [varyInPlace, Vector.set_set, Checked.set_get]
  refine (p.writes_recorded _).lift.bindExcept ((p.writes_recorded _).lift.bindExcept ?_)
  rw [hcolumn]
  exact .pure _

/-- The difference quotients in the columns before `k`. -/
def jacobianUpTo (x : Vec K n) (k : Nat) : Mat K m n :=
  Mat.ofFn fun i j => if j < k then (Checked.quotients steady x j).get i else 0

theorem writes_numericJacobianInPlace (x : Vec K n) :
    Writes (numericJacobianInPlace p.recorded x).run (.ok ⟨m, n, jacobianUpTo steady x n⟩)
      (jacobianRequests x) := by
  obtain rfl := steady x
  have hround (k : Fin n) : Writes (varyInPlace p.recorded x (jacobianUpTo steady x k, x) k).run
      (.ok (jacobianUpTo steady x (k + 1), x)) ((probesAt x k).map .evaluation) := by
    have hfilled : (Mat.ofFn fun i j => if j = k then (Checked.quotients steady x k).get i
        else (jacobianUpTo steady x k).entry i j) = jacobianUpTo steady x (k + 1) := by
      refine Mat.ext_entry fun i j => ?_
      simp only [jacobianUpTo, Mat.entry_ofFn]
      exact Checked.filled_succ (fun j => (Checked.quotients steady x j).get i) 0 k j
    rw [← hfilled]
    exact writes_varyInPlace steady x _ k
  have hzeros : (Mat.ofFn fun _ _ => 0) = jacobianUpTo steady x 0 := by
    simp [jacobianUpTo]
  have hloop := Writes.foldlM_finRange (g := fun k => (jacobianUpTo steady x k, x)) hround
  rw [jacobianRequests_eq, numericJacobianInPlace, ← List.append_nil (List.flatMap _ _)]
  refine (p.writes_recorded x).lift.bindExcept ?_
  rw [hzeros]
  exact hloop.bindExcept (.pure _)

/-- An entry is the difference quotient of one residual along one coordinate. -/
theorem entry_jacobianUpTo (x : Vec K n) (i : Fin m) (j : Fin n) :
    (jacobianUpTo steady x n).entry i j
      = (derivative (M := Id) (fun t => p.residual steady i (x.set j t j.isLt)) (x.get j)).run := by
  rw [jacobianUpTo, Mat.entry_ofFn, if_pos j.isLt, Checked.quotients, Vec.get_ofFn]
  rfl

end Steady

/-- On a problem with `m` residuals everywhere, the approximation of the Jacobian at `x` has the
difference quotient of residual `i` along coordinate `j` as its entry in row `i` and column `j`. The
problem is evaluated once at `x` and twice for each coordinate, at points that agree with `x` in the
others, and nothing else is asked of it. All this holds also if one probe serves for all points; and
a program on plain data that checks every length and every index returns the same matrix. -/
theorem numericJacobian_recorded {p : Problem K n} (steady : ∀ y, (p.evaluate y).count = m)
    (x : Vec K n) :
    ∃ a : Mat K m n,
      (∀ i j, a.entry i j
        = (derivative (M := Id) (fun t => p.residual steady i (x.set j t j.isLt)) (x.get j)).run)
      ∧ (numericJacobian (M := Id) p.evaluate x).run = .ok ⟨m, n, a⟩
      ∧ (numericJacobian p.recorded x).run [] = (.ok ⟨m, n, a⟩, jacobianRequests x)
      ∧ (numericJacobianInPlace p.recorded x).run.run [] = (.ok ⟨m, n, a⟩, jacobianRequests x)
      ∧ (∀ q : Checked.Problem K, q.Refines p →
        Checked.numericJacobian q x.toList = .ok ⟨m, n, a⟩)
      ∧ (jacobianRequests x = .evaluation x :: (List.finRange n).flatMap fun j =>
          let h := differenceStep (x.get j)
          [.evaluation (x.set j (x.get j + h) j.isLt), .evaluation (x.set j (x.get j - h) j.isLt)])
      ∧ (jacobianRequests x).length = 1 + 2 * n
      ∧ ∀ j, ∀ y ∈ probesAt x j, ∀ k, k ≠ j → y.get k = x.get k := by
  have hrun := Checked.numericJacobian_run_of_steady steady x
  refine ⟨jacobianUpTo steady x n, entry_jacobianUpTo steady x, hrun, ?_,
    writes_numericJacobianInPlace steady x [],
    fun q hq => (Checked.numericJacobian_of steady hq x).1,
    jacobianRequests_eq x, length_jacobianRequests x,
    fun j y hy k hk => get_of_mem_probesAt hy hk⟩
  rw [writes_numericJacobian p x [], hrun]
  rfl

/-- The residuals `x² + y - 11` and `x + y² - 7` at a point with a negative coordinate: there are
five evaluations, and along `x` the second residual is varied with `y` at its old value. -/
theorem numericJacobian_recorded_pair :
    let p : Problem Float 2 :=
      { evaluate := fun z => ⟨2, #v[z.get 0 * z.get 0 + z.get 1 - 11.0,
          z.get 0 + z.get 1 * z.get 1 - 7.0], #v[#v[2.0 * z.get 0, 1.0], #v[1.0, 2.0 * z.get 1]]⟩ }
    let x : Vec Float 2 := #v[1.5, -2.0]
    (∀ y, (p.evaluate y).count = 2)
      ∧ ∃ a : Mat Float 2 2,
        (numericJacobian p.recorded x).run [] = (.ok ⟨2, 2, a⟩, jacobianRequests x)
          ∧ (numericJacobianInPlace p.recorded x).run.run [] = (.ok ⟨2, 2, a⟩, jacobianRequests x)
          ∧ (jacobianRequests x).length = 5
          ∧ a.entry 1 0 = (derivative (M := Id) (fun t => t + -2.0 * -2.0 - 7.0) 1.5).run := by
  intro p x
  have steady : ∀ y, (p.evaluate y).count = 2 := fun _ => rfl
  obtain ⟨a, hentry, -, hrun, hinPlace, -, -, hlength, -⟩ := numericJacobian_recorded steady x
  exact ⟨steady, a, hrun, hinPlace, hlength, hentry 1 0⟩

end LeastSquares
