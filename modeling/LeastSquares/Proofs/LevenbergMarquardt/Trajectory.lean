/-
LeastSquares.Proofs.LevenbergMarquardt.Trajectory — the states and the trials of a run.

* `loop_eq_run` — a run is the run of a `Loop`, with `iteration` as its rounds.
* `History` — the states between the steps of a run, each with the trials made before it.
* `History.minimize_eq` — the run from such a state on is the rest of the whole run.
* `History.tracks` — what the trials leave behind in the state: the model belongs to the point, and
  the requests are those of the initial point and of the trials, in this order.
* `exists_history` — every run with residuals ends in such a state, in one of three ways
  (`State.Ends`).
-/
import LeastSquares.LevenbergMarquardt.Minimize
import LeastSquares.Proofs.Loop
import LeastSquares.Proofs.Objective

namespace LeastSquares.LevenbergMarquardt

variable {K : Type} [Scalar K] {n : Nat}

/-! ## One step

A trial that is accepted and one that is rejected differ in three fields: the point, its model and
the damping parameter. The others record the trial either way. -/

namespace State

variable (o : Options K) (s : State K n) (x : Vec K n) (e : Evaluation K n)

theorem point_advance :
    (s.advance o x e).point = if e.residuals.normSq < s.model.error then x else s.point := by
  dsimp only [advance]
  split <;> rfl

theorem model_advance : (s.advance o x e).model
    = if e.residuals.normSq < s.model.error then .ofEvaluation e else s.model := by
  dsimp only [advance]
  split <;> rfl

theorem lambda_advance : (s.advance o x e).lambda
    = if e.residuals.normSq < s.model.error then s.lambda / o.lambdaDown
      else s.lambda * o.lambdaUp := by
  dsimp only [advance]
  split <;> rfl

@[simp] theorem trial_advance : (s.advance o x e).trial = x := by
  dsimp only [advance]
  split <;> rfl

@[simp] theorem trialError_advance : (s.advance o x e).trialError = e.residuals.normSq := by
  dsimp only [advance]
  split <;> rfl

theorem converged_advance : (s.advance o x e).converged = s.endsAt o e := by
  dsimp only [advance]
  split <;> rfl

@[simp] theorem steps_advance : (s.advance o x e).steps = s.steps + 1 := by
  dsimp only [advance]
  split <;> rfl

@[simp] theorem evaluations_advance : (s.advance o x e).evaluations = s.evaluations + 1 := by
  dsimp only [advance]
  split <;> rfl

@[simp] theorem requests_advance :
    (s.advance o x e).requests = s.requests.push (.evaluation x) := by
  dsimp only [advance]
  split <;> rfl

end State

/-! ## A run -/

/-- A point that a run tries, and the state in which it does. -/
structure Trial (K : Type) (n : Nat) where
  state : State K n
  point : Vec K n

/-- The run from `x₀` is in the state `s` before, between or after its steps, and has made the
trials `ts` until then. -/
inductive History (o : Options K) (p : Problem K n) (x₀ : Vec K n) :
    List (Trial K n) → State K n → Prop where
  | start (count : (p.evaluate x₀).count ≠ 0) :
      History o p x₀ [] (.start o x₀ (p.evaluate x₀))
  | next {ts : List (Trial K n)} {s : State K n} {x : Vec K n} (history : History o p x₀ ts s)
      (running : s.converged = false) (budget : s.steps < o.maxSteps)
      (solved : s.trialPoint? = some x) :
      History o p x₀ (ts ++ [⟨s, x⟩]) (s.advance o x (p.evaluate x))

/-- The run from `x₀` ends in the state `s` with the result `r`. -/
inductive State.Ends (o : Options K) (s : State K n) : Run K n → Prop where
  | converged (found : s.converged = true) : s.Ends o s.finish
  | outOfSteps (budget : o.maxSteps ≤ s.steps) : s.Ends o s.finish
  | unsolved (running : s.converged = false) (budget : s.steps < o.maxSteps)
      (unsolved : s.trialPoint? = none) : s.Ends o s.giveUp

variable {o : Options K} {p : Problem K n} {x₀ x : Vec K n} {s : State K n}
  {ts : List (Trial K n)} {r : Run K n}

/-- A run ends in a state, or makes another trial there. -/
theorem State.ends_or_tries (o : Options K) (s : State K n) :
    (∃ r, s.Ends o r)
      ∨ s.converged = false ∧ s.steps < o.maxSteps ∧ ∃ x, s.trialPoint? = some x := by
  cases running : s.converged with
  | true => exact .inl ⟨_, .converged running⟩
  | false =>
    by_cases budget : s.steps < o.maxSteps
    · cases solved : s.trialPoint? with
      | none => exact .inl ⟨_, .unsolved running budget solved⟩
      | some x => exact .inr ⟨rfl, budget, x, rfl⟩
    · exact .inl ⟨_, .outOfSteps (not_lt.1 budget)⟩

theorem State.Ends.requests_eq (h : s.Ends o r) : r.requests = s.requests := by
  cases h <;> rfl

theorem State.Ends.steps_eq (h : s.Ends o r) : r.report.steps = s.steps := by
  cases h <;> rfl

/-! ### The run as a loop

The loop of the program has this shape, with its tests in the same order. Its budget is counted down
while the state counts its steps up; `State.ends_iff` brings the two together. -/

/-- The steps of a run: each makes a trial, unless there is none to make. -/
def iteration (o : Options K) (p : Problem K n) : Loop (State K n) (Run K n) where
  done := State.converged
  round s := match s.trialPoint? with
    | none => .inl s.giveUp
    | some x => .inr (s.advance o x (p.evaluate x))
  finish := State.finish

theorem iteration_round_of_none (o : Options K) (p : Problem K n)
    (unsolved : s.trialPoint? = none) : (iteration o p).round s = .inl s.giveUp := by
  simp only [iteration, unsolved]

theorem iteration_round_of_some (o : Options K) (p : Problem K n)
    (solved : s.trialPoint? = some x) :
    (iteration o p).round s = .inr (s.advance o x (p.evaluate x)) := by
  simp only [iteration, solved]

/-- A step stops the run if there is nothing to try. -/
theorem iteration_round_eq_inl_iff :
    (iteration o p).round s = .inl r ↔ s.trialPoint? = none ∧ s.giveUp = r := by
  cases h : s.trialPoint? <;> simp [iteration, h]

/-- A step after which the run goes on makes a trial. -/
theorem iteration_round_eq_inr_iff {t : State K n} : (iteration o p).round s = .inr t
    ↔ ∃ x, s.trialPoint? = some x ∧ s.advance o x (p.evaluate x) = t := by
  cases h : s.trialPoint? <;> simp [iteration, h]

/-- Both are defined by recursion on the budget. -/
theorem loop_eq_run (o : Options K) (p : Problem K n) (budget : Nat) (s : State K n) :
    loop o p budget s = (iteration o p).run budget s := by
  induction budget generalizing s with
  | zero => rfl
  | succ budget ih =>
    have hdone : (iteration o p).done s = s.converged := rfl
    rw [loop, Loop.run, hdone]
    split_ifs with found
    · rfl
    · cases solved : s.trialPoint? with
      | none => rw [iteration_round_of_none o p solved]
      | some x =>
        rw [iteration_round_of_some o p solved]
        exact ih _

/-- A run ends in a state as its loop does with the rounds that are left. -/
theorem State.ends_iff (p : Problem K n) :
    s.Ends o r ↔ (iteration o p).Ends (o.maxSteps - s.steps) s r := by
  constructor
  · intro h
    cases h with
    | converged found => exact .done found
    | outOfSteps budget =>
      have spent : o.maxSteps - s.steps = 0 := Nat.sub_eq_zero_of_le budget
      cases found : s.converged with
      | true => exact .done found
      | false => exact .spent found spent
    | unsolved running budget unsolved =>
      exact .stopped running (Nat.sub_pos_of_lt budget) (iteration_round_of_none o p unsolved)
  · intro h
    cases h with
    | done found => exact .converged found
    | spent _ spent => exact .outOfSteps (Nat.sub_eq_zero_iff_le.1 spent)
    | stopped running left stopped =>
      obtain ⟨unsolved, rfl⟩ := iteration_round_eq_inl_iff.1 stopped
      exact .unsolved running (Nat.lt_of_sub_pos left) unsolved

theorem loop_of_ends (h : s.Ends o r) (p : Problem K n) :
    loop o p (o.maxSteps - s.steps) s = r :=
  (loop_eq_run ..).trans ((State.ends_iff p).1 h).run_eq

theorem loop_of_trial (p : Problem K n) (running : s.converged = false)
    (budget : s.steps < o.maxSteps) (solved : s.trialPoint? = some x) :
    loop o p (o.maxSteps - s.steps) s
      = loop o p (o.maxSteps - (s.steps + 1)) (s.advance o x (p.evaluate x)) := by
  have hleft : o.maxSteps - s.steps = o.maxSteps - (s.steps + 1) + 1 := by omega
  rw [hleft, loop_eq_run, loop_eq_run]
  exact Loop.run_of_go running (iteration_round_of_some o p solved) _

/-- Requests are made one after another, and none is taken back. -/
theorem logs_requests (o : Options K) (p : Problem K n) :
    (iteration o p).Logs (·.requests.toList) (·.requests.toList) where
  finish _ := rfl
  round s := by
    cases solved : s.trialPoint? with
    | none =>
      rw [iteration_round_of_none o p solved]
      exact List.prefix_rfl
    | some x =>
      rw [iteration_round_of_some o p solved]
      simp

/-- What has been asked before a state stays at the front of what is asked in the whole run. -/
theorem requests_prefix_loop (o : Options K) (p : Problem K n) (budget : Nat) (s : State K n) :
    s.requests.toList <+: (loop o p budget s).requests.toList :=
  loop_eq_run o p budget s ▸ (logs_requests o p).prefix_run budget s

/-! ### The states of a run -/

namespace History

/-- The run from a state on is what is left of the whole run. -/
theorem minimize_eq (h : History o p x₀ ts s) :
    s.steps ≤ o.maxSteps ∧ minimize o p x₀ = loop o p (o.maxSteps - s.steps) s := by
  induction h with
  | start count =>
    refine ⟨Nat.zero_le _, ?_⟩
    rw [minimize, if_neg count]
    rfl
  | next _ running budget solved ih =>
    rw [State.steps_advance, ih.2, loop_of_trial p running budget solved]
    exact ⟨budget, rfl⟩

theorem minimize_eq_of_ends (h : History o p x₀ ts s) (hr : s.Ends o r) : minimize o p x₀ = r :=
  h.minimize_eq.2.trans (loop_of_ends hr p)

/-- A run goes on until it ends. -/
theorem exists_ends (h : History o p x₀ ts s) :
    ∃ ts' s', History o p x₀ ts' s' ∧ s'.Ends o (minimize o p x₀) := by
  -- a step adds its trial to the history, and uses up one of the steps that are left
  have keeps (s t : State K n) (hs : ∃ ts, History o p x₀ ts s) (running : s.converged = false)
      (left : 0 < o.maxSteps - s.steps) (went : (iteration o p).round s = .inr t) :
      (∃ ts, History o p x₀ ts t) ∧ o.maxSteps - t.steps + 1 = o.maxSteps - s.steps := by
    obtain ⟨ts, hs⟩ := hs
    obtain ⟨x, solved, rfl⟩ := iteration_round_eq_inr_iff.1 went
    refine ⟨⟨_, hs.next running (Nat.lt_of_sub_pos left) solved⟩, ?_⟩
    rw [State.steps_advance]
    omega
  obtain ⟨t, ⟨ts', ht⟩, hend⟩ := (iteration o p).exists_ends keeps ⟨ts, h⟩
  rw [← loop_eq_run, ← h.minimize_eq.2] at hend
  exact ⟨ts', t, ht, (State.ends_iff p).2 hend⟩

end History

/-- Every run with residuals at its initial point comes to an end. -/
theorem exists_history (count : (p.evaluate x₀).count ≠ 0) (o : Options K) :
    ∃ ts s, History o p x₀ ts s ∧ s.Ends o (minimize o p x₀) :=
  (History.start count).exists_ends

/-! ## What the trials leave behind -/

/-- The state is up to date after the trials `ts`. -/
structure State.Tracks (p : Problem K n) (x₀ : Vec K n) (ts : List (Trial K n)) (s : State K n) :
    Prop where
  model : s.model = .ofEvaluation (p.evaluate s.point)
  trialError : s.trialError = p.error s.trial
  steps : s.steps = ts.length
  evaluations : s.evaluations = s.requests.size
  requests : s.requests.toList = (x₀ :: ts.map Trial.point).map .evaluation
  trial : (x₀ :: ts.map Trial.point).getLast? = some s.trial

theorem State.Tracks.advance (h : s.Tracks p x₀ ts) (o : Options K) (x : Vec K n) :
    (s.advance o x (p.evaluate x)).Tracks p x₀ (ts ++ [⟨s, x⟩]) where
  model := by
    rw [model_advance, point_advance]
    split
    · rfl
    · exact h.model
  trialError := by
    rw [trialError_advance, trial_advance]
    rfl
  steps := by simp [h.steps]
  evaluations := by simp [h.evaluations]
  requests := by simp [h.requests]
  trial := by
    rw [trial_advance, List.map_append, ← List.cons_append]
    exact List.getLast?_concat

theorem History.tracks (h : History o p x₀ ts s) : s.Tracks p x₀ ts := by
  induction h with
  | start _ => exact ⟨rfl, rfl, rfl, rfl, rfl, rfl⟩
  | next _ _ _ _ ih => exact ih.advance o _

end LeastSquares.LevenbergMarquardt
