/-
LeastSquares.Proofs.DogLeg.Trajectory — the states that a run goes through.

* `State.turn_eq_go_iff` — all that a step can do, if the run goes on after it: a trial is made,
  and it is accepted or rejected.
* `loop_eq_run` — a run is the run of a `Loop`, with `iteration` as its rounds.
* `Reaches` — the states between the steps of a run.
* `Reaches.minimize_eq` — the run from a reached state on is the rest of the whole run, so what
  holds of all reached states holds along every run.
-/
import LeastSquares.DogLeg.Minimize
import LeastSquares.Proofs.Loop

namespace LeastSquares.DogLeg

variable {K : Type} [Scalar K] {n : Nat}

namespace State

variable {o : Options K} {p : Problem K n} {s t : State K n} {h : Vec K n}

/-! ## One step -/

/-- The step `h` is tried: the linear model gives it, and it is not too short. -/
def Tries (o : Options K) (s : State K n) (h : Vec K n) : Prop :=
  step? s.model s.radius = some h ∧ s.isNegligible o.epsilon h.norm = false

/-- The gain ratio of the step `h`. -/
def ratio (p : Problem K n) (s : State K n) (h : Vec K n) : K :=
  gainRatio s.model h (p.residuals (s.point.add h))

/-- The state in which the gain ratio of the step `h` is known. -/
def afterTrial (p : Problem K n) (s : State K n) (h : Vec K n) : State K n :=
  { s with steps := s.steps + 1 }.tried (s.point.add h) h.norm (s.ratio p h)

/-- The state in which the step `h` has been accepted. -/
def afterMove (o : Options K) (p : Problem K n) (s : State K n) (h : Vec K n) : State K n :=
  (s.afterTrial p h).moved o (s.point.add h) (p.evaluate (s.point.add h))

/-- Without a step to try the run fails. -/
theorem turn_of_singular (p : Problem K n) (singular : step? s.model s.radius = none) :
    s.turn o p = .stop ({ s with steps := s.steps + 1 }.fail (.singular (s.steps + 1))) := by
  simp only [turn, singular]

/-- With a step that is too short to be tried the run has converged. -/
theorem turn_of_negligible (p : Problem K n) (step : step? s.model s.radius = some h)
    (short : s.isNegligible o.epsilon h.norm = true) :
    s.turn o p = .stop { s with steps := s.steps + 1, found := true }.finish := by
  have short' : { s with steps := s.steps + 1 }.isNegligible o.epsilon h.norm = true := short
  simp only [turn, step]
  rw [if_pos short']

theorem turn_of_tries (p : Problem K n) (tried : s.Tries o h) :
    s.turn o p =
      if 0 < s.ratio p h then
        if (s.afterMove o p h).model.isFinite then
          .go ((s.afterMove o p h).resize o h.norm (s.ratio p h))
        else .stop ((s.afterMove o p h).fail (.notFinite (s.steps + 1)))
      else .go ((s.afterTrial p h).resize o h.norm (s.ratio p h)) := by
  obtain ⟨hstep, hlong⟩ := tried
  have hlong' : ¬ { s with steps := s.steps + 1 }.isNegligible o.epsilon h.norm = true :=
    Bool.not_eq_true _ ▸ hlong
  simp only [turn, hstep]
  rw [if_neg hlong']
  rfl

/-- There is no step to try, or only one that is too short, or one that is tried. -/
theorem step_cases (o : Options K) (s : State K n) : step? s.model s.radius = none
    ∨ (∃ h, step? s.model s.radius = some h ∧ s.isNegligible o.epsilon h.norm = true)
    ∨ ∃ h, s.Tries o h := by
  cases hstep : step? s.model s.radius with
  | none => exact .inl rfl
  | some h =>
    cases hshort : s.isNegligible o.epsilon h.norm with
    | true => exact .inr (.inl ⟨h, rfl, hshort⟩)
    | false => exact .inr (.inr ⟨h, hstep, hshort⟩)

/-- A step after which the run goes on tries a point. -/
theorem exists_tries (hturn : s.turn o p = .go t) : ∃ h, s.Tries o h := by
  rcases s.step_cases o with singular | ⟨h, step, short⟩ | tried
  · rw [turn_of_singular p singular] at hturn
    contradiction
  · rw [turn_of_negligible p step short] at hturn
    contradiction
  · exact tried

/-- A trial after which the run goes on is accepted or rejected. -/
theorem eq_of_turn (tried : s.Tries o h) (hturn : s.turn o p = .go t) :
    (0 < s.ratio p h ∧ (s.afterMove o p h).model.isFinite = true
        ∧ t = (s.afterMove o p h).resize o h.norm (s.ratio p h))
      ∨ (¬ 0 < s.ratio p h ∧ t = (s.afterTrial p h).resize o h.norm (s.ratio p h)) := by
  rw [turn_of_tries p tried] at hturn
  by_cases accepted : 0 < s.ratio p h
  · rw [if_pos accepted] at hturn
    by_cases finite : (s.afterMove o p h).model.isFinite = true
    · rw [if_pos finite] at hturn
      exact .inl ⟨accepted, finite, (Turn.go.inj hturn).symm⟩
    · rw [if_neg finite] at hturn
      contradiction
  · rw [if_neg accepted] at hturn
    exact .inr ⟨accepted, (Turn.go.inj hturn).symm⟩

/-- A step after which the run goes on tries a point and accepts it, or tries it and rejects it. If
it accepts the point, the linear model there is finite. -/
theorem turn_eq_go_iff : s.turn o p = .go t ↔ ∃ h, s.Tries o h ∧
    ((0 < s.ratio p h ∧ (s.afterMove o p h).model.isFinite = true
        ∧ t = (s.afterMove o p h).resize o h.norm (s.ratio p h))
      ∨ (¬ 0 < s.ratio p h ∧ t = (s.afterTrial p h).resize o h.norm (s.ratio p h))) := by
  constructor
  · intro hturn
    obtain ⟨h, tried⟩ := exists_tries hturn
    exact ⟨h, tried, eq_of_turn tried hturn⟩
  · rintro ⟨h, tried, ⟨accepted, finite, rfl⟩ | ⟨rejected, rfl⟩⟩
    · rw [turn_of_tries p tried, if_pos accepted, if_pos finite]
    · rw [turn_of_tries p tried, if_neg rejected]

/-- A step that the run stops at is not there, or too short, or it leads to a point where the linear
model is not finite. -/
theorem cases_of_stop {r : Run K n} (hturn : s.turn o p = .stop r) :
    (step? s.model s.radius = none
        ∧ r = { s with steps := s.steps + 1 }.fail (.singular (s.steps + 1)))
      ∨ (∃ h, step? s.model s.radius = some h ∧ s.isNegligible o.epsilon h.norm = true
        ∧ r = { s with steps := s.steps + 1, found := true }.finish)
      ∨ ∃ h, s.Tries o h ∧ 0 < s.ratio p h ∧ (s.afterMove o p h).model.isFinite = false
        ∧ r = (s.afterMove o p h).fail (.notFinite (s.steps + 1)) := by
  rcases s.step_cases o with singular | ⟨h, step, short⟩ | ⟨h, tried⟩
  · rw [turn_of_singular p singular] at hturn
    exact .inl ⟨singular, (Turn.stop.inj hturn).symm⟩
  · rw [turn_of_negligible p step short] at hturn
    exact .inr (.inl ⟨h, step, short, (Turn.stop.inj hturn).symm⟩)
  · rw [turn_of_tries p tried] at hturn
    split at hturn
    · rename_i accepted
      split at hturn
      · contradiction
      · rename_i finite
        exact .inr (.inr ⟨h, tried, accepted, Bool.not_eq_true _ ▸ finite,
          (Turn.stop.inj hturn).symm⟩)
    · contradiction

/-! ## What a trial changes -/

section Trial

variable (o : Options K) (p : Problem K n) (s : State K n) (h : Vec K n)

@[simp] theorem steps_afterTrial : (s.afterTrial p h).steps = s.steps + 1 := rfl

@[simp] theorem evaluations_afterTrial : (s.afterTrial p h).evaluations = s.evaluations + 1 := rfl

@[simp] theorem requests_afterTrial :
    (s.afterTrial p h).requests = s.requests.push (.residuals (s.point.add h)) := rfl

@[simp] theorem point_afterMove : (s.afterMove o p h).point = s.point.add h := rfl

@[simp] theorem steps_afterMove : (s.afterMove o p h).steps = s.steps + 1 := rfl

@[simp] theorem evaluations_afterMove :
    (s.afterMove o p h).evaluations = s.evaluations + 1 + 1 := rfl

@[simp] theorem requests_afterMove : (s.afterMove o p h).requests
    = (s.requests.push (.residuals (s.point.add h))).push (.evaluation (s.point.add h)) := rfl

end Trial

/-! ## What a change of the radius leaves alone -/

section Resize

variable (o : Options K) (s : State K n) (length ratio : K)

@[simp] theorem point_resize : (s.resize o length ratio).point = s.point := by
  unfold resize
  repeat' split
  all_goals rfl

@[simp] theorem model_resize : (s.resize o length ratio).model = s.model := by
  unfold resize
  repeat' split
  all_goals rfl

@[simp] theorem steps_resize : (s.resize o length ratio).steps = s.steps := by
  unfold resize
  repeat' split
  all_goals rfl

@[simp] theorem evaluations_resize : (s.resize o length ratio).evaluations = s.evaluations := by
  unfold resize
  repeat' split
  all_goals rfl

@[simp] theorem requests_resize : (s.resize o length ratio).requests = s.requests := by
  unfold resize
  repeat' split
  all_goals rfl

end Resize

/-- Every step is counted. -/
theorem steps_of_turn (hturn : s.turn o p = .go t) : t.steps = s.steps + 1 := by
  obtain ⟨h, -, ⟨-, -, rfl⟩ | ⟨-, rfl⟩⟩ := turn_eq_go_iff.1 hturn
  · rw [steps_resize]
    rfl
  · rw [steps_resize]
    rfl

end State

/-! ## A run -/

/-- The state before the first step, made within the given radius. -/
def State.initial (p : Problem K n) (x₀ : Vec K n) (radius : K) : State K n where
  point := x₀
  model := LinearModel.ofEvaluation (p.evaluate x₀)
  radius := radius
  found := false
  steps := 0
  evaluations := 1
  requests := #[.evaluation x₀]
  notes := #[]

/-- Steps are made if there are residuals, if these and the gradient are finite, and if one of them
is not small. -/
theorem opening_eq_go {o : Options K} {x₀ : Vec K n} {m : LinearModel K n} (count : m.count ≠ 0)
    (finite : m.isFinite = true) (moving : m.isStationary o.epsilon = false) :
    opening o x₀ m = .go (o.delta0.getD (0.5 * m.gradient.normInf)) := by
  rw [opening, if_neg count, if_pos finite, moving]
  rfl

/-! ### The run as a loop -/

/-- The steps of a run. -/
def iteration (o : Options K) (p : Problem K n) : Loop (State K n) (Run K n) where
  done := State.found
  round s := match s.turn o p with
    | .stop run => .inl run
    | .go next => .inr next
  finish := State.finish

section Iteration

variable {o : Options K} {p : Problem K n} {s t : State K n} {r : Run K n}

theorem iteration_round_eq_inl_iff :
    (iteration o p).round s = .inl r ↔ s.turn o p = .stop r := by
  cases h : s.turn o p <;> simp [iteration, h]

theorem iteration_round_eq_inr_iff :
    (iteration o p).round s = .inr t ↔ s.turn o p = .go t := by
  cases h : s.turn o p <;> simp [iteration, h]

/-- Both are defined by recursion on the budget. -/
theorem loop_eq_run (o : Options K) (p : Problem K n) (budget : Nat) (s : State K n) :
    loop o p budget s = (iteration o p).run budget s := by
  induction budget generalizing s with
  | zero => rfl
  | succ budget ih =>
    have hdone : (iteration o p).done s = s.found := rfl
    rw [loop, Loop.run, hdone]
    split_ifs
    · rfl
    · cases turned : s.turn o p with
      | stop r => rw [iteration_round_eq_inl_iff.2 turned]
      | go t =>
        rw [iteration_round_eq_inr_iff.2 turned]
        exact ih t

end Iteration

/-! ### The states of a run -/

/-- A state that the run from `x₀` comes to before, between or after its steps. -/
inductive Reaches (o : Options K) (p : Problem K n) (x₀ : Vec K n) : State K n → Prop where
  | initial {radius : K}
      (opened : opening o x₀ (LinearModel.ofEvaluation (p.evaluate x₀)) = .go radius) :
      Reaches o p x₀ (.initial p x₀ radius)
  | next {s t : State K n} (reached : Reaches o p x₀ s) (running : s.found = false)
      (budget : s.steps < o.maxSteps) (turned : s.turn o p = .go t) : Reaches o p x₀ t

/-- The run from a reached state on is what is left of the whole run. -/
theorem Reaches.minimize_eq {o : Options K} {p : Problem K n} {x₀ : Vec K n} {s : State K n}
    (h : Reaches o p x₀ s) :
    s.steps ≤ o.maxSteps ∧ minimize o p x₀ = loop o p (o.maxSteps - s.steps) s := by
  induction h with
  | initial opened =>
    refine ⟨Nat.zero_le _, ?_⟩
    rw [minimize, opened]
    rfl
  | @next s t _ running budget turned ih =>
    have hsteps := State.steps_of_turn turned
    have hleft : o.maxSteps - s.steps = o.maxSteps - t.steps + 1 := by omega
    refine ⟨by omega, ?_⟩
    rw [ih.2, hleft, loop_eq_run, loop_eq_run]
    exact Loop.run_of_go running (iteration_round_eq_inr_iff.2 turned) _

/-! ## The end of a run -/

/-- A run ends in the state `s` with the result `r`. -/
inductive State.Ends (o : Options K) (p : Problem K n) (s : State K n) : Run K n → Prop where
  | found (found : s.found = true) : s.Ends o p s.finish
  | outOfSteps (running : s.found = false) (budget : o.maxSteps ≤ s.steps) : s.Ends o p s.finish
  | stopped {r : Run K n} (running : s.found = false) (budget : s.steps < o.maxSteps)
      (turned : s.turn o p = .stop r) : s.Ends o p r

section Ends

variable {o : Options K} {p : Problem K n} {x₀ : Vec K n} {s : State K n} {r : Run K n}

/-- A run ends in a state as its loop does with the rounds that are left. -/
theorem State.ends_iff : s.Ends o p r ↔ (iteration o p).Ends (o.maxSteps - s.steps) s r := by
  constructor
  · intro h
    cases h with
    | found found => exact .done found
    | outOfSteps running budget => exact .spent running (Nat.sub_eq_zero_of_le budget)
    | stopped running budget turned =>
      exact .stopped running (Nat.sub_pos_of_lt budget) (iteration_round_eq_inl_iff.2 turned)
  · intro h
    cases h with
    | done found => exact .found found
    | spent running spent => exact .outOfSteps running (Nat.sub_eq_zero_iff_le.1 spent)
    | stopped running left stopped =>
      exact .stopped running (Nat.lt_of_sub_pos left) (iteration_round_eq_inl_iff.1 stopped)

theorem loop_of_ends (h : s.Ends o p r) : loop o p (o.maxSteps - s.steps) s = r :=
  (loop_eq_run ..).trans (State.ends_iff.1 h).run_eq

theorem Reaches.minimize_eq_of_ends (h : Reaches o p x₀ s) (hr : s.Ends o p r) :
    minimize o p x₀ = r :=
  h.minimize_eq.2.trans (loop_of_ends hr)

/-- A run goes on until it ends. -/
theorem Reaches.exists_ends (h : Reaches o p x₀ s) :
    ∃ s', Reaches o p x₀ s' ∧ s'.Ends o p (minimize o p x₀) := by
  -- a step is counted, so it uses up one of the steps that are left
  have keeps (s t : State K n) (hs : Reaches o p x₀ s) (running : s.found = false)
      (left : 0 < o.maxSteps - s.steps) (went : (iteration o p).round s = .inr t) :
      Reaches o p x₀ t ∧ o.maxSteps - t.steps + 1 = o.maxSteps - s.steps := by
    have turned := iteration_round_eq_inr_iff.1 went
    refine ⟨hs.next running (Nat.lt_of_sub_pos left) turned, ?_⟩
    rw [State.steps_of_turn turned]
    omega
  obtain ⟨t, ht, hend⟩ := (iteration o p).exists_ends keeps h
  rw [← loop_eq_run, ← h.minimize_eq.2] at hend
  exact ⟨t, ht, State.ends_iff.2 hend⟩

end Ends

end LeastSquares.DogLeg
