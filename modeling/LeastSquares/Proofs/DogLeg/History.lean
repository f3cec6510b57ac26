/-
LeastSquares.Proofs.DogLeg.History — the trials of a run, and how it stops.

A step that the run goes on after makes one trial, and so does the last one, unless it finds no step
to try or only one that is too short.

* `History` — the states between the steps of a run, each with the trials made before it.
* `Stops` — the states in which a run may stop, with all trials made until then.
* `Stops.tracks` — the state is up to date: the model belongs to the point, the point is the one
  evaluated last, and the requests are those of the trials, one after the other.
* `minimize_cases` — every run ends at its initial point, or it stops in such a state and reports
  what stands there.
-/
import LeastSquares.Proofs.DogLeg.Trajectory
import LeastSquares.Proofs.Objective

namespace LeastSquares.DogLeg

variable {K : Type} [Scalar K] {n : Nat}

/-! ## Trials -/

/-- A step that a run tries, and the state in which it does. -/
structure Trial (K : Type) (n : Nat) where
  state : State K n
  step : Vec K n

namespace Trial

/-- The point that the step leads to. -/
def point (t : Trial K n) : Vec K n :=
  t.state.point.add t.step

/-- The trial makes the objective smaller, as far as its gain ratio says so. -/
def Accepted (p : Problem K n) (t : Trial K n) : Prop :=
  0 < t.state.ratio p t.step

instance (p : Problem K n) (t : Trial K n) : Decidable (t.Accepted p) :=
  inferInstanceAs (Decidable (0 < t.state.ratio p t.step))

/-- What the problem is asked for in a trial: the residuals, and at the same point the Jacobian if
the trial is accepted. -/
def requests (p : Problem K n) (t : Trial K n) : List (Request K n) :=
  .residuals t.point :: if t.Accepted p then [.evaluation t.point] else []

end Trial

/-- In each of its steps the run from `x₀` makes one of the trials `ts`. -/
def Made (o : Options K) (p : Problem K n) (x₀ : Vec K n) (ts : List (Trial K n)) : Prop :=
  ∀ i (hi : i < ts.length),
    Reaches o p x₀ ts[i].state ∧ ts[i].state.steps = i ∧ ts[i].state.Tries o ts[i].step

theorem Made.concat {o : Options K} {p : Problem K n} {x₀ h : Vec K n} {s : State K n}
    {ts : List (Trial K n)} (made : Made o p x₀ ts) (reached : Reaches o p x₀ s)
    (steps : s.steps = ts.length) (tried : s.Tries o h) : Made o p x₀ (ts ++ [⟨s, h⟩]) := by
  intro i hi
  rcases Nat.lt_or_ge i ts.length with hlt | hge
  · rw [List.getElem_append_left hlt]
    exact made i hlt
  · obtain rfl : i = ts.length := by
      simp only [List.length_append, List.length_singleton] at hi
      omega
    simpa using ⟨reached, steps, tried⟩

/-- The state is up to date after the trials `ts`. -/
structure State.Tracks (p : Problem K n) (x₀ : Vec K n) (ts : List (Trial K n)) (s : State K n) :
    Prop where
  model : s.model = .ofEvaluation (p.evaluate s.point)
  evaluations : s.evaluations = s.requests.size
  requests : s.requests.toList = .evaluation x₀ :: ts.flatMap (Trial.requests p)
  point : (iterates s.requests).getLast? = some s.point

namespace State.Tracks

variable {p : Problem K n} {x₀ h : Vec K n} {ts : List (Trial K n)} {s : State K n}

theorem initial (p : Problem K n) (x₀ : Vec K n) (radius : K) :
    (State.initial p x₀ radius).Tracks p x₀ [] :=
  ⟨rfl, rfl, rfl, rfl⟩

/-- Steps and radius are not looked at. -/
theorem congr {t : State K n} (hs : s.Tracks p x₀ ts) (point : t.point = s.point)
    (model : t.model = s.model) (evaluations : t.evaluations = s.evaluations)
    (requests : t.requests = s.requests) : t.Tracks p x₀ ts := by
  constructor
  · rw [model, point, hs.model]
  · rw [evaluations, requests, hs.evaluations]
  · rw [requests, hs.requests]
  · rw [requests, point, hs.point]

theorem afterTrial (hs : s.Tracks p x₀ ts) (rejected : ¬ 0 < s.ratio p h) :
    (s.afterTrial p h).Tracks p x₀ (ts ++ [⟨s, h⟩]) where
  model := hs.model
  evaluations := by simp [hs.evaluations]
  requests := by
    have hlast : ¬ Trial.Accepted p ⟨s, h⟩ := rejected
    simp [hs.requests, Trial.requests, hlast, Trial.point]
  point := by
    rw [State.requests_afterTrial, iterates_push_residuals]
    exact hs.point

theorem afterMove (hs : s.Tracks p x₀ ts) (accepted : 0 < s.ratio p h) (o : Options K) :
    (s.afterMove o p h).Tracks p x₀ (ts ++ [⟨s, h⟩]) where
  model := rfl
  evaluations := by simp [hs.evaluations]
  requests := by
    have hlast : Trial.Accepted p ⟨s, h⟩ := accepted
    simp [hs.requests, Trial.requests, hlast, Trial.point]
  point := by simp

theorem resize (hs : s.Tracks p x₀ ts) (o : Options K) (length ratio : K) :
    (s.resize o length ratio).Tracks p x₀ ts :=
  hs.congr (State.point_resize ..) (State.model_resize ..) (State.evaluations_resize ..)
    (State.requests_resize ..)

end State.Tracks

/-! ## A run -/

/-- The run from `x₀` is in the state `s` before, between or after its steps, and has made the
trials `ts` until then. -/
inductive History (o : Options K) (p : Problem K n) (x₀ : Vec K n) :
    List (Trial K n) → State K n → Prop where
  | initial {radius : K}
      (opened : opening o x₀ (LinearModel.ofEvaluation (p.evaluate x₀)) = .go radius) :
      History o p x₀ [] (.initial p x₀ radius)
  | next {ts : List (Trial K n)} {s t : State K n} {h : Vec K n} (history : History o p x₀ ts s)
      (running : s.found = false) (budget : s.steps < o.maxSteps) (tried : s.Tries o h)
      (turned : s.turn o p = .go t) : History o p x₀ (ts ++ [⟨s, h⟩]) t

/-- The run from `x₀` may stop in the state `s`, with the trials `ts` made. -/
inductive Stops (o : Options K) (p : Problem K n) (x₀ : Vec K n) :
    List (Trial K n) → State K n → Prop where
  | between {ts : List (Trial K n)} {s : State K n} (history : History o p x₀ ts s) :
      Stops o p x₀ ts s
  /-- There is no step to try, or only one that is too short. -/
  | untried {ts : List (Trial K n)} {s : State K n} (history : History o p x₀ ts s) :
      Stops o p x₀ ts { s with steps := s.steps + 1 }
  /-- The model at the accepted point is not finite. -/
  | notFinite {ts : List (Trial K n)} {s : State K n} {h : Vec K n}
      (history : History o p x₀ ts s) (tried : s.Tries o h) (accepted : 0 < s.ratio p h) :
      Stops o p x₀ (ts ++ [⟨s, h⟩]) (s.afterMove o p h)

/-- The run `r` reports what stands in the state `s`. -/
structure State.Shows (s : State K n) (r : Run K n) : Prop where
  point : r.point = s.point
  evaluations : r.report.evaluations = s.evaluations
  steps : r.report.steps = s.steps
  objective : r.report.objective = 0.5 * s.model.error
  requests : r.requests = s.requests

variable {o : Options K} {p : Problem K n} {x₀ h : Vec K n} {s t : State K n}
  {ts : List (Trial K n)}

namespace History

theorem reaches (hs : History o p x₀ ts s) : Reaches o p x₀ s := by
  induction hs with
  | initial opened => exact .initial opened
  | next _ running budget _ turned ih => exact .next ih running budget turned

theorem steps_eq (hs : History o p x₀ ts s) : s.steps = ts.length := by
  induction hs with
  | initial _ => rfl
  | next _ _ _ _ turned ih => simp [State.steps_of_turn turned, ih]

theorem tracks (hs : History o p x₀ ts s) : s.Tracks p x₀ ts := by
  induction hs with
  | initial _ => exact .initial ..
  | next _ _ _ tried turned ih =>
    obtain ⟨accepted, -, rfl⟩ | ⟨rejected, rfl⟩ := State.eq_of_turn tried turned
    · exact (ih.afterMove accepted o).resize ..
    · exact (ih.afterTrial rejected).resize ..

theorem made (hs : History o p x₀ ts s) : Made o p x₀ ts := by
  induction hs with
  | initial _ => nofun
  | next history _ _ tried _ ih => exact ih.concat history.reaches history.steps_eq tried

end History

theorem Reaches.exists_history (reached : Reaches o p x₀ s) : ∃ ts, History o p x₀ ts s := by
  induction reached with
  | initial opened => exact ⟨[], .initial opened⟩
  | next _ running budget turned ih =>
    obtain ⟨ts, history⟩ := ih
    obtain ⟨h, tried⟩ := State.exists_tries turned
    exact ⟨_, history.next running budget tried turned⟩

namespace Stops

theorem tracks (hs : Stops o p x₀ ts s) : s.Tracks p x₀ ts := by
  cases hs with
  | between history => exact history.tracks
  | untried history => exact history.tracks.congr rfl rfl rfl rfl
  | notFinite history _ accepted => exact history.tracks.afterMove accepted o

theorem made (hs : Stops o p x₀ ts s) : Made o p x₀ ts := by
  cases hs with
  | between history => exact history.made
  | untried history => exact history.made
  | notFinite history tried _ => exact history.made.concat history.reaches history.steps_eq tried

/-- Each step makes a trial, but for the last one perhaps. -/
theorem steps (hs : Stops o p x₀ ts s) : ts.length ≤ s.steps ∧ s.steps ≤ ts.length + 1 := by
  cases hs with
  | between history => simp [history.steps_eq]
  | untried history => simp [history.steps_eq]
  | notFinite history _ _ => simp [history.steps_eq]

end Stops

theorem State.shows_finish (s : State K n) : s.Shows s.finish :=
  ⟨rfl, rfl, rfl, rfl, rfl⟩

theorem State.shows_fail (s : State K n) (note : Note K) : s.Shows (s.fail note) :=
  ⟨rfl, rfl, rfl, rfl, rfl⟩

/-- A run goes on until it stops. -/
theorem Reaches.exists_stops (hs : Reaches o p x₀ s) :
    ∃ ts' s', Stops o p x₀ ts' s' ∧ s'.Shows (minimize o p x₀) := by
  obtain ⟨s', reached, hend⟩ := hs.exists_ends
  obtain ⟨ts, history⟩ := reached.exists_history
  generalize minimize o p x₀ = r at hend
  cases hend with
  | found _ => exact ⟨ts, s', .between history, s'.shows_finish⟩
  | outOfSteps _ _ => exact ⟨ts, s', .between history, s'.shows_finish⟩
  | stopped _ _ turned =>
    obtain ⟨-, rfl⟩ | ⟨h, -, -, rfl⟩ | ⟨h, tried, accepted, -, rfl⟩ := State.cases_of_stop turned
    · exact ⟨ts, _, .untried history, State.shows_fail ..⟩
    · exact ⟨ts, _, .untried history, ⟨rfl, rfl, rfl, rfl, rfl⟩⟩
    · exact ⟨_, _, .notFinite history tried accepted, State.shows_fail ..⟩

theorem opening_eq_stop {m : LinearModel K n} {r : Run K n} (stopped : opening o x₀ m = .stop r) :
    ∃ failure objective notes, r = .atStart x₀ failure objective notes
      ∧ objective = if m.count = 0 then 0 else 0.5 * m.error := by
  unfold opening at stopped
  split_ifs at stopped with count finite stationary
  · exact ⟨_, _, _, (Opening.stop.inj stopped).symm, (if_pos count).symm⟩
  · exact ⟨_, _, _, (Opening.stop.inj stopped).symm, (if_neg count).symm⟩
  · exact ⟨_, _, _, (Opening.stop.inj stopped).symm, (if_neg count).symm⟩

/-- A run ends at its initial point, or it makes steps and stops after them. -/
theorem minimize_cases (o : Options K) (p : Problem K n) (x₀ : Vec K n) :
    (∃ failure objective notes, minimize o p x₀ = .atStart x₀ failure objective notes
        ∧ objective = if (p.evaluate x₀).count = 0 then 0 else 0.5 * p.error x₀)
      ∨ ∃ ts s, Stops o p x₀ ts s ∧ s.Shows (minimize o p x₀) := by
  cases opened : opening o x₀ (LinearModel.ofEvaluation (p.evaluate x₀)) with
  | stop r =>
    have hrun : minimize o p x₀ = r := by rw [minimize, opened]
    exact .inl (hrun ▸ opening_eq_stop opened)
  | go radius => exact .inr (Reaches.initial opened).exists_stops

/-! ## What a run returns -/

theorem State.Tracks.iterates_eq (hs : s.Tracks p x₀ ts) :
    iterates s.requests = x₀ :: (ts.filter fun t => t.Accepted p).map Trial.point := by
  rw [iterates, hs.requests, List.filterMap_cons, List.cons.injEq]
  refine ⟨rfl, ?_⟩
  clear hs
  induction ts with
  | nil => rfl
  | cons t ts ih => by_cases accepted : t.Accepted p <;> simp [Trial.requests, accepted, ih]

/-- The iterates of a run start with its initial point. -/
theorem head?_iterates (o : Options K) (p : Problem K n) (x₀ : Vec K n) :
    (iterates (minimize o p x₀).requests).head? = some x₀ := by
  rcases minimize_cases o p x₀ with ⟨_, _, _, hrun, -⟩ | ⟨ts, s, stops, shows⟩
  · rw [hrun]
    rfl
  · rw [shows.requests, stops.tracks.iterates_eq]
    rfl

/-- A run returns the last one of its iterates. -/
theorem getLast?_iterates (o : Options K) (p : Problem K n) (x₀ : Vec K n) :
    (iterates (minimize o p x₀).requests).getLast? = some (minimize o p x₀).point := by
  rcases minimize_cases o p x₀ with ⟨_, _, _, hrun, -⟩ | ⟨ts, s, stops, shows⟩
  · rw [hrun]
    rfl
  · rw [shows.requests, shows.point]
    exact stops.tracks.point

/-- A run reports half the error of the point that it returns. -/
theorem objective_eq [OrderedScalar K] (o : Options K) (p : Problem K n) (x₀ : Vec K n) :
    (minimize o p x₀).report.objective = 0.5 * p.error (minimize o p x₀).point := by
  rcases minimize_cases o p x₀ with ⟨_, _, _, hrun, hobjective⟩ | ⟨ts, s, stops, shows⟩
  · rw [hrun]
    show _ = 0.5 * p.error x₀
    refine hobjective.trans ?_
    split_ifs with count
    · rw [Problem.error, Vec.normSq_empty count, OrderedScalar.half_zero]
    · rfl
  · rw [shows.objective, shows.point, stops.tracks.model]
    rfl

end LeastSquares.DogLeg
