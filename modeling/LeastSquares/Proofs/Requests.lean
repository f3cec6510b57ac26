/-
LeastSquares.Proofs.Requests — what a run asks of its problem, and what it reports.

A run keeps a list of what it has asked for. The list is complete: a problem that answers these
requests in the same way leads to the same run (`loop_congr` of either solver), whatever it answers
elsewhere. `reports_faithful` says what the list looks like and how the reported numbers follow from
it, for each way in which a run may end.

That the list is complete is seen of one step first, and `Loop.Logs.run_congr` carries it to the
run: what a step asks for is in the list of the run, because nothing is ever taken off it.
-/
import LeastSquares.Proofs.DogLeg.History
import LeastSquares.Proofs.LevenbergMarquardt.Trajectory

namespace LeastSquares

/-! ## The damped method -/

namespace LevenbergMarquardt

variable {K : Type} [Scalar K] {n : Nat} {o : Options K} {p q : Problem K n} {x₀ : Vec K n}

/-- A step depends on the problem only through what it asks for. -/
theorem iteration_round_congr {s : State K n}
    (agree : p.AgreesOn q (Sum.elim (·.requests.toList) (·.requests.toList)
      ((iteration o p).round s))) : (iteration o q).round s = (iteration o p).round s := by
  cases solved : s.trialPoint? with
  | none => rw [iteration_round_of_none o q solved, iteration_round_of_none o p solved]
  | some x =>
    rw [iteration_round_of_some o p solved] at agree
    have asked : q.evaluate x = p.evaluate x := agree.1 x (by simp)
    rw [iteration_round_of_some o q solved, iteration_round_of_some o p solved, asked]

/-- The rest of a run depends on the problem only through its requests. -/
theorem loop_congr {budget : Nat} {s : State K n}
    (agree : p.AgreesOn q (loop o p budget s).requests.toList) :
    loop o q budget s = loop o p budget s := by
  rw [loop_eq_run] at agree ⊢
  rw [loop_eq_run]
  exact (logs_requests o p).run_congr rfl rfl
    (fun _ logged => iteration_round_congr (agree.mono logged)) (List.Subset.refl _)

/-- A report is faithful to what the run has asked for. -/
structure Run.Faithful (o : Options K) (p : Problem K n) (x₀ : Vec K n) (r : Run K n) : Prop where
  evaluations : r.report.evaluations = r.requests.size
  /-- Residuals and Jacobian are asked for at the initial point, and then once in each step. -/
  asked : ∃ xs : List (Vec K n), r.requests.toList = (x₀ :: xs).map .evaluation
    ∧ xs.length = r.report.steps
  /-- The point that is returned is the one asked for last. -/
  returned (x : Vec K n) (hx : r.point = some x) :
    r.requests.toList.getLast? = some (.evaluation x) ∧ r.report.objective = p.error x * 0.5
  none_iff : r.point = none ↔ r.report.failure = some .numerical
  objective_of_none : r.point = none → Scalar.isNaN r.report.objective = true
  determined (q : Problem K n) (agree : p.AgreesOn q r.requests.toList) : minimize o q x₀ = r

/-- A run asks for the initial point first, so both runs start in the same state. -/
theorem minimize_congr (agree : p.AgreesOn q (minimize o p x₀).requests.toList) :
    minimize o q x₀ = minimize o p x₀ := by
  have first : .evaluation x₀ ∈ (minimize o p x₀).requests.toList := by
    unfold minimize
    dsimp only
    split_ifs
    · simp [Run.trivial]
    · exact (requests_prefix_loop o p _ _).subset (by simp [State.start])
  have start : q.evaluate x₀ = p.evaluate x₀ := agree.1 x₀ first
  unfold minimize at agree ⊢
  dsimp only at agree ⊢
  rw [start]
  split_ifs at agree ⊢
  · rfl
  · exact loop_congr agree

/-- A run has two results at its end: with the last trial, or without a point. -/
theorem State.Ends.eq_or_eq {s : State K n} {r : Run K n} (h : s.Ends o r) :
    r = s.finish ∨ r = s.giveUp := by
  cases h with
  | converged _ => exact .inl rfl
  | outOfSteps _ => exact .inl rfl
  | unsolved _ _ _ => exact .inr rfl

/-- A run that ends after some trials is faithful. -/
theorem History.faithful {ts : List (Trial K n)} {s : State K n} {r : Run K n}
    (hnan : Scalar.isNaN (Scalar.nan : K) = true) (h : History o p x₀ ts s) (hend : s.Ends o r) :
    r.Faithful o p x₀ where
  evaluations := by
    rw [hend.requests_eq, ← h.tracks.evaluations]
    rcases hend.eq_or_eq with rfl | rfl <;> rfl
  asked := by
    refine ⟨ts.map Trial.point, ?_, ?_⟩
    · rw [hend.requests_eq, h.tracks.requests]
    · rw [hend.steps_eq, h.tracks.steps, List.length_map]
  returned x hx := by
    rcases hend.eq_or_eq with rfl | rfl
    · obtain rfl : s.trial = x := Option.some.inj hx
      constructor
      · rw [hend.requests_eq, h.tracks.requests, List.getLast?_map, h.tracks.trial]
        rfl
      · rw [← h.tracks.trialError]
        rfl
    · contradiction
  none_iff := by
    rcases hend.eq_or_eq with rfl | rfl
    · cases hconverged : s.converged <;> simp [State.finish, hconverged]
    · exact iff_of_true rfl rfl
  objective_of_none hnone := by
    rcases hend.eq_or_eq with rfl | rfl
    · contradiction
    · exact hnan
  determined q agree := by
    rw [← h.minimize_eq_of_ends hend] at agree ⊢
    exact minimize_congr agree

/-- Without residuals the initial point is returned, with the objective zero. -/
theorem Run.faithful_trivial (o : Options Float) {p : Problem Float n} {x₀ : Vec Float n}
    (count : (p.evaluate x₀).count = 0) : (Run.trivial x₀).Faithful o p x₀ where
  evaluations := rfl
  asked := ⟨[], rfl, rfl⟩
  returned x hx := by
    obtain rfl : x₀ = x := Option.some.inj hx
    refine ⟨rfl, ?_⟩
    rw [Problem.error, Vec.normSq_empty count]
    show (0 : Float) = 0 * 0.5
    decide +kernel
  none_iff := iff_of_false nofun nofun
  objective_of_none := nofun
  determined q agree := by
    have hrun : minimize o p x₀ = Run.trivial x₀ := by rw [minimize, if_pos count]
    rw [← hrun] at agree ⊢
    exact minimize_congr agree

/-- With residuals or without. -/
theorem minimize_faithful (o : Options Float) (p : Problem Float n) (x₀ : Vec Float n) :
    (minimize o p x₀).Faithful o p x₀ := by
  by_cases count : (p.evaluate x₀).count = 0
  · have hrun : minimize o p x₀ = Run.trivial x₀ := by rw [minimize, if_pos count]
    rw [hrun]
    exact Run.faithful_trivial o count
  · obtain ⟨ts, s, h, hend⟩ := exists_history count o
    exact h.faithful (by decide +kernel) hend

end LevenbergMarquardt

/-! ## The trust region method -/

namespace DogLeg

variable {K : Type} [Scalar K] {n : Nat} {o : Options K} {p q : Problem K n} {x₀ : Vec K n}
  {s : State K n}

/-- What has been asked for when a step is over. -/
def Turn.requests : Turn K n → Array (Request K n)
  | .stop run => run.requests
  | .go state => state.requests

/-- A step asks for what its trial asks for, and for nothing if it makes no trial. -/
theorem Turn.requests_of_tries {h : Vec K n} (p : Problem K n) (tried : s.Tries o h) :
    (s.turn o p).requests.toList = s.requests.toList ++ Trial.requests p ⟨s, h⟩ := by
  rw [State.turn_of_tries p tried]
  by_cases accepted : 0 < s.ratio p h
  · have hlast : Trial.Accepted p ⟨s, h⟩ := accepted
    rw [if_pos accepted]
    split_ifs <;> simp [Turn.requests, State.fail, Trial.requests, hlast, Trial.point]
  · have hlast : ¬ Trial.Accepted p ⟨s, h⟩ := accepted
    rw [if_neg accepted]
    simp [Turn.requests, Trial.requests, hlast, Trial.point]

/-- A step adds to the list at its end. -/
theorem Turn.requests_prefix (o : Options K) (p : Problem K n) (s : State K n) :
    s.requests.toList <+: (s.turn o p).requests.toList := by
  rcases s.step_cases o with singular | ⟨h, step, short⟩ | ⟨h, tried⟩
  · rw [State.turn_of_singular p singular]
    exact List.prefix_rfl
  · rw [State.turn_of_negligible p step short]
    exact List.prefix_rfl
  · rw [Turn.requests_of_tries p tried]
    exact List.prefix_append _ _

/-- A step depends on the problem only through what it asks for. -/
theorem State.turn_congr (agree : p.AgreesOn q (s.turn o p).requests.toList) :
    s.turn o q = s.turn o p := by
  rcases s.step_cases o with singular | ⟨h, step, short⟩ | ⟨h, tried⟩
  · rw [turn_of_singular p singular, turn_of_singular q singular]
  · rw [turn_of_negligible p step short, turn_of_negligible q step short]
  · rw [Turn.requests_of_tries p tried] at agree
    have hresiduals : q.residuals (s.point.add h) = p.residuals (s.point.add h) :=
      agree.2 _ (List.mem_append_right _ List.mem_cons_self)
    have hratio : s.ratio q h = s.ratio p h := by rw [ratio, hresiduals, ratio]
    have htrial : s.afterTrial q h = s.afterTrial p h := by rw [afterTrial, hratio, afterTrial]
    rw [turn_of_tries p tried, turn_of_tries q tried, hratio, htrial]
    by_cases accepted : 0 < s.ratio p h
    · have hlast : Trial.Accepted p ⟨s, h⟩ := accepted
      have hevaluate : q.evaluate (s.point.add h) = p.evaluate (s.point.add h) :=
        agree.1 _ (List.mem_append_right _ (by simp [Trial.requests, hlast, Trial.point]))
      have hmove : s.afterMove o q h = s.afterMove o p h := by
        rw [afterMove, htrial, hevaluate, afterMove]
      rw [hmove]
    · rw [if_neg accepted, if_neg accepted]

/-- As a round of a loop, a step has asked for the same. -/
theorem requests_round (o : Options K) (p : Problem K n) (s : State K n) :
    Sum.elim (·.requests.toList) (·.requests.toList) ((iteration o p).round s)
      = (s.turn o p).requests.toList := by
  cases turned : s.turn o p with
  | stop r => rw [iteration_round_eq_inl_iff.2 turned, Sum.elim_inl, Turn.requests]
  | go t => rw [iteration_round_eq_inr_iff.2 turned, Sum.elim_inr, Turn.requests]

/-- Requests are made one after another, and none is taken back. -/
theorem logs_requests (o : Options K) (p : Problem K n) :
    (iteration o p).Logs (·.requests.toList) (·.requests.toList) where
  finish _ := rfl
  round s := requests_round o p s ▸ Turn.requests_prefix o p s

/-- The rest of a run depends on the problem only through its requests. -/
theorem loop_congr {budget : Nat} (agree : p.AgreesOn q (loop o p budget s).requests.toList) :
    loop o q budget s = loop o p budget s := by
  have rounds (t : State K n) (agree : p.AgreesOn q (t.turn o p).requests.toList) :
      (iteration o q).round t = (iteration o p).round t := by
    simp only [iteration, State.turn_congr agree]
  rw [loop_eq_run] at agree ⊢
  rw [loop_eq_run]
  exact (logs_requests o p).run_congr rfl rfl
    (fun t logged => rounds t (agree.mono (requests_round o p t ▸ logged))) (List.Subset.refl _)

theorem minimize_congr (agree : p.AgreesOn q (minimize o p x₀).requests.toList) :
    minimize o q x₀ = minimize o p x₀ := by
  have first : .evaluation x₀ ∈ (minimize o p x₀).requests.toList := by
    rcases minimize_cases o p x₀ with ⟨_, _, _, hrun, -⟩ | ⟨ts, s, stops, shows⟩
    · simp [hrun, Run.atStart]
    · simp [shows.requests, stops.tracks.requests]
  have start : q.evaluate x₀ = p.evaluate x₀ := agree.1 x₀ first
  unfold minimize at agree ⊢
  dsimp only at agree ⊢
  rw [start]
  cases opened : opening o x₀ (LinearModel.ofEvaluation (p.evaluate x₀)) with
  | stop r => rfl
  | go radius =>
    rw [opened] at agree
    exact loop_congr agree

/-- A report is faithful to what the run has asked for. -/
structure Run.Faithful (o : Options K) (p : Problem K n) (x₀ : Vec K n) (r : Run K n) : Prop where
  evaluations : r.report.evaluations = r.requests.size
  /-- Residuals and Jacobian are asked for at the initial point. Then each step makes a trial, but
  for the last one perhaps. -/
  asked : ∃ ts : List (Trial K n), Made o p x₀ ts
    ∧ r.requests.toList = .evaluation x₀ :: ts.flatMap (Trial.requests p)
    ∧ ts.length ≤ r.report.steps ∧ r.report.steps ≤ ts.length + 1
  /-- The point that is returned is the last one at which the Jacobian was asked for. -/
  returned : (iterates r.requests).getLast? = some r.point
  objective : r.report.objective = 0.5 * p.error r.point
  withoutResiduals : (p.evaluate x₀).count = 0 → r.point = x₀ ∧ r.report.steps = 0
    ∧ r.report.evaluations = 1 ∧ r.report.objective = 0
  determined (q : Problem K n) (agree : p.AgreesOn q r.requests.toList) : minimize o q x₀ = r

/-- A run ends at its initial point, or after some trials (`minimize_cases`). -/
theorem minimize_faithful [OrderedScalar K] (o : Options K) (p : Problem K n) (x₀ : Vec K n) :
    (minimize o p x₀).Faithful o p x₀ where
  evaluations := by
    rcases minimize_cases o p x₀ with ⟨_, _, _, hrun, -⟩ | ⟨ts, s, stops, shows⟩
    · rw [hrun]
      rfl
    · rw [shows.evaluations, shows.requests, stops.tracks.evaluations]
  asked := by
    rcases minimize_cases o p x₀ with ⟨_, _, _, hrun, -⟩ | ⟨ts, s, stops, shows⟩
    · rw [hrun]
      exact ⟨[], nofun, rfl, Nat.zero_le _, Nat.zero_le _⟩
    · rw [shows.requests, shows.steps]
      exact ⟨ts, stops.made, stops.tracks.requests, stops.steps⟩
  returned := getLast?_iterates o p x₀
  objective := objective_eq o p x₀
  withoutResiduals count := by
    have hrun : minimize o p x₀ = .atStart x₀ none 0 #[] := by
      have hcount : (LinearModel.ofEvaluation (p.evaluate x₀)).count = 0 := count
      rw [minimize, opening, if_pos hcount]
    rw [hrun]
    exact ⟨rfl, rfl, rfl, rfl⟩
  determined _ agree := minimize_congr agree

end DogLeg

/-! ## Both methods -/

/-- Every run of either method reports faithfully, whatever the problem and the settings. -/
theorem reports_faithful {n : Nat} (p : Problem Float n) (x₀ : Vec Float n) :
    (∀ o : LevenbergMarquardt.Options Float,
        (LevenbergMarquardt.minimize o p x₀).Faithful o p x₀)
      ∧ ∀ o : DogLeg.Options Float, (DogLeg.minimize o p x₀).Faithful o p x₀ :=
  ⟨fun o => LevenbergMarquardt.minimize_faithful o p x₀, fun o => DogLeg.minimize_faithful o p x₀⟩

end LeastSquares
