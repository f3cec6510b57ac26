/-
LeastSquares.Proofs.Budget — runs that differ in their budgets only.

The budget has a say in nothing but when a run is cut off. Both methods are loops whose states log
the requests and the notes (`logs_requests`, `logs_debugNotes`) and count the steps (`meter`), so
what a larger budget changes is a matter of `Loop`: the requests of the shorter run are always a
prefix of those of the longer one, and so are its notes, but for the warning that it was cut off; a
run that was not cut off is the same with a larger budget (`runs_extend`).
-/
import LeastSquares.Proofs.DogLeg.Descent
import LeastSquares.Proofs.LevenbergMarquardt.Termination
import LeastSquares.Proofs.Requests

namespace LeastSquares

variable {K : Type} [Scalar K] {n : Nat}

/-! ## The damped method -/

namespace LevenbergMarquardt

/-- The notes that are no warnings. -/
def debugNotes (notes : Array (Note K)) : List (Note K) :=
  notes.toList.filter fun note => note.level = .debug

/-- The run `r`, which may make `k` steps, is the beginning of the run `r'`, which may make more. -/
structure Run.Begins (k : Nat) (r r' : Run K n) : Prop where
  requests : r.requests.toList <+: r'.requests.toList
  /-- A run that was not cut off does not make use of a larger budget. -/
  settled : r.report.failure ≠ some .lostPatience → r' = r
  cutOff : r.report.failure = some .lostPatience →
    r.report.steps = k ∧ debugNotes r.notes <+: debugNotes r'.notes

variable {k l : Nat}

@[simp] theorem State.notes_advance (o : Options K) (s : State K n) (x : Vec K n)
    (e : Evaluation K n) : (s.advance o x e).notes
      = s.notes.push (.trial s.steps s.lambda s.model.error e.residuals.normSq) := by
  dsimp only [advance]
  split <;> rfl

/-- Running out of steps is a warning. -/
theorem State.debugNotes_finish (s : State K n) :
    debugNotes s.finish.notes = debugNotes s.notes := by
  cases h : s.converged <;> simp [debugNotes, finish, h, Note.level]

/-- A step adds its notes at the end. -/
theorem logs_debugNotes (o : Options K) (p : Problem K n) :
    (iteration o p).Logs (debugNotes ·.notes) (debugNotes ·.notes) where
  finish s := s.debugNotes_finish
  round s := by
    cases solved : s.trialPoint? with
    | none =>
      rw [iteration_round_of_none o p solved, Sum.elim_inl]
      exact List.IsPrefix.filter _ (by simp [State.giveUp])
    | some x =>
      rw [iteration_round_of_some o p solved, Sum.elim_inr]
      exact List.IsPrefix.filter _ (by simp)

/-- Each step is counted, and a report says how many there were and whether there were too few. -/
theorem meter (o : Options K) (p : Problem K n) : (iteration o p).Meter State.steps
    (·.report.steps) (·.report.failure = some .lostPatience) where
  count_round went := by
    obtain ⟨x, -, rfl⟩ := iteration_round_eq_inr_iff.1 went
    exact State.steps_advance ..
  total_finish _ := rfl
  spent_finish s := by
    have hdone : (iteration o p).done s = s.converged := rfl
    rw [hdone]
    cases h : s.converged <;> simp [iteration, State.finish, h]
  not_spent stopped := by
    obtain ⟨-, rfl⟩ := iteration_round_eq_inl_iff.1 stopped
    simp [State.giveUp]

theorem minimize_begins (o : Options K) (p : Problem K n) (x₀ : Vec K n) (hkl : k ≤ l) :
    (minimize (o.withMaxSteps k) p x₀).Begins k (minimize (o.withMaxSteps l) p x₀) := by
  by_cases count : (p.evaluate x₀).count = 0
  · rw [minimize, minimize, if_pos count, if_pos count]
    exact ⟨List.prefix_rfl, fun _ => rfl, fun lost => absurd lost (by simp [Run.trivial])⟩
  · rw [minimize_withMaxSteps count, minimize_withMaxSteps count, loop_eq_run, loop_eq_run]
    exact {
      requests := (logs_requests o p).run_prefix_run hkl _
      settled := (meter o p).run_eq_run hkl
      cutOff := fun lost => ⟨((meter o p).total_run lost).trans (Nat.zero_add k),
        (logs_debugNotes o p).run_prefix_run hkl _⟩ }

end LevenbergMarquardt

/-! ## The trust region method -/

namespace DogLeg

/-- The settings with another step budget. -/
def Options.withMaxSteps (o : Options K) (k : Nat) : Options K :=
  { o with maxSteps := k }

/-- The notes that are no warnings. -/
def debugNotes (notes : Array (Note K)) : List (Note K) :=
  notes.toList.filter fun note => note.level = .debug

/-- The run `r`, which may make `k` steps, is the beginning of the run `r'`, which may make more. -/
structure Run.Begins (k : Nat) (r r' : Run K n) : Prop where
  requests : r.requests.toList <+: r'.requests.toList
  /-- A run that was not cut off does not make use of a larger budget. -/
  settled : r.report.failure ≠ some .lostPatience → r' = r
  cutOff : r.report.failure = some .lostPatience →
    r.report.steps = k ∧ debugNotes r.notes <+: debugNotes r'.notes

variable {o : Options K} {p : Problem K n} {x₀ : Vec K n} {s t : State K n} {r : Run K n}
  {k l : Nat}

/-! ### One step -/

@[simp] theorem State.notes_resize (o : Options K) (s : State K n) (length ratio : K) :
    (s.resize o length ratio).notes = s.notes := by
  unfold resize
  repeat' split
  all_goals rfl

/-- Running out of steps is a warning. -/
theorem State.debugNotes_finish (s : State K n) :
    debugNotes s.finish.notes = debugNotes s.notes := by
  cases h : s.found <;> simp [debugNotes, finish, h, Note.level]

/-- A step adds notes at the end. -/
theorem State.notes_prefix_of_go (turned : s.turn o p = .go t) :
    s.notes.toList <+: t.notes.toList := by
  obtain ⟨h, -, ⟨-, -, rfl⟩ | ⟨-, rfl⟩⟩ := State.turn_eq_go_iff.1 turned
  · simp [afterMove, moved, afterTrial, tried]
  · simp [afterTrial, tried]

/-- A step that the run stops at adds notes at the end, and is no lack of patience. -/
theorem State.notes_prefix_of_stop (turned : s.turn o p = .stop r) :
    s.notes.toList <+: r.notes.toList ∧ r.report.failure ≠ some .lostPatience := by
  obtain ⟨-, rfl⟩ | ⟨h, -, -, rfl⟩ | ⟨h, -, -, -, rfl⟩ := State.cases_of_stop turned
  · simp [fail]
  · simp [finish]
  · simp [fail, afterMove, moved, afterTrial, tried]

/-! ### A run -/

/-- As in the damped method, a step adds its notes at the end. -/
theorem logs_debugNotes (o : Options K) (p : Problem K n) :
    (iteration o p).Logs (debugNotes ·.notes) (debugNotes ·.notes) where
  finish s := s.debugNotes_finish
  round s := by
    cases turned : s.turn o p with
    | stop r =>
      rw [iteration_round_eq_inl_iff.2 turned, Sum.elim_inl]
      exact (State.notes_prefix_of_stop turned).1.filter _
    | go t =>
      rw [iteration_round_eq_inr_iff.2 turned, Sum.elim_inr]
      exact (State.notes_prefix_of_go turned).filter _

/-- Each step is counted, and a report says how many there were and whether there were too few. -/
theorem meter (o : Options K) (p : Problem K n) : (iteration o p).Meter State.steps
    (·.report.steps) (·.report.failure = some .lostPatience) where
  count_round went := State.steps_of_turn (iteration_round_eq_inr_iff.1 went)
  total_finish _ := rfl
  spent_finish s := by
    have hdone : (iteration o p).done s = s.found := rfl
    rw [hdone]
    cases h : s.found <;> simp [iteration, State.finish, h]
  not_spent stopped := (State.notes_prefix_of_stop (iteration_round_eq_inl_iff.1 stopped)).2

/-- A step does not look at the budget. -/
theorem iteration_withMaxSteps (o : Options K) (p : Problem K n) (k : Nat) :
    iteration (o.withMaxSteps k) p = iteration o p :=
  rfl

/-- The first look at the problem does not depend on the budget. -/
theorem opening_withMaxSteps (o : Options K) (x₀ : Vec K n) (m : LinearModel K n) (k : Nat) :
    opening (o.withMaxSteps k) x₀ m = opening o x₀ m :=
  rfl

/-- A run that ends at its initial point has not been cut off. -/
theorem failure_of_opening {m : LinearModel K n} (stopped : opening o x₀ m = .stop r) :
    r.report.failure ≠ some .lostPatience := by
  unfold opening at stopped
  split_ifs at stopped
  all_goals
    obtain rfl := Opening.stop.inj stopped
    simp [Run.atStart]

theorem minimize_begins (o : Options K) (p : Problem K n) (x₀ : Vec K n) (hkl : k ≤ l) :
    (minimize (o.withMaxSteps k) p x₀).Begins k (minimize (o.withMaxSteps l) p x₀) := by
  unfold minimize
  dsimp only
  rw [opening_withMaxSteps, opening_withMaxSteps]
  cases opened : opening o x₀ (LinearModel.ofEvaluation (p.evaluate x₀)) with
  | stop r =>
    exact ⟨List.prefix_rfl, fun _ => rfl, fun lost => absurd lost (failure_of_opening opened)⟩
  | go radius =>
    show (loop (o.withMaxSteps k) p k (.initial p x₀ radius)).Begins k
      (loop (o.withMaxSteps l) p l (.initial p x₀ radius))
    rw [loop_eq_run, loop_eq_run, iteration_withMaxSteps, iteration_withMaxSteps]
    exact {
      requests := (logs_requests o p).run_prefix_run hkl _
      settled := (meter o p).run_eq_run hkl
      cutOff := fun lost => ⟨((meter o p).total_run lost).trans (Nat.zero_add k),
        (logs_debugNotes o p).run_prefix_run hkl _⟩ }

end DogLeg

/-! ## Both methods -/

/-- With a larger budget and otherwise equal settings, a run of either method begins like the run
with the smaller one; it is the same run, unless that was cut off. -/
theorem runs_extend {k l : Nat} (hkl : k ≤ l) (p : Problem K n) (x₀ : Vec K n) :
    (∀ o : LevenbergMarquardt.Options K,
        (LevenbergMarquardt.minimize (o.withMaxSteps k) p x₀).Begins k
          (LevenbergMarquardt.minimize (o.withMaxSteps l) p x₀))
      ∧ ∀ o : DogLeg.Options K,
        (DogLeg.minimize (o.withMaxSteps k) p x₀).Begins k
          (DogLeg.minimize (o.withMaxSteps l) p x₀) :=
  ⟨fun o => LevenbergMarquardt.minimize_begins o p x₀ hkl,
    fun o => DogLeg.minimize_begins o p x₀ hkl⟩

/-- Within a small radius the run on `line` comes to a half in its first step and to two in the
second one; with a budget of one step it is cut off after the first. -/
theorem runs_extend_line :
    let o : DogLeg.Options Float := { DogLeg.Options.standard with delta0 := some 0.5 }
    let r := DogLeg.minimize (o.withMaxSteps 1) DogLeg.line #v[0.0]
    let r' := DogLeg.minimize (o.withMaxSteps 2) DogLeg.line #v[0.0]
    1 ≤ 2 ∧ r.report.failure = some .lostPatience ∧ r.report.steps = 1
      ∧ iterates r'.requests = [#v[0.0], #v[0.5], #v[2.0]]
      ∧ r.requests.toList <+: r'.requests.toList
      ∧ DogLeg.debugNotes r.notes <+: DogLeg.debugNotes r'.notes := by
  intro o r r'
  have hkl : 1 ≤ 2 := by decide
  have begins : r.Begins 1 r' := (runs_extend hkl DogLeg.line #v[0.0]).2 o
  have lost : r.report.failure = some .lostPatience := by decide +kernel
  obtain ⟨steps, notes⟩ := begins.cutOff lost
  exact ⟨hkl, lost, steps, by decide +kernel, begins.requests, notes⟩

end LeastSquares
