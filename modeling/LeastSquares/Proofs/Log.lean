/-
LeastSquares.Proofs.Log — the notes of a run and its report.

While a run goes on it notes its trials, and each of these notes has the number of its step. It
warns where it fails, and nothing is noted after a warning.

* `Numbered` — notes on consecutive trials, without a warning among them. `History.numbered` of the
  damped method and `Reaches.logs` of the trust region method say that the states of a run have
  such notes.
* `LogAgrees` — what the log of a finished run has to do with its report.
* `logs_agree` — it holds of every run of either method.
-/
import LeastSquares.Proofs.Budget

namespace LeastSquares

/-! ## Logs -/

section Logs

variable {N : Type} {level : N → Level} {number? : N → Option Nat} {numbers : List Nat}
  {notes : List N} {note : N}

/-- No warnings, and notes with the given numbers, in this order. -/
structure Numbered (level : N → Level) (number? : N → Option Nat) (numbers : List Nat)
    (notes : List N) : Prop where
  level : ∀ note ∈ notes, level note = .debug
  numbers : notes.map number? = numbers.map some

/-- The notes of a run that has ended with the given failure, if any. -/
structure LogAgrees (level : N → Level) (number? : N → Option Nat) (numbers : List Nat)
    (failure : Option Failure) (notes : List N) : Prop where
  /-- What is noted for debugging has the given numbers, in this order. -/
  debug : (notes.filter fun note => level note = .debug).map number? = numbers.map some
  /-- A run that has converged does not warn. -/
  quiet : failure = none → ∀ note ∈ notes, level note ≠ .warn
  /-- A run that has failed warns once, and notes nothing after that. -/
  warned : failure ≠ none → ∃ before last, notes = before ++ [last] ∧ level last = .warn
    ∧ ∀ note ∈ before, level note ≠ .warn

namespace Numbered

theorem nil : Numbered level number? [] [] :=
  ⟨nofun, rfl⟩

theorem concat {k : Nat} (h : Numbered level number? numbers notes) (debug : level note = .debug)
    (number : number? note = some k) :
    Numbered level number? (numbers ++ [k]) (notes ++ [note]) where
  level := by
    intro other hother
    rcases List.mem_append.1 hother with hbefore | hlast
    · exact h.level other hbefore
    · rwa [List.mem_singleton.1 hlast]
  numbers := by rw [List.map_append, List.map_append, h.numbers, List.map_singleton, number]; rfl

theorem not_warn (h : Numbered level number? numbers notes) : ∀ note ∈ notes, level note ≠ .warn :=
  fun note hnote => by simp [h.level note hnote]

theorem filter_eq (h : Numbered level number? numbers notes) :
    (notes.filter fun note => level note = .debug) = notes :=
  List.filter_eq_self.2 fun note hnote => by simp [h.level note hnote]

/-- The log of a run that converges. -/
theorem quiet (h : Numbered level number? numbers notes) :
    LogAgrees level number? numbers none notes where
  debug := by rw [h.filter_eq, h.numbers]
  quiet _ := h.not_warn
  warned failed := absurd rfl failed

/-- The log of a run that fails and warns at its end. -/
theorem warned (h : Numbered level number? numbers notes) (warning : N)
    (warns : level warning = .warn) (failure : Failure) :
    LogAgrees level number? numbers (some failure) (notes ++ [warning]) where
  debug := by
    have hlast : [warning].filter (fun note => level note = .debug) = [] := by simp [warns]
    rw [List.filter_append, h.filter_eq, hlast, List.append_nil, h.numbers]
  quiet converged := nomatch converged
  warned _ := ⟨notes, warning, rfl, warns, h.not_warn⟩

end Numbered

end Logs

variable {K : Type} [Scalar K] {n : Nat}

/-! ## The damped method -/

namespace LevenbergMarquardt

/-- The number of the step that was tried. -/
def Note.number? : Note K → Option Nat
  | trial index .. => some index
  | noSolution .. => none
  | outOfSteps .. => none

/-- The run notes each of its steps, which are numbered from zero on. -/
def Run.LogAgrees (r : Run K n) : Prop :=
  LeastSquares.LogAgrees Note.level Note.number? (List.range r.report.steps) r.report.failure
    r.notes.toList

variable {o : Options K} {p : Problem K n} {x₀ : Vec K n} {s : State K n} {ts : List (Trial K n)}
  {r : Run K n}

theorem History.numbered (h : History o p x₀ ts s) :
    Numbered Note.level Note.number? (List.range s.steps) s.notes.toList := by
  induction h with
  | start _ => exact .nil
  | next _ _ _ _ ih =>
    rw [State.notes_advance, State.steps_advance, Array.toList_push, List.range_succ]
    exact ih.concat rfl rfl

/-- A run warns where it has no further step or no further budget. -/
theorem History.logAgrees (h : History o p x₀ ts s) (hend : s.Ends o r) : r.LogAgrees := by
  have hfinish : s.finish.LogAgrees := by
    cases hs : s.converged with
    | true => simpa [Run.LogAgrees, State.finish, hs] using h.numbered.quiet
    | false =>
      have hwarned := h.numbered.warned (.outOfSteps s.steps s.trialError) rfl .lostPatience
      simpa [Run.LogAgrees, State.finish, hs] using hwarned
  cases hend with
  | converged _ => exact hfinish
  | outOfSteps _ => exact hfinish
  | unsolved _ _ _ =>
    have hwarned := h.numbered.warned (.noSolution s.steps s.lambda) rfl .numerical
    simpa [Run.LogAgrees, State.giveUp] using hwarned

theorem minimize_logAgrees (o : Options K) (p : Problem K n) (x₀ : Vec K n) :
    (minimize o p x₀).LogAgrees := by
  by_cases count : (p.evaluate x₀).count = 0
  · rw [minimize, if_pos count]
    exact Numbered.nil.quiet
  · obtain ⟨ts, s, h, hend⟩ := exists_history count o
    exact h.logAgrees hend

end LevenbergMarquardt

/-! ## The trust region method -/

namespace DogLeg

/-- The number of the step that was tried. -/
def Note.number? : Note K → Option Nat
  | trial index .. => some index
  | _ => none

/-- The points at which only the residuals were asked for. -/
def trialPoints (requests : Array (Request K n)) : List (Vec K n) :=
  requests.toList.filterMap fun
    | .evaluation _ => none
    | .residuals x => some x

/-- Each trial asks for the residuals once. The run notes all of them, numbered from one on. -/
def Run.LogAgrees (r : Run K n) : Prop :=
  LeastSquares.LogAgrees Note.level Note.number? (List.range' 1 (trialPoints r.requests).length)
    r.report.failure r.notes.toList

/-- The trials until now have been noted. -/
def State.Logs (s : State K n) : Prop :=
  Numbered Note.level Note.number? (List.range' 1 (trialPoints s.requests).length) s.notes.toList

section

omit [Scalar K]
variable (requests : Array (Request K n)) (x : Vec K n)

@[simp] theorem trialPoints_push_evaluation :
    trialPoints (requests.push (.evaluation x)) = trialPoints requests := by
  simp [trialPoints]

@[simp] theorem trialPoints_push_residuals :
    trialPoints (requests.push (.residuals x)) = trialPoints requests ++ [x] := by
  simp [trialPoints]

end

variable {o : Options K} {p : Problem K n} {x₀ h : Vec K n} {s t : State K n} {r : Run K n}

namespace State

/-- The number of a step is the number of its trial, as long as each step has made one. -/
theorem Logs.afterTrial (hs : s.Logs) (steps : (trialPoints s.requests).length = s.steps)
    (p : Problem K n) (h : Vec K n) : (s.afterTrial p h).Logs := by
  rw [Logs, requests_afterTrial, trialPoints_push_residuals, List.length_append,
    List.length_singleton, List.range'_1_concat]
  show Numbered _ _ _ (s.notes.push _).toList
  rw [Array.toList_push]
  exact Numbered.concat hs rfl (by rw [Note.number?, steps, Nat.add_comm])

theorem Logs.afterMove (hs : (s.afterTrial p h).Logs) (o : Options K) :
    (s.afterMove o p h).Logs := by
  rw [Logs, requests_afterMove, trialPoints_push_evaluation]
  exact hs

theorem Logs.resize (hs : s.Logs) (o : Options K) (length ratio : K) :
    (s.resize o length ratio).Logs := by
  rw [Logs, requests_resize, notes_resize]
  exact hs

theorem Logs.finish (hs : s.Logs) : s.finish.LogAgrees := by
  cases found : s.found with
  | true => simpa [Run.LogAgrees, State.finish, found] using hs.quiet
  | false =>
    have hwarned := hs.warned (.outOfSteps s.steps s.model.error) rfl .lostPatience
    simpa [Run.LogAgrees, State.finish, found] using hwarned

theorem Logs.fail {note : Note K} (hs : s.Logs) (warns : note.level = .warn) :
    (s.fail note).LogAgrees := by
  simpa [Run.LogAgrees, State.fail] using hs.warned note warns .numerical

end State

/-- Each step that the run goes on after has made one trial, and noted it. -/
theorem Reaches.logs (reached : Reaches o p x₀ s) :
    (trialPoints s.requests).length = s.steps ∧ s.Logs := by
  induction reached with
  | initial _ => exact ⟨rfl, .nil⟩
  | next _ _ _ turned ih =>
    obtain ⟨steps, logs⟩ := ih
    obtain ⟨h, -, ⟨-, -, rfl⟩ | ⟨-, rfl⟩⟩ := State.turn_eq_go_iff.1 turned
    · exact ⟨by simp [steps], ((logs.afterTrial steps p h).afterMove o).resize ..⟩
    · exact ⟨by simp [steps], (logs.afterTrial steps p h).resize ..⟩

/-- A run warns where it fails. A step that is not tried has a number, but no note. -/
theorem Reaches.logAgrees (reached : Reaches o p x₀ s) (hend : s.Ends o p r) : r.LogAgrees := by
  obtain ⟨steps, logs⟩ := reached.logs
  cases hend with
  | found _ => exact logs.finish
  | outOfSteps _ _ => exact logs.finish
  | stopped _ _ turned =>
    obtain ⟨-, rfl⟩ | ⟨h, -, -, rfl⟩ | ⟨h, -, -, -, rfl⟩ := State.cases_of_stop turned
    · exact State.Logs.fail (s := { s with steps := s.steps + 1 }) logs rfl
    · exact State.Logs.finish (s := { s with steps := s.steps + 1, found := true }) logs
    · exact ((logs.afterTrial steps p h).afterMove o).fail rfl

theorem logAgrees_of_opening {m : LinearModel K n} (stopped : opening o x₀ m = .stop r) :
    r.LogAgrees := by
  unfold opening at stopped
  split_ifs at stopped
  · obtain rfl := Opening.stop.inj stopped
    exact Numbered.nil.quiet
  · obtain rfl := Opening.stop.inj stopped
    exact Numbered.nil.quiet
  · obtain rfl := Opening.stop.inj stopped
    exact Numbered.nil.warned Note.notFiniteAtStart rfl .numerical

theorem minimize_logAgrees (o : Options K) (p : Problem K n) (x₀ : Vec K n) :
    (minimize o p x₀).LogAgrees := by
  cases opened : opening o x₀ (LinearModel.ofEvaluation (p.evaluate x₀)) with
  | stop r =>
    rw [minimize, opened]
    exact logAgrees_of_opening opened
  | go radius =>
    obtain ⟨s, reached, hend⟩ := (Reaches.initial opened).exists_ends
    exact reached.logAgrees hend

end DogLeg

/-! ## Both methods -/

/-- The log of a run agrees with its report. The damped method has one debugging note for each of
its steps, numbered from zero on; the trust region method has one for each time that it asked for
residuals alone, numbered from one on. A run that has failed warns once, in its last note, and a run
that has converged does not. -/
theorem logs_agree (p : Problem K n) (x₀ : Vec K n) :
    (∀ o : LevenbergMarquardt.Options K, (LevenbergMarquardt.minimize o p x₀).LogAgrees)
      ∧ ∀ o : DogLeg.Options K, (DogLeg.minimize o p x₀).LogAgrees :=
  ⟨fun o => LevenbergMarquardt.minimize_logAgrees o p x₀,
    fun o => DogLeg.minimize_logAgrees o p x₀⟩

end LeastSquares
