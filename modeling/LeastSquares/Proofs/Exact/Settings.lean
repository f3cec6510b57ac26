/-
LeastSquares.Proofs.Exact.Settings — the options that can be set.

Every setter refuses values outside of the range of its setting, and the standard options are in
range. So the options that a sequence of settings leads to are those in range, and all of them
(`LevenbergMarquardt.Options.inRange_iff`, `DogLeg.Options.inRange_iff`).

A range is a condition on one setting alone, and no setter looks at another one. So options in range
are reached by setting everything once, in any order.
-/
import Mathlib
import LeastSquares.DogLeg.Options
import LeastSquares.LevenbergMarquardt.Options
import LeastSquares.Proofs.Exact

namespace LeastSquares

/-- What holds at the start of a loop that may fail, and is kept by each round, holds where it
succeeds. -/
theorem foldlM_except_induction {α β ε : Type} {motive : β → Prop} {f : β → α → Except ε β}
    (step : ∀ b a c, motive b → f b a = .ok c → motive c) {l : List α} {b c : β}
    (start : motive b) (h : l.foldlM f b = .ok c) : motive c := by
  induction l generalizing b with
  | nil =>
    obtain rfl : b = c := Except.ok.inj h
    exact start
  | cons a l ih =>
    rw [List.foldlM_cons] at h
    cases hb : f b a with
    | error fault =>
      rw [hb] at h
      contradiction
    | ok d =>
      rw [hb] at h
      exact ih (step b a d start hb) h

/-- A check that has been passed. -/
theorem of_guarded_eq_ok {α ε : Type} {c : Prop} [Decidable c] {a b : α} {fault : ε}
    (h : (if c then .ok a else .error fault) = Except.ok b) : c ∧ a = b := by
  split_ifs at h with hc
  exact ⟨hc, Except.ok.inj h⟩

/-! ## The damped method -/

namespace LevenbergMarquardt.Options

/-- All settings are in their ranges. -/
structure InRange (o : Options ℝ) : Prop where
  initialLambda : 0 < o.initialLambda
  lambdaUp : 0 < o.lambdaUp
  lambdaDown : 0 < o.lambdaDown
  epsilon : 0 ≤ o.epsilon
  maxSteps : 0 < o.maxSteps

theorem inRange_standard : (standard : Options ℝ).InRange where
  initialLambda := by norm_num [standard]
  lambdaUp := by norm_num [standard]
  lambdaDown := by norm_num [standard]
  epsilon := by norm_num [standard]
  maxSteps := by norm_num [standard]

/-- A setter changes one setting, to a value that it has checked. -/
theorem InRange.set {o o' : Options ℝ} {setting : Setting ℝ} (h : o.InRange)
    (hset : o.set setting = .ok o') : o'.InRange := by
  cases setting with
  | initialLambda v =>
    obtain ⟨hv, rfl⟩ := of_guarded_eq_ok hset
    exact { h with initialLambda := hv }
  | lambdaUp v =>
    obtain ⟨hv, rfl⟩ := of_guarded_eq_ok hset
    exact { h with lambdaUp := hv }
  | lambdaDown v =>
    obtain ⟨hv, rfl⟩ := of_guarded_eq_ok hset
    exact { h with lambdaDown := hv }
  | epsilon v =>
    obtain ⟨hv, rfl⟩ := of_guarded_eq_ok hset
    exact { h with epsilon := hv }
  | maxSteps k =>
    obtain ⟨hk, rfl⟩ := of_guarded_eq_ok hset
    exact { h with maxSteps := hk }

theorem inRange_iff {o : Options ℝ} : o.InRange ↔ ∃ settings, ofSettings settings = .ok o := by
  constructor
  · intro h
    refine ⟨[.initialLambda o.initialLambda, .lambdaUp o.lambdaUp, .lambdaDown o.lambdaDown,
      .epsilon o.epsilon, .maxSteps o.maxSteps], ?_⟩
    simp only [ofSettings, List.foldlM_cons, List.foldlM_nil, Options.set, if_pos h.initialLambda,
      if_pos h.lambdaUp, if_pos h.lambdaDown, if_pos h.epsilon, if_pos h.maxSteps]
    rfl
  · rintro ⟨settings, h⟩
    exact foldlM_except_induction (fun _ _ _ => InRange.set) inRange_standard h

end LevenbergMarquardt.Options

/-! ## The trust region method -/

namespace DogLeg.Options

/-- All settings are in their ranges. -/
structure InRange (o : Options ℝ) : Prop where
  delta0 : ∀ delta0 ∈ o.delta0, 0 < delta0
  epsilon : 0 ≤ o.epsilon
  maxSteps : 0 < o.maxSteps

theorem inRange_standard : (standard : Options ℝ).InRange where
  delta0 := by simp [standard]
  epsilon := by norm_num [standard]
  maxSteps := by norm_num [standard]

theorem InRange.set {o o' : Options ℝ} {setting : Setting ℝ} (h : o.InRange)
    (hset : o.set setting = .ok o') : o'.InRange := by
  cases setting with
  | delta0 v =>
    obtain ⟨hv, rfl⟩ := of_guarded_eq_ok hset
    exact { h with delta0 := by simpa using hv }
  | epsilon v =>
    obtain ⟨hv, rfl⟩ := of_guarded_eq_ok hset
    exact { h with epsilon := hv }
  | maxSteps k =>
    obtain ⟨hk, rfl⟩ := of_guarded_eq_ok hset
    exact { h with maxSteps := hk }

theorem inRange_iff {o : Options ℝ} : o.InRange ↔ ∃ settings, ofSettings settings = .ok o := by
  constructor
  · intro h
    obtain ⟨delta0, epsilon, maxSteps⟩ := o
    -- an initial radius cannot be taken back, so without one there is one setting less
    cases delta0 with
    | none =>
      refine ⟨[.epsilon epsilon, .maxSteps maxSteps], ?_⟩
      simp only [ofSettings, List.foldlM_cons, List.foldlM_nil, Options.set, if_pos h.epsilon,
        if_pos h.maxSteps]
      rfl
    | some delta0 =>
      refine ⟨[.delta0 delta0, .epsilon epsilon, .maxSteps maxSteps], ?_⟩
      simp only [ofSettings, List.foldlM_cons, List.foldlM_nil, Options.set,
        if_pos (h.delta0 delta0 rfl), if_pos h.epsilon, if_pos h.maxSteps]
      rfl
  · rintro ⟨settings, h⟩
    exact foldlM_except_induction (fun _ _ _ => InRange.set) inRange_standard h

end DogLeg.Options

end LeastSquares
