/-
LeastSquares.Proofs.DogLeg.Radius — the radius after a rejected trial.

A trial is accepted if its gain ratio is positive. The radius is halved if the ratio is below a
quarter, so it is halved after every rejected trial whose ratio is a number. A ratio that is no
number is neither positive nor below a quarter: the trial is rejected, and nothing else happens.
The next step is then the same step again, until the budget is used up (`loop_of_isNaN`).
-/
import LeastSquares.Problem.Formulas
import LeastSquares.Proofs.DogLeg.Trajectory
import LeastSquares.Proofs.Halving

namespace LeastSquares.DogLeg

open Double Postfix

variable {n : Nat} {o : Options Float} {p : Problem Float n} {x₀ h : Vec Float n}
  {s t : State Float n}

/-! ## Resizing -/

theorem State.resize_of_isNaN {ratio : Float} (hnan : ratio.isNaN = true) (o : Options Float)
    (s : State Float n) (length : Float) : s.resize o length ratio = s := by
  unfold resize
  rw [if_neg (not_lt_of_isNaN hnan _), if_neg (not_gt_of_isNaN hnan _)]

theorem State.radius_resize {ratio : Float} (hnan : ratio.isNaN = false)
    (rejected : ¬ 0 < ratio) (o : Options Float) (s : State Float n) (length : Float) :
    (s.resize o length ratio).radius = s.radius / 2.0 := by
  have hlarge : ¬ 0.75 < ratio := not_lt_of_not_pos (y := 0.75) rfl rejected
  have hsmall : ratio < 0.25 := lt_of_not_pos (y := 0.25) rfl hnan rejected
  unfold resize
  rw [if_neg hlarge, if_pos hsmall]

/-! ## Rejected trials of a run -/

/-- In the run from `x₀` the step `h` is tried at the state `s` and not accepted, and the run goes
on at the state `t`. -/
structure Rejected {K : Type} [Scalar K] (o : Options K) (p : Problem K n) (x₀ : Vec K n)
    (s t : State K n) (h : Vec K n) : Prop where
  reached : Reaches o p x₀ s
  running : s.found = false
  budget : s.steps < o.maxSteps
  tried : s.Tries o h
  rejected : ¬ 0 < s.ratio p h
  turned : s.turn o p = .go t

theorem Rejected.eq {K : Type} [Scalar K] {o : Options K} {p : Problem K n} {x₀ h : Vec K n}
    {s t : State K n} (r : Rejected o p x₀ s t h) :
    t = (s.afterTrial p h).resize o h.norm (s.ratio p h) := by
  have hturn := r.turned
  rw [State.turn_of_tries p r.tried, if_neg r.rejected] at hturn
  exact (Turn.go.inj hturn).symm

/-- A gain ratio that is no number leaves the radius as it is. -/
theorem Rejected.radius_eq (r : Rejected o p x₀ s t h) (hnan : (s.ratio p h).isNaN = true) :
    t.radius = s.radius := by
  rw [r.eq, State.resize_of_isNaN hnan]
  rfl

/-- The first trial of a run. -/
theorem Rejected.first {K : Type} [Scalar K] {o : Options K} {p : Problem K n} {x₀ h : Vec K n}
    {radius : K}
    (opened : opening o x₀ (LinearModel.ofEvaluation (p.evaluate x₀)) = .go radius)
    (budget : 0 < o.maxSteps) (tried : (State.initial p x₀ radius).Tries o h)
    (rejected : ¬ 0 < (State.initial p x₀ radius).ratio p h) :
    ∃ t, Rejected o p x₀ (.initial p x₀ radius) t h :=
  ⟨_, .initial opened, rfl, budget, tried, rejected,
    by rw [State.turn_of_tries p tried, if_neg rejected]⟩

/-- A gain ratio that is a number halves the radius. -/
theorem Rejected.radius_eq_half (r : Rejected o p x₀ s t h) (hnan : (s.ratio p h).isNaN = false) :
    t.radius = s.radius / 2.0 := by
  rw [r.eq, State.radius_resize hnan r.rejected]
  rfl

/-- A rejected trial leaves the point alone. If its gain ratio is no number, the radius stays as it
is. Otherwise it is halved: exactly, if half of the radius is a double, which it is in any case from
`2 ^ (-1021)` on. -/
theorem radius_of_rejected (r : Rejected o p x₀ s t h) (finite : s.radius.isFinite = true)
    (normal : (2 : ℚ) ^ (-1022 : ℤ) ≤ |toRat s.radius|) :
    t.point = s.point
      ∧ ((s.ratio p h).isNaN = true → t.radius = s.radius)
      ∧ ((s.ratio p h).isNaN = false → t.radius = s.radius / 2.0)
      ∧ (toRat t.radius = toRat s.radius / 2
        ↔ (s.ratio p h).isNaN = false ∧ ∃ half : Float, toRat half = toRat s.radius / 2)
      ∧ ((2 : ℚ) ^ (-1021 : ℤ) ≤ |toRat s.radius| →
        ∃ half : Float, toRat half = toRat s.radius / 2) := by
  have hpoint : t.point = s.point := by
    rw [r.eq, State.point_resize]
    rfl
  refine ⟨hpoint, r.radius_eq, r.radius_eq_half, ⟨fun hhalf => ?_, fun ⟨hnan, hhalf⟩ => ?_⟩,
    exists_half⟩
  · refine ⟨Bool.not_eq_true _ ▸ fun hnan => ?_, t.radius, hhalf⟩
    -- a radius that stays as it is and is halved would be zero
    rw [r.radius_eq hnan, eq_div_iff two_ne_zero, mul_two, add_eq_left] at hhalf
    rw [hhalf, abs_zero] at normal
    exact absurd normal (not_le.2 (by positivity))
  · rw [r.radius_eq_half hnan]
    exact toRat_half finite hhalf

theorem toRat_one_half : toRat 0.5 = 1 / 2 := by
  have h : (0.5 : Float).toModel.unpack = .finite .positive (2 ^ 52) (-53) (by decide) := rfl
  rw [toRat_of_unpack h]
  norm_num [Float.Model.UnpackedFloat.Sign.apply]

theorem le_abs_toRat_one_half : (2 : ℚ) ^ (-1021 : ℤ) ≤ |toRat 0.5| := by
  rw [toRat_one_half]
  calc (2 : ℚ) ^ (-1021 : ℤ) ≤ 2 ^ (-1 : ℤ) := zpow_le_zpow_right₀ one_le_two (by decide)
    _ = |1 / 2| := by norm_num

/-- The residual is one at zero and ten everywhere else, with one in the place of its
derivative. -/
def jump : Problem Float 1 where
  evaluate x := .ofRows [(if x.get 0 == 0 then 1 else 10, #v[1])]

/-- The first step on `jump` goes from zero to minus one half. It is rejected, and half of its
radius is left. -/
theorem radius_of_rejected_jump :
    let s : State Float 1 := .initial jump #v[0] 0.5
    ∃ t, Rejected .standard jump #v[0] s t #v[-0.5] ∧ s.radius.isFinite = true
      ∧ (2 : ℚ) ^ (-1022 : ℤ) ≤ |toRat s.radius| ∧ toRat t.radius = 1 / 4 := by
  intro s
  have opened : opening .standard #v[0] (LinearModel.ofEvaluation (jump.evaluate #v[0]))
      = .go 0.5 := by
    rw [opening_eq_go (by decide +kernel) (by decide +kernel) (by decide +kernel)]
    exact congrArg Opening.go (by decide +kernel)
  have tried : s.Tries .standard #v[-0.5] := ⟨by decide +kernel, by decide +kernel⟩
  obtain ⟨t, r⟩ := Rejected.first opened (by decide) tried (by decide +kernel)
  have finite : s.radius.isFinite = true := by decide +kernel
  have large : (2 : ℚ) ^ (-1021 : ℤ) ≤ |toRat s.radius| := le_abs_toRat_one_half
  have normal : (2 : ℚ) ^ (-1022 : ℤ) ≤ |toRat s.radius| :=
    (zpow_le_zpow_right₀ one_le_two (by decide)).trans large
  obtain ⟨-, -, -, halved, exact⟩ := radius_of_rejected r finite normal
  have half : toRat t.radius = toRat 0.5 / 2 := halved.2 ⟨by decide +kernel, exact large⟩
  refine ⟨t, r, finite, normal, ?_⟩
  rw [half, toRat_one_half]
  norm_num

/-- The residual `sqrt x + 1`, with one in the place of its derivative. It is no number to the left
of zero. -/
def rootRow : Formulas.Row ["x"] where
  value := ⟨[.parameter "x" 0, .call (.elementary .sqrt), .literal "1" ⟨false, 1, 0⟩,
    .operator .add], rfl⟩
  derivatives := #v[⟨[.literal "1" ⟨false, 1, 0⟩], rfl⟩]

/-- The first step on `rootRow` goes from zero to minus one half, where the residual is no number.
It is rejected, and the radius is not halved. -/
theorem radius_of_rejected_root :
    let o : Options Float := { Options.standard with maxSteps := 3 }
    let p : Problem Float 1 := Formulas.problem [rootRow]
    let s : State Float 1 := .initial p #v[0] 0.5
    ∃ t, Rejected o p #v[0] s t #v[-0.5] ∧ s.radius.isFinite = true
      ∧ (2 : ℚ) ^ (-1022 : ℤ) ≤ |toRat s.radius| ∧ toRat t.radius ≠ toRat s.radius / 2 := by
  intro o p s
  have opened : opening o #v[0] (LinearModel.ofEvaluation (p.evaluate #v[0])) = .go 0.5 := by
    rw [opening_eq_go (by decide +kernel) (by decide +kernel) (by decide +kernel)]
    exact congrArg Opening.go (by decide +kernel)
  have tried : s.Tries o #v[-0.5] := ⟨by decide +kernel, by decide +kernel⟩
  have hnan : (s.ratio p #v[-0.5]).isNaN = true := by decide +kernel
  obtain ⟨t, r⟩ := Rejected.first opened (by decide) tried (not_lt_of_isNaN hnan _)
  have normal : (2 : ℚ) ^ (-1022 : ℤ) ≤ |toRat s.radius| :=
    (zpow_le_zpow_right₀ one_le_two (by decide)).trans le_abs_toRat_one_half
  have value : toRat s.radius = 1 / 2 := toRat_one_half
  refine ⟨t, r, by decide +kernel, normal, ?_⟩
  rw [r.radius_eq hnan, value]
  norm_num

/-! ## Trials without a gain ratio -/

/-- Once the gain ratio of a trial is no number, the run repeats this trial until the budget is
used up, and fails at the point where it stands. -/
theorem loop_of_isNaN (tried : s.Tries o h) (hnan : (s.ratio p h).isNaN = true)
    (running : s.found = false) (budget : Nat) :
    (loop o p budget s).point = s.point
      ∧ (loop o p budget s).report
        = ⟨some .lostPatience, s.evaluations + budget, s.steps + budget, 0.5 * s.model.error⟩
      ∧ (loop o p budget s).requests.toList
        = s.requests.toList ++ List.replicate budget (.residuals (s.point.add h)) := by
  induction budget generalizing s with
  | zero =>
    simp [loop, State.finish, running]
  | succ budget ih =>
    -- the trial changes nothing that the next step looks at
    have hturn : s.turn o p = .go (s.afterTrial p h) := by
      rw [State.turn_of_tries p tried, if_neg (not_lt_of_isNaN hnan _), State.resize_of_isNaN hnan]
    have again : (s.afterTrial p h).Tries o h := tried
    obtain ⟨hpoint, hreport, hrequests⟩ := ih again hnan running
    rw [loop, running, hturn]
    refine ⟨hpoint, hreport.trans ?_, hrequests.trans ?_⟩
    · simp [State.afterTrial, State.tried, Nat.add_assoc, Nat.add_comm 1]
    · simp [State.afterTrial, State.tried, List.replicate_succ]

/-- A run that ever tries a step whose gain ratio is no number uses up its budget. -/
theorem minimize_of_isNaN (r : Rejected o p x₀ s t h) (hnan : (s.ratio p h).isNaN = true) :
    (minimize o p x₀).point = s.point
      ∧ (minimize o p x₀).report.failure = some .lostPatience
      ∧ (minimize o p x₀).report.steps = o.maxSteps := by
  obtain ⟨hsteps, hrun⟩ := r.reached.minimize_eq
  obtain ⟨hpoint, hreport, -⟩ := loop_of_isNaN r.tried hnan r.running (o.maxSteps - s.steps)
  rw [hrun, hreport]
  exact ⟨hpoint, rfl, Nat.add_sub_cancel' hsteps⟩

end LeastSquares.DogLeg
