/-
LeastSquares.Proofs.DogLeg.Descent — the error decreases along the iterates of a run.

A trial is accepted if its gain ratio is positive. The ratio is a quotient of two computed
differences, one of them of halves, so a positive ratio says that the error of the trial is smaller
than the one of the model only because each of these operations keeps the order that far
(`normSq_lt_of_gainRatio_pos`). No more is used of the numbers than the laws of `OrderedScalar`, and
the same holds of doubles and of real numbers.

The error of the trial is that of the residuals alone, the error of the model that of the residuals
with the Jacobian. So the errors form a chain (`descending_minimize`), and its links fit together if
the problem computes both in the same way (`minimize_descends`).
-/
import LeastSquares.Proofs.DogLeg.History

namespace LeastSquares.DogLeg

/-! ## One step -/

section Ordered

variable {K : Type} [Scalar K] [OrderedScalar K] {n : Nat}

/-- A step with a positive gain ratio makes the error smaller. -/
theorem normSq_lt_of_gainRatio_pos {m : LinearModel K n} {h : Vec K n} {residuals : List K}
    (hpos : 0 < gainRatio m h residuals) : Sized.normSq residuals < m.error := by
  unfold gainRatio at hpos
  dsimp only at hpos
  split_ifs at hpos with predicted
  · have hgain : 0 < actualGain m residuals := OrderedScalar.pos_of_div_pos predicted hpos
    exact OrderedScalar.lt_of_half_lt_half (OrderedScalar.lt_of_sub_pos hgain)
  · exact absurd hpos (OrderedScalar.not_lt_of_le zero_le_zero)

variable {o : Options K} {p : Problem K n} {x₀ h : Vec K n} {s : State K n} {ts : List (Trial K n)}

/-- The error of an accepted trial is smaller than the error of the point it starts from. -/
theorem State.Tracks.plainError_lt (hs : s.Tracks p x₀ ts) (accepted : 0 < s.ratio p h) :
    p.plainError (s.point.add h) < p.error s.point := by
  have hlt : Sized.normSq (p.residuals (s.point.add h)) < s.model.error :=
    normSq_lt_of_gainRatio_pos accepted
  rwa [hs.model] at hlt

/-! ## A run -/

/-- The error of each point, computed from the residuals alone, is smaller than the error of the
point before it, computed from the residuals that come with the Jacobian. -/
def Descending (p : Problem K n) (xs : List (Vec K n)) : Prop :=
  xs.IsChain fun x y => p.plainError y < p.error x

omit [OrderedScalar K] in
theorem Descending.concat {xs : List (Vec K n)} {x y : Vec K n} (hxs : Descending p xs)
    (last : xs.getLast? = some x) (hlt : p.plainError y < p.error x) :
    Descending p (xs ++ [y]) := by
  refine List.isChain_append.2 ⟨hxs, List.isChain_singleton y, ?_⟩
  intro z hz w hw
  obtain rfl : x = z := Option.some.inj (last.symm.trans hz)
  obtain rfl : y = w := Option.some.inj hw
  exact hlt

theorem State.Tracks.descending_afterMove (hs : s.Tracks p x₀ ts)
    (descending : Descending p (iterates s.requests)) (accepted : 0 < s.ratio p h) :
    Descending p (iterates (s.afterMove o p h).requests) := by
  rw [State.requests_afterMove, iterates_push_evaluation, iterates_push_residuals]
  exact descending.concat hs.point (hs.plainError_lt accepted)

theorem History.descending (hs : History o p x₀ ts s) : Descending p (iterates s.requests) := by
  induction hs with
  | initial _ => exact List.isChain_singleton x₀
  | next history _ _ tried turned ih =>
    obtain ⟨accepted, -, rfl⟩ | ⟨-, rfl⟩ := State.eq_of_turn tried turned
    · rw [State.requests_resize]
      exact history.tracks.descending_afterMove ih accepted
    · rw [State.requests_resize, State.requests_afterTrial, iterates_push_residuals]
      exact ih

theorem Stops.descending (hs : Stops o p x₀ ts s) : Descending p (iterates s.requests) := by
  cases hs with
  | between history => exact history.descending
  | untried history => exact history.descending
  | notFinite history _ accepted =>
    exact history.tracks.descending_afterMove history.descending accepted

/-- The iterates of a run are descending, whatever the problem. -/
theorem descending_minimize (o : Options K) (p : Problem K n) (x₀ : Vec K n) :
    Descending p (iterates (minimize o p x₀).requests) := by
  rcases minimize_cases o p x₀ with ⟨_, _, _, hrun, -⟩ | ⟨ts, s, stops, shows⟩
  · rw [hrun]
    exact List.isChain_singleton x₀
  · rw [shows.requests]
    exact stops.descending

/-- Where the residuals with the Jacobian have no larger errors than the residuals alone, the errors
of descending points decrease. -/
theorem Descending.pairwise {xs : List (Vec K n)} (hxs : Descending p xs)
    (hle : ∀ x ∈ xs.tail, Scalar.isNaN (p.plainError x) = false → p.error x ≤ p.plainError x) :
    xs.Pairwise fun x y => p.error y < p.error x := by
  have hchain : xs.IsChain fun x y => p.error y < p.error x := by
    refine hxs.imp_of_mem_tail_imp fun x y _ hy hlt => ?_
    exact OrderedScalar.lt_of_le_of_lt (hle y hy (OrderedScalar.lt_iff.1 hlt).1) hlt
  have trans : IsTrans (Vec K n) fun x y => p.error y < p.error x :=
    ⟨fun _ _ _ hxy hyz => OrderedScalar.lt_trans hyz hxy⟩
  exact List.isChain_iff_pairwise.1 hchain

omit [OrderedScalar K] in
/-- If the errors of the iterates decrease, the run returns its initial point or a better one. -/
theorem error_point_lt (decreasing : (iterates (minimize o p x₀).requests).Pairwise
      fun x y => p.error y < p.error x) (moved : (minimize o p x₀).point ≠ x₀) :
    p.error (minimize o p x₀).point < p.error x₀ := by
  have hlast := getLast?_iterates o p x₀
  obtain ⟨rest, hrest⟩ := List.head?_eq_some_iff.1 (head?_iterates o p x₀)
  rw [hrest] at hlast decreasing
  have hmem := List.mem_of_getLast? hlast
  exact List.rel_of_pairwise_cons decreasing ((List.mem_cons.1 hmem).resolve_left moved)

/-- If the errors of the iterates decrease, the reported objective is none that is larger than the
one at the initial point. -/
theorem objective_le (decreasing : (iterates (minimize o p x₀).requests).Pairwise
      fun x y => p.error y < p.error x) (hnan : Scalar.isNaN (0.5 * p.error x₀) = false) :
    (minimize o p x₀).report.objective ≤ 0.5 * p.error x₀ := by
  rw [objective_eq]
  by_cases moved : (minimize o p x₀).point = x₀
  · rw [moved]
    exact OrderedScalar.le_refl hnan
  · exact OrderedScalar.half_le_half (OrderedScalar.le_of_lt (error_point_lt decreasing moved))

/-! ## Consistent problems -/

/-- The errors along the run `r` from `x₀` decrease. -/
structure Run.Descends (o : Options K) (p : Problem K n) (x₀ : Vec K n) (r : Run K n) : Prop where
  starts : (iterates r.requests).head? = some x₀
  ends : (iterates r.requests).getLast? = some r.point
  /-- The error that is kept between two steps is the one of the current iterate. -/
  cached (s : State K n) (reached : Reaches o p x₀ s) :
    s.model.error = p.error s.point ∧ (iterates s.requests).getLast? = some s.point
  decreases : (iterates r.requests).Pairwise fun x y => p.error y < p.error x
  objective_le : Scalar.isNaN (0.5 * p.error x₀) = false → r.report.objective ≤ 0.5 * p.error x₀
  error_lt : r.point ≠ x₀ → p.error r.point < p.error x₀

theorem descends_of_consistent (o : Options K) (consistent : p.Consistent) (x₀ : Vec K n) :
    (minimize o p x₀).Descends o p x₀ := by
  have decreasing : (iterates (minimize o p x₀).requests).Pairwise
      fun x y => p.error y < p.error x := by
    refine (descending_minimize o p x₀).pairwise fun x _ hnan => ?_
    -- an accepted error is a number, so it is not larger than itself
    rw [consistent.plainError_eq] at hnan ⊢
    exact OrderedScalar.le_refl hnan
  refine ⟨head?_iterates o p x₀, getLast?_iterates o p x₀, fun s reached => ?_, decreasing,
    DogLeg.objective_le decreasing, error_point_lt decreasing⟩
  obtain ⟨ts, history⟩ := reached.exists_history
  refine ⟨?_, history.tracks.point⟩
  rw [history.tracks.model]
  rfl

end Ordered

/-- On a consistent problem the errors of every run decrease, in doubles and in exact numbers. -/
theorem minimize_descends {n : Nat} :
    (∀ (o : Options Float) (p : Problem Float n) (x₀ : Vec Float n), p.Consistent →
        (minimize o p x₀).Descends o p x₀)
      ∧ ∀ (o : Options ℝ) (p : Problem ℝ n) (x₀ : Vec ℝ n), p.Consistent →
        (minimize o p x₀).Descends o p x₀ :=
  ⟨fun o _ x₀ consistent => descends_of_consistent o consistent x₀,
    fun o _ x₀ consistent => descends_of_consistent o consistent x₀⟩

/-- The residual is `x - 5`. -/
def line : Problem Float 1 where
  evaluate x := ⟨1, x.sub #v[5.0], Mat.identity 1⟩

/-- From zero and within a small radius, the run comes nearer to five. -/
theorem minimize_descends_line :
    let o : Options Float := { Options.standard with delta0 := some 0.5, maxSteps := 2 }
    line.Consistent ∧ (iterates (minimize o line #v[0.0]).requests) = [#v[0.0], #v[0.5], #v[2.0]]
      ∧ line.error (minimize o line #v[0.0]).point < line.error #v[0.0]
      ∧ (minimize o line #v[0.0]).report.objective ≤ 0.5 * line.error #v[0.0] := by
  intro o
  have consistent : line.Consistent := fun _ => rfl
  have descends := minimize_descends.1 o line #v[0.0] consistent
  exact ⟨consistent, by decide +kernel, descends.error_lt (by decide +kernel),
    descends.objective_le (by decide +kernel)⟩

end LeastSquares.DogLeg
