/-
LeastSquares.Proofs.Loop — loops with a budget.

Both solvers repeat a step until a state has passed a test, until a step ends the run by itself, or
until the budget is used up. `Loop` is this shape without anything that makes it a solver. In a
state it is done, or a round stops it, or a round leads on (`Loop.round_cases`), and what holds of
runs follows from what holds of one round, by one induction on the budget each:

* `Loop.exists_ends` — an invariant is kept until the state where the run ends, in one of three ways
  (`Loop.Ends`).
* `Loop.Logs` — a log that is only ever extended. What it shows in a state is the beginning of what
  it shows of the run (`Loop.Logs.prefix_run`), and the log of a run is the beginning of the log of
  the run with a larger budget (`Loop.Logs.run_prefix_run`). Two loops with the same rounds where
  the rounds are in the log of the run make the same run (`Loop.Logs.run_congr`).
* `Loop.Meter` — a result tells the number of rounds, and whether the budget was used up. If it was
  not, a larger budget leads to the same run (`Loop.Meter.run_eq_run`); if it was, all rounds of the
  budget were made (`Loop.Meter.total_run`).
* `Loop.Related` — two loops that stay in line with each round have runs that do
  (`Loop.Related.run`).
-/
import Mathlib.Data.List.Infix

namespace LeastSquares

/-- A loop on states of the type `σ`, with results of the type `ρ`. -/
structure Loop (σ ρ : Type) where
  /-- There is nothing left to do in this state. -/
  done : σ → Bool
  /-- One round: it stops the run with a result, or leads to the next state. -/
  round : σ → ρ ⊕ σ
  /-- The result of a run that ends in this state without another round. -/
  finish : σ → ρ

namespace Loop

variable {σ ρ : Type} {L : Loop σ ρ} {budget k l : Nat} {s t : σ} {r : ρ}

/-- The run from a state on, with at most `budget` further rounds. -/
def run (L : Loop σ ρ) : (budget : Nat) → σ → ρ
  | 0, s => L.finish s
  | budget + 1, s =>
    if L.done s then L.finish s
    else match L.round s with
      | .inl r => r
      | .inr t => L.run budget t

/-! ## One round -/

theorem run_zero (L : Loop σ ρ) (s : σ) : L.run 0 s = L.finish s :=
  rfl

theorem run_of_done (done : L.done s = true) (budget : Nat) : L.run budget s = L.finish s := by
  cases budget with
  | zero => rfl
  | succ budget => exact if_pos done

theorem run_of_stop (running : L.done s = false) (stopped : L.round s = .inl r) (budget : Nat) :
    L.run (budget + 1) s = r := by
  rw [run, running, stopped]
  rfl

theorem run_of_go (running : L.done s = false) (went : L.round s = .inr t) (budget : Nat) :
    L.run (budget + 1) s = L.run budget t := by
  rw [run, running, went]
  rfl

theorem round_cases (L : Loop σ ρ) (s : σ) : L.done s = true
    ∨ (L.done s = false ∧ ∃ r, L.round s = .inl r)
    ∨ (L.done s = false ∧ ∃ t, L.round s = .inr t) := by
  cases L.done s with
  | true => exact .inl rfl
  | false =>
    cases L.round s with
    | inl r => exact .inr (.inl ⟨rfl, r, rfl⟩)
    | inr t => exact .inr (.inr ⟨rfl, t, rfl⟩)

/-! ## The end of a run -/

/-- With `budget` rounds left, a run ends in the state `s` with the result `r`. -/
inductive Ends (L : Loop σ ρ) (budget : Nat) (s : σ) : ρ → Prop where
  | done (done : L.done s = true) : L.Ends budget s (L.finish s)
  | spent (running : L.done s = false) (spent : budget = 0) : L.Ends budget s (L.finish s)
  | stopped {r : ρ} (running : L.done s = false) (left : 0 < budget)
      (stopped : L.round s = .inl r) : L.Ends budget s r

theorem Ends.run_eq (h : L.Ends budget s r) : L.run budget s = r := by
  cases h with
  | done done => exact run_of_done done budget
  | spent _ spent => rw [spent, run_zero]
  | stopped running left stopped =>
    obtain ⟨budget, rfl⟩ : ∃ b, budget = b + 1 := ⟨budget - 1, by omega⟩
    exact run_of_stop running stopped budget

/-- A run ends in a state, or makes another round there and goes on. -/
theorem ends_or_goes (L : Loop σ ρ) (budget : Nat) (s : σ) : (∃ r, L.Ends budget s r)
    ∨ L.done s = false ∧ 0 < budget ∧ ∃ t, L.round s = .inr t := by
  rcases Nat.eq_zero_or_pos budget with spent | left
  · cases hdone : L.done s with
    | true => exact .inl ⟨_, .done hdone⟩
    | false => exact .inl ⟨_, .spent hdone spent⟩
  · rcases L.round_cases s with done | ⟨running, r, stopped⟩ | ⟨running, t, went⟩
    · exact .inl ⟨_, .done done⟩
    · exact .inl ⟨r, .stopped running left stopped⟩
    · exact .inr ⟨running, left, t, went⟩

/-- An invariant of the rounds holds where the run ends. A state knows how many rounds are `left`. -/
theorem exists_ends (L : Loop σ ρ) {Inv : σ → Prop} {left : σ → Nat}
    (keeps : ∀ s t, Inv s → L.done s = false → 0 < left s → L.round s = .inr t →
      Inv t ∧ left t + 1 = left s)
    {s : σ} (h : Inv s) : ∃ t, Inv t ∧ L.Ends (left t) t (L.run (left s) s) := by
  rcases L.ends_or_goes (left s) s with ⟨r, hend⟩ | ⟨running, hleft, t, went⟩
  · exact ⟨s, h, hend.run_eq.symm ▸ hend⟩
  · obtain ⟨ht, hless⟩ := keeps s t h running hleft went
    rw [← hless, run_of_go running went]
    exact L.exists_ends keeps ht
termination_by left s
decreasing_by omega

/-! ## Logs -/

section Logs

variable {α : Type} {seen : σ → List α} {shown : ρ → List α}

/-- The states and the results of a loop show a log that every round extends, and that the end of a
run leaves as it is. -/
structure Logs (L : Loop σ ρ) (seen : σ → List α) (shown : ρ → List α) : Prop where
  finish (s : σ) : shown (L.finish s) = seen s
  round (s : σ) : seen s <+: Sum.elim shown seen (L.round s)

namespace Logs

theorem stop (h : L.Logs seen shown) (stopped : L.round s = .inl r) : seen s <+: shown r := by
  simpa [stopped] using h.round s

theorem go (h : L.Logs seen shown) (went : L.round s = .inr t) : seen s <+: seen t := by
  simpa [went] using h.round s

/-- What has been logged before a state stays at the front of the log of the whole run. -/
theorem prefix_run (h : L.Logs seen shown) (budget : Nat) (s : σ) :
    seen s <+: shown (L.run budget s) := by
  induction budget generalizing s with
  | zero => rw [run_zero, h.finish]
  | succ budget ih =>
    rcases L.round_cases s with done | ⟨running, r, stopped⟩ | ⟨running, t, went⟩
    · rw [run_of_done done, h.finish]
    · rw [run_of_stop running stopped]
      exact h.stop stopped
    · rw [run_of_go running went]
      exact (h.go went).trans (ih t)

/-- A run that may make fewer rounds has logged the beginning of what one with more does. -/
theorem run_prefix_run (h : L.Logs seen shown) (hkl : k ≤ l) (s : σ) :
    shown (L.run k s) <+: shown (L.run l s) := by
  induction k generalizing l s with
  | zero =>
    rw [run_zero, h.finish]
    exact h.prefix_run l s
  | succ k ih =>
    obtain ⟨l, rfl⟩ : ∃ m, l = m + 1 := ⟨l - 1, by omega⟩
    rcases L.round_cases s with done | ⟨running, r, stopped⟩ | ⟨running, t, went⟩
    · rw [run_of_done done, run_of_done done]
    · rw [run_of_stop running stopped, run_of_stop running stopped]
    · rw [run_of_go running went, run_of_go running went]
      exact ih (Nat.le_of_succ_le_succ hkl) t

/-- Another loop makes the same run, if it makes the same round wherever what the round logs is part
of the final log. -/
theorem run_congr (h : L.Logs seen shown) {L' : Loop σ ρ} (done : L'.done = L.done)
    (finish : L'.finish = L.finish) {log : List α}
    (rounds : ∀ s, Sum.elim shown seen (L.round s) ⊆ log → L'.round s = L.round s)
    (final : shown (L.run budget s) ⊆ log) : L'.run budget s = L.run budget s := by
  induction budget generalizing s with
  | zero => rw [run_zero, run_zero, finish]
  | succ budget ih =>
    rcases L.round_cases s with hdone | ⟨running, r, stopped⟩ | ⟨running, t, went⟩
    · rw [run_of_done hdone, run_of_done (done ▸ hdone), finish]
    · rw [run_of_stop running stopped] at final ⊢
      have same : L'.round s = .inl r := (rounds s (by rw [stopped]; exact final)).trans stopped
      exact run_of_stop (done ▸ running) same budget
    · rw [run_of_go running went] at final ⊢
      -- what the round has logged is still there at the end
      have logged : seen t ⊆ log := fun a ha => final ((h.prefix_run budget t).subset ha)
      have same : L'.round s = .inr t := (rounds s (by rw [went]; exact logged)).trans went
      rw [run_of_go (done ▸ running) same]
      exact ih final

end Logs

end Logs

/-! ## The budget -/

section Meter

variable {count : σ → Nat} {total : ρ → Nat} {spent : ρ → Prop}

/-- The states count the rounds, and a result shows their number and whether the run was cut off
because its budget was used up. -/
structure Meter (L : Loop σ ρ) (count : σ → Nat) (total : ρ → Nat) (spent : ρ → Prop) : Prop where
  count_round {s t : σ} (went : L.round s = .inr t) : count t = count s + 1
  total_finish (s : σ) : total (L.finish s) = count s
  spent_finish (s : σ) : spent (L.finish s) ↔ L.done s = false
  not_spent {s : σ} {r : ρ} (stopped : L.round s = .inl r) : ¬ spent r

namespace Meter

/-- A run that was not cut off makes no use of a larger budget. -/
theorem run_eq_run (h : L.Meter count total spent) (hkl : k ≤ l)
    (settled : ¬ spent (L.run k s)) : L.run l s = L.run k s := by
  induction k generalizing l s with
  | zero =>
    have done : L.done s = true := by
      rwa [run_zero, h.spent_finish, Bool.not_eq_false] at settled
    rw [run_of_done done, run_zero]
  | succ k ih =>
    obtain ⟨l, rfl⟩ : ∃ m, l = m + 1 := ⟨l - 1, by omega⟩
    rcases L.round_cases s with done | ⟨running, r, stopped⟩ | ⟨running, t, went⟩
    · rw [run_of_done done, run_of_done done]
    · rw [run_of_stop running stopped, run_of_stop running stopped]
    · rw [run_of_go running went] at settled ⊢
      rw [run_of_go running went]
      exact ih (Nat.le_of_succ_le_succ hkl) settled

/-- A run that was cut off has made as many rounds as it may. -/
theorem total_run (h : L.Meter count total spent) (cut : spent (L.run k s)) :
    total (L.run k s) = count s + k := by
  induction k generalizing s with
  | zero => exact h.total_finish s
  | succ k ih =>
    rcases L.round_cases s with done | ⟨running, r, stopped⟩ | ⟨running, t, went⟩
    · rw [run_of_done done, h.spent_finish, done] at cut
      contradiction
    · rw [run_of_stop running stopped] at cut
      exact absurd cut (h.not_spent stopped)
    · rw [run_of_go running went] at cut ⊢
      rw [ih cut, h.count_round went]
      omega

end Meter

end Meter

/-! ## Two loops -/

section Related

variable {σ' ρ' : Type} {L' : Loop σ' ρ'} {R : σ → σ' → Prop} {Q : ρ → ρ' → Prop}

/-- States related by `R` are done together, end with results related by `Q`, and a round from them
has related outcomes. -/
structure Related (L : Loop σ ρ) (L' : Loop σ' ρ') (R : σ → σ' → Prop) (Q : ρ → ρ' → Prop) :
    Prop where
  done {s : σ} {s' : σ'} (h : R s s') : L'.done s' = L.done s
  finish {s : σ} {s' : σ'} (h : R s s') : Q (L.finish s) (L'.finish s')
  round {s : σ} {s' : σ'} (h : R s s') : Sum.LiftRel Q R (L.round s) (L'.round s')

/-- Two runs stay in line until both end. -/
theorem Related.run (related : L.Related L' R Q) {s : σ} {s' : σ'} (h : R s s') (budget : Nat) :
    Q (L.run budget s) (L'.run budget s') := by
  induction budget generalizing s s' with
  | zero => exact related.finish h
  | succ budget ih =>
    have hround := related.round h
    rw [Loop.run, Loop.run, related.done h]
    cases L.done s with
    | true => exact related.finish h
    | false =>
      generalize L.round s = outcome at hround ⊢
      generalize L'.round s' = outcome' at hround ⊢
      cases hround with
      | inl hresult => exact hresult
      | inr hnext => exact ih hnext

end Related

end Loop

end LeastSquares
