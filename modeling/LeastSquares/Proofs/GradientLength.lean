/-
LeastSquares.Proofs.GradientLength — a result is a constant, or has a derivative for each parameter.

An operation on two varying numbers goes through their gradients side by side and stops where the
shorter one ends, without a word about the rest. In a run of a tape there never is a rest. Each
parameter is put on the stack with `n` derivatives, and an instruction that finds only constants and
gradients of length `n` on the stack leaves only such (`Instruction.fits_exec`, `fits_run`). So the
two gradients are of the same length wherever two meet, and the result keeps all of their entries
(`Fits.keptIn_combine`).

None of this looks at a number, and it holds at points that are infinite or no numbers at all.
-/
import LeastSquares.Proofs.Compilation
import LeastSquares.Proofs.Dual

namespace LeastSquares

namespace Dual

variable {K : Type} {n : Nat}

/-- All entries of the gradient of `x`, if it has one, have gone into the gradient of `z`. -/
def KeptIn (x z : Dual K) : Prop :=
  ∀ g, x.gradient? = some g → ∃ h, z.gradient? = some h ∧ h.length = g.length

theorem Fits.length_eq {x : Dual K} (hx : x.Fits n) {g : List K} (hg : x.gradient? = some g) :
    g.length = n := by
  cases x with
  | constant _ => contradiction
  | varying u du =>
    obtain rfl : du = g := Option.some_inj.1 hg
    exact hx

theorem Fits.keptIn {x z : Dual K} (hx : x.Fits n) (hz : z.Fits n) (h : x.Varies → z.Varies) :
    x.KeptIn z := by
  intro g hg
  obtain ⟨k, hk⟩ := Option.isSome_iff_exists.1 (h (Option.isSome_of_mem hg))
  exact ⟨k, hk, (hz.length_eq hk).trans (hx.length_eq hg).symm⟩

/-- Between two gradients of the same length nothing is cut off. -/
theorem Fits.keptIn_combine {x y : Dual K} (hx : x.Fits n) (hy : y.Fits n) (val : K)
    (left right : K → K) (both : K → K → K) :
    x.KeptIn (Dual.combine x y val left right both)
      ∧ y.KeptIn (Dual.combine x y val left right both) := by
  have fits := hx.combine hy val left right both
  have varies := varies_combine x y val left right both
  exact ⟨hx.keptIn fits fun h => varies.2 (.inl h), hy.keptIn fits fun h => varies.2 (.inr h)⟩

theorem not_varies_iff {x : Dual K} : ¬ x.Varies ↔ ∃ c, x = .constant c := by
  cases x <;> simp [Varies, gradient?]

theorem Fits.exists_varying {x : Dual K} (hx : x.Fits n) (h : x.Varies) :
    ∃ val grad, x = .varying val grad ∧ grad.length = n := by
  cases x with
  | constant c => contradiction
  | varying u du => exact ⟨u, du, rfl, hx⟩

end Dual

namespace Postfix

open LeastSquares.Dual

variable {K : Type} [Scalar K] {n : Nat}

/-- The parameters as independent variables at the point `x`. -/
def seeds (x : Vec K n) : Fin n → Dual K :=
  fun i => .ofVariable (x.get i) i

/-! ## What lies on the stack -/

/-- What an instruction puts on the stack fits, if all that lay there did. -/
theorem Instruction.fits_exec {x : Vec K n} (i : Instruction n) {stack next : List (Dual K)}
    (h : i.exec dualReading (seeds x) stack = some next) (fits : ∀ d ∈ stack, d.Fits n) :
    ∀ d ∈ next, d.Fits n := by
  match i, stack, h with
  | .literal _ _, _, rfl => exact List.forall_mem_cons.2 ⟨trivial, fits⟩
  | .parameter _ index, _, rfl =>
    exact List.forall_mem_cons.2 ⟨fits_ofVariable (x.get index) index, fits⟩
  | .operator op, _ :: _ :: _, rfl =>
    simp only [List.forall_mem_cons] at fits ⊢
    exact ⟨fits.2.1.operator fits.1 op, fits.2.2⟩
  | .call (.elementary f), _ :: _, rfl =>
    simp only [List.forall_mem_cons] at fits ⊢
    exact ⟨fits.1.elementary f, fits.2⟩
  | .call (.extremum e), _ :: _ :: _, rfl =>
    simp only [List.forall_mem_cons] at fits ⊢
    exact ⟨fits.2.1.extremum fits.1 e, fits.2.2⟩

/-- At every point of a run, all gradients on the stack have an entry for each parameter. -/
theorem fits_run {x : Vec K n} {code : List (Instruction n)} {stack final : List (Dual K)}
    (h : run dualReading (seeds x) code stack = some final) (fits : ∀ d ∈ stack, d.Fits n) :
    ∀ d ∈ final, d.Fits n := by
  induction code generalizing stack with
  | nil =>
    obtain rfl : stack = final := Option.some_inj.1 h
    exact fits
  | cons i code ih =>
    obtain ⟨next, hi, hnext⟩ := Option.bind_eq_some_iff.1 h
    exact ih hnext (i.fits_exec hi fits)

/-- An instruction of two operands takes them from the stack and puts their combination there. -/
theorem Instruction.exec_binary {x : Vec K n} {i : Instruction n} (two : i.operands = 2)
    {stack next : List (Dual K)} (h : i.exec dualReading (seeds x) stack = some next) :
    ∃ left right rest val l r both,
      stack = right :: left :: rest ∧ next = combine left right val l r both :: rest := by
  match i, stack, h with
  | .operator op, right :: left :: rest, rfl =>
    obtain ⟨val, l, r, both, hop⟩ := exists_eq_combine_operator op left right
    exact ⟨left, right, rest, val, l, r, both, rfl, congrArg (· :: rest) hop⟩
  | .call (.extremum e), right :: left :: rest, rfl =>
    obtain ⟨val, l, r, both, he⟩ := exists_eq_combine_extremum e left right
    exact ⟨left, right, rest, val, l, r, both, rfl, congrArg (· :: rest) he⟩

/-- The run of a tape gets to each of its instructions, and executes it. -/
theorem Tape.exists_exec {V : Type} {params : List String} (t : Tape params) (r : Reading V)
    (env : Fin params.length → V) {before after : List (Instruction params.length)}
    {i : Instruction params.length} (h : t.code = before ++ i :: after) :
    ∃ stack next, run r env before [] = some stack ∧ i.exec r env stack = some next := by
  have hrun := t.run_eq_eval r env
  rw [h, run_append] at hrun
  obtain ⟨stack, hstack, hrest⟩ := Option.bind_eq_some_iff.1 hrun
  obtain ⟨next, hnext, -⟩ := Option.bind_eq_some_iff.1 hrest
  exact ⟨stack, next, hstack, hnext⟩

/-! ## The shape of the result -/

/-- The dual number of an expression is a constant if and only if no word of the text stands for a
parameter, and otherwise its gradient has one entry for each parameter; so has the gradient row in
either case. Wherever the run combines two numbers, both gradients go into the result whole. -/
theorem gradients_complete {params : List String} {text : String} {t : Tape params}
    (h : compile params text = .ok t) (x : Vec K params.length) :
    ((∃ c, t.dual x = .constant c) ↔
      ∀ word ∈ Text.words text, ∀ j, ¬ Reads params word (.parameter j))
    ∧ ((∃ word ∈ Text.words text, ∃ j, Reads params word (.parameter j)) →
      ∃ val grad, t.dual x = .varying val grad ∧ grad.length = params.length)
    ∧ (t.gradientRow x).2.length = params.length
    ∧ ∀ before i after, t.code = before ++ i :: after → i.operands = 2 →
      ∃ left right rest result,
        run dualReading (seeds x) before [] = some (right :: left :: rest)
        ∧ i.exec dualReading (seeds x) (right :: left :: rest) = some (result :: rest)
        ∧ left.KeptIn result ∧ right.KeptIn result := by
  have fits : (t.dual x).Fits params.length := t.dual_tree x ▸ t.tree.fits_dual x
  have varies : (t.dual x).Varies ↔
      ∃ word ∈ Text.words text, ∃ j, Reads params word (.parameter j) := by
    rw [t.dual_tree x, t.tree.varies_dual x]
    simp only [mem_listing_iff h]
    constructor
    · rintro ⟨j, word, hword, hreads⟩
      exact ⟨word, hword, j, hreads⟩
    · rintro ⟨word, hword, j, hreads⟩
      exact ⟨j, word, hword, hreads⟩
  refine ⟨?constant, fun used => fits.exists_varying (varies.2 used), ?row, ?whole⟩
  case constant =>
    rw [← not_varies_iff, varies]
    simp only [not_exists, not_and]
  case row =>
    rw [Tape.gradientRow, fits.gradientOr_eq, List.length_ofFn]
  case whole =>
    intro before i after hcode two
    obtain ⟨stack, next, hstack, hnext⟩ := t.exists_exec dualReading (seeds x) hcode
    obtain ⟨left, right, rest, val, l, r, both, rfl, rfl⟩ := i.exec_binary two hnext
    have hfits := fits_run hstack (List.forall_mem_nil _)
    simp only [List.forall_mem_cons] at hfits
    exact ⟨left, right, rest, _, hstack, hnext, hfits.2.1.keptIn_combine hfits.1 ..⟩

/-- The root of minus one, less three, times infinity: the value is no number, and the gradient has
an entry for each of the three parameters, the unused one included. -/
theorem gradients_complete_without_number :
    let params := ["x", "y", "z"]
    let text := "x sqrt 3 - y *"
    let x : Vec Float 3 := #v[-1.0, 1.0 / 0.0, 2.0]
    ∃ t, compile params text = .ok t
      ∧ (∃ word ∈ Text.words text, ∃ j, Reads params word (.parameter j))
      ∧ (t.dual x).value.isNaN = true
      ∧ (∃ val grad, t.dual x = .varying val grad ∧ grad.length = 3)
      ∧ (t.gradientRow x).2.length = 3 := by
  intro params text x
  let t : Tape params := ⟨[.parameter "x" 0, .call (.elementary .sqrt), .literal "3" ⟨false, 3, 0⟩,
    .operator .sub, .parameter "y" 1, .operator .mul], rfl⟩
  have h : compile params text = .ok t := by decide +kernel
  have used : ∃ word ∈ Text.words text, ∃ j, Reads params word (.parameter j) :=
    ⟨"x", by decide +kernel, 0, Instruction.reads_iff.2 (by decide +kernel)⟩
  obtain ⟨-, varying, row, -⟩ := gradients_complete h x
  exact ⟨t, h, used, by decide +kernel, varying used, row⟩

end Postfix

end LeastSquares
