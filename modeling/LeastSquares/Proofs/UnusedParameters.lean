/-
LeastSquares.Proofs.UnusedParameters — derivatives in directions that an expression does not use.

The parameters of an expression start with a derivative of zero in every direction but their own,
so in a direction that belongs to none of them all derivatives are computed from zeros. The rules of
differentiation multiply and divide these zeros like any other entry of a gradient. A zero stays one
if it is multiplied with a finite number, or divided by a number that is not zero; otherwise the
result is no number, and nothing that is computed from it is one (`ZeroIf`).

Which of the two happens is decided by the factors and divisors of the rules alone. `Tame` collects
for each operation what its rule demands of them, and `unused_entry_eq_zero_iff` says that nothing
else is needed: the entry is zero if and only if all operations of the expression are tame.

* A divisor that is exactly zero is replaced in the rules of division, `tan`, `asin`, `acos`, `atan`
  and of the power of two varying operands. It is not in those of the square root and the logarithm,
  so these are not tame at zero, although the square root of zero is a harmless value
  (`unused_entry_isNaN_at_root`).
* A factor may be infinite where the value is finite, such as the slope of a power with an exponent
  below one at the base zero.
-/
import LeastSquares.Proofs.Compilation
import LeastSquares.Proofs.Double.Special
import LeastSquares.Proofs.Dual

namespace LeastSquares

open Postfix Double

/-! ## Zeros and what becomes of them

Both outcomes are carried along at once, with the condition `P` that decides between them. So each
rule adds what it demands to the condition, and the lemmas can be put together like the rules. -/

/-- `z` is zero if `P` holds, and otherwise no number. -/
structure ZeroIf (P : Prop) (z : Float) : Prop where
  beq_zero : P → (z == 0.0) = true
  isNaN : ¬ P → z.isNaN = true

namespace ZeroIf

variable {P Q : Prop} {y z : Float}

theorem zero (hP : P) : ZeroIf P 0.0 :=
  ⟨fun _ => rfl, fun h => absurd hP h⟩

theorem beq_zero_iff (h : ZeroIf P z) : (z == 0.0) = true ↔ P := by
  refine ⟨fun hz => ?_, h.beq_zero⟩
  by_contra hP
  rw [beq_of_isNaN (h.isNaN hP)] at hz
  contradiction

theorem beq_zero_or_isNaN (h : ZeroIf P z) : (z == 0.0) = true ∨ z.isNaN = true :=
  (em P).imp h.beq_zero h.isNaN

theorem congr (h : ZeroIf P z) (hPQ : P ↔ Q) : ZeroIf Q z :=
  ⟨fun hQ => h.beq_zero (hPQ.2 hQ), fun hQ => h.isNaN fun hP => hQ (hPQ.1 hP)⟩

theorem and_true (h : ZeroIf P z) : ZeroIf (P ∧ True) z :=
  h.congr (and_iff_left trivial).symm

theorem neg (h : ZeroIf P z) : ZeroIf P (-z) where
  beq_zero hP := by rw [beq_zero_neg, h.beq_zero hP]
  isNaN hP := by rw [isNaN_neg, h.isNaN hP]

theorem add (hy : ZeroIf P y) (hz : ZeroIf Q z) : ZeroIf (P ∧ Q) (y + z) where
  beq_zero h := beq_zero_add (hy.beq_zero h.1) (hz.beq_zero h.2)
  isNaN h := isNaN_add ((not_and_or.1 h).imp hy.isNaN hz.isNaN)

theorem sub (hy : ZeroIf P y) (hz : ZeroIf Q z) : ZeroIf (P ∧ Q) (y - z) where
  beq_zero h := beq_zero_sub (hy.beq_zero h.1) (hz.beq_zero h.2)
  isNaN h := isNaN_sub ((not_and_or.1 h).imp hy.isNaN hz.isNaN)

theorem mul (h : ZeroIf P z) (c : Float) : ZeroIf (P ∧ c.isFinite = true) (z * c) where
  beq_zero hc := beq_zero_mul (h.beq_zero hc.1) hc.2
  isNaN hc := by
    by_cases hP : P
    · exact isNaN_beq_zero_mul (h.beq_zero hP)
        (Bool.not_eq_true _ ▸ fun hfinite => hc ⟨hP, hfinite⟩)
    · exact isNaN_mul (.inl (h.isNaN hP))

theorem mul_left (h : ZeroIf P z) (c : Float) : ZeroIf (P ∧ c.isFinite = true) (c * z) :=
  Double.mul_comm z c ▸ h.mul c

end ZeroIf

/-- A number that zero can be divided by. -/
def IsDivisor (c : Float) : Prop :=
  c.isNaN = false ∧ (c == 0.0) = false

namespace ZeroIf

variable {P : Prop} {z : Float}

theorem div (h : ZeroIf P z) (c : Float) : ZeroIf (P ∧ IsDivisor c) (z / c) where
  beq_zero hc := beq_zero_div (h.beq_zero hc.1) hc.2.1 hc.2.2
  isNaN hc := by
    by_cases hP : P
    · by_cases hnan : c.isNaN = true
      · exact isNaN_div (.inr hnan)
      · rw [Bool.not_eq_true] at hnan
        exact isNaN_beq_zero_div (h.beq_zero hP)
          (Bool.not_eq_false _ ▸ fun hne => hc ⟨hP, hnan, hne⟩)
    · exact isNaN_div (.inl (h.isNaN hP))

/-- The guard leaves only what is no number as a divisor that zero cannot be divided by. -/
theorem quotient (h : ZeroIf P z) (c : Float) :
    ZeroIf (P ∧ c.isNaN = false) (Dual.quotient z c) := by
  have hguard : IsDivisor Dual.divisionGuard := ⟨by decide +kernel, by decide +kernel⟩
  unfold Dual.quotient
  split_ifs with hc
  · have hnan : c.isNaN = false := by
      by_contra hnan
      rw [Bool.not_eq_false] at hnan
      exact absurd (hc : (c == 0.0) = true) (beq_of_isNaN hnan 0.0 ▸ Bool.false_ne_true)
    exact (h.div _).congr (and_congr_right' (iff_of_true hguard hnan))
  · exact (h.div c).congr (and_congr_right' (and_iff_left (Bool.not_eq_true _ ▸ hc)))

end ZeroIf

/-! ## Entries of one direction -/

open LeastSquares.Dual

namespace ZeroIf

variable {n : Nat} {j : Fin n} {P Q : Prop} {x y : Dual Float}

/-- An operation on one dual keeps a zero under the condition that its rule has. -/
theorem lift (hx : x.Fits n) (h : ZeroIf P (x.entry j)) (val : Float) {slope : Float → Float}
    {T : Prop} (rule : ∀ {z}, ZeroIf P z → ZeroIf (P ∧ T) (slope z)) :
    ZeroIf (P ∧ (x.Varies → T)) ((x.lift val slope).entry j) := by
  cases x with
  | constant u => exact h.congr (by simp [Varies, gradient?])
  | varying u du =>
    rw [entry_lift_varying hx]
    exact (rule h).congr (by simp [Varies, gradient?])

/-- An operation on two duals keeps zeros under the condition that the rule of its case has. The
entry of a constant is zero, so nothing is demanded of it. -/
theorem combine (hx : x.Fits n) (hy : y.Fits n) (h : ZeroIf P (x.entry j))
    (k : ZeroIf Q (y.entry j)) (val : Float) {left right : Float → Float}
    {both : Float → Float → Float} {L R B : Prop}
    (hl : ∀ {z}, ZeroIf P z → ZeroIf (P ∧ L) (left z))
    (hr : ∀ {z}, ZeroIf Q z → ZeroIf (Q ∧ R) (right z))
    (hb : ∀ {z w}, ZeroIf P z → ZeroIf Q w → ZeroIf ((P ∧ Q) ∧ B) (both z w)) :
    ZeroIf (P ∧ Q ∧ select x y True L R B)
      ((Dual.combine x y val left right both).entry j) := by
  have holds {S : Prop} {c : Float} (hc : ZeroIf S ((constant c).entry j)) : S :=
    hc.beq_zero_iff.1 (show ((0.0 : Float) == 0.0) = true from rfl)
  rw [entry_combine_select hx hy]
  cases x with
  | constant a =>
    cases y with
    | constant b => exact zero ⟨holds h, holds k, trivial⟩
    | varying v dv => exact (hr k).congr (and_iff_right (holds h)).symm
  | varying u du =>
    cases y with
    | constant b => exact (hl h).congr (and_congr_right' (and_iff_right (holds k)).symm)
    | varying v dv => exact (hb h k).congr and_assoc

end ZeroIf

/-! ## Tame operations -/

namespace Postfix

/-- What the derivative of a function demands of a varying argument `u`. -/
def Elementary.Demands (u : Float) : Elementary → Prop
  | sin => (Float.cos u).isFinite = true
  | cos => (-Float.sin u).isFinite = true
  | tan => (Float.cos u * Float.cos u).isNaN = false
  | asin => (Float.sqrt (1.0 - u * u)).isNaN = false
  | acos => (Float.sqrt (1.0 - u * u)).isNaN = false
  | atan => (1.0 + u * u).isNaN = false
  | exp => (Float.exp u).isFinite = true
  | sqrt => IsDivisor (2.0 * Float.sqrt u)
  | log => IsDivisor u
  | neg => True

/-- What the rule of an operation demands of the operands, by which of the two vary. -/
def Operator.Demands (x y : Dual Float) : Operator → Prop
  | add => True
  | sub => True
  | mul => select x y True (y.value.isFinite = true) (x.value.isFinite = true)
      (x.value.isFinite = true ∧ y.value.isFinite = true)
  | div => select x y True (y.value.isNaN = false)
      ((-x.value).isFinite = true ∧ (y.value * y.value).isNaN = false)
      ((x.value.isFinite = true ∧ y.value.isFinite = true)
        ∧ (y.value * y.value).isNaN = false)
  | pow => select x y True ((y.value * Float.pow x.value (y.value - 1.0)).isFinite = true)
      ((Float.log x.value * Float.pow x.value y.value).isFinite = true)
      (((y.value.isFinite = true ∧ (x.value * Float.log x.value).isFinite = true)
        ∧ x.value.isNaN = false) ∧ (Float.pow x.value y.value).isFinite = true)

/-- The shares of the two operands of an extremum in the gradient. -/
def Extremum.shares (x y : Dual Float) : Extremum → LogSumExp Float
  | max => .of (x.value / temperature) (y.value / temperature)
  | min => .of (-x.value / temperature) (-y.value / temperature)

/-- The shares of the operands that vary have to be finite. -/
def Extremum.Demands (x y : Dual Float) (e : Extremum) : Prop :=
  select x y True ((e.shares x y).first.isFinite = true) ((e.shares x y).second.isFinite = true)
    ((e.shares x y).first.isFinite = true ∧ (e.shares x y).second.isFinite = true)

variable {n : Nat}

/-- At `x` all operations of the expression get what their rules demand. -/
def Expression.Tame (x : Vec Float n) : Expression n → Prop
  | literal _ => True
  | parameter _ => True
  | elementary f e => e.Tame x ∧ ((e.dual x).Varies → f.Demands (e.dual x).value)
  | operator op left right =>
    left.Tame x ∧ right.Tame x ∧ op.Demands (left.dual x) (right.dual x)
  | extremum e left right =>
    left.Tame x ∧ right.Tame x ∧ e.Demands (left.dual x) (right.dual x)

end Postfix

/-! ## One case for each operation

The cases of `Demands` follow the rules: each factor of an entry has to be finite, and each divisor
has to be one that zero can be divided by. The conditions come in the order in which the rule
computes, and with its brackets. -/

namespace ZeroIf

variable {n : Nat} {j : Fin n} {P Q : Prop} {x y : Dual Float}

theorem elementary (hx : x.Fits n) (h : ZeroIf P (x.entry j)) (f : Elementary) :
    ZeroIf (P ∧ (x.Varies → f.Demands x.value)) ((f.dual x).entry j) := by
  cases f with
  | sin => exact h.lift hx _ fun h => h.mul_left _
  | cos => exact h.lift hx _ fun h => h.mul_left _
  | tan => exact h.lift hx _ fun h => h.quotient _
  | asin => exact h.lift hx _ fun h => h.quotient _
  | acos => exact h.lift hx _ fun h => (h.quotient _).neg
  | atan => exact h.lift hx _ fun h => h.quotient _
  | exp => exact h.lift hx _ fun h => h.mul_left _
  | sqrt => exact h.lift hx _ fun h => h.div _
  | log => exact h.lift hx _ fun h => h.div _
  | neg => exact h.lift hx _ fun h => h.neg.and_true

theorem operator (hx : x.Fits n) (hy : y.Fits n) (h : ZeroIf P (x.entry j))
    (k : ZeroIf Q (y.entry j)) (op : Operator) :
    ZeroIf (P ∧ Q ∧ op.Demands x y) ((op.dual x y).entry j) := by
  cases op with
  | add =>
    show ZeroIf (P ∧ Q ∧ True) ((x + y).entry j)
    rw [add_eq_combine, ← select_self x y True]
    refine h.combine hx hy k _ ?left ?right ?both
    case left =>
      intro z hz
      exact hz.and_true
    case right =>
      intro w hw
      exact hw.and_true
    case both =>
      intro z w hz hw
      exact (hz.add hw).and_true
  | sub =>
    show ZeroIf (P ∧ Q ∧ True) ((x - y).entry j)
    rw [sub_eq_combine, ← select_self x y True]
    refine h.combine hx hy k _ ?left ?right ?both
    case left =>
      intro z hz
      exact hz.and_true
    case right =>
      -- the entry of the second operand is multiplied with minus one
      intro w hw
      have hone : (-1.0 : Float).isFinite = true := by decide +kernel
      exact (hw.mul _).congr (and_congr_right' (iff_true_intro hone))
    case both =>
      intro z w hz hw
      exact (hz.sub hw).and_true
  | mul =>
    show ZeroIf _ ((x * y).entry j)
    rw [mul_eq_combine]
    refine h.combine hx hy k _ ?left ?right ?both
    case left =>
      intro z hz
      exact hz.mul _
    case right =>
      intro w hw
      exact hw.mul _
    case both =>
      intro z w hz hw
      exact ((hw.mul_left _).add (hz.mul_left _)).congr (by tauto)
  | div =>
    show ZeroIf _ ((x / y).entry j)
    rw [div_eq_combine]
    refine h.combine hx hy k _ ?left ?right ?both
    case left =>
      intro z hz
      exact hz.quotient _
    case right =>
      intro w hw
      exact ((hw.mul_left _).quotient _).congr and_assoc
    case both =>
      intro z w hz hw
      exact (((hz.mul _).sub (hw.mul_left _)).quotient _).congr (by tauto)
  | pow =>
    show ZeroIf _ ((x.pow y).entry j)
    rw [pow_eq_combine]
    refine h.combine hx hy k _ ?left ?right ?both
    case left =>
      intro z hz
      exact hz.mul _
    case right =>
      intro w hw
      exact hw.mul _
    case both =>
      intro z w hz hw
      have hsum := (hz.mul_left y.value).add (hw.mul_left (x.value * Float.log x.value))
      exact ((hsum.quotient _).mul_left _).congr (by tauto)

theorem extremum (hx : x.Fits n) (hy : y.Fits n) (h : ZeroIf P (x.entry j))
    (k : ZeroIf Q (y.entry j)) (e : Extremum) :
    ZeroIf (P ∧ Q ∧ e.Demands x y) ((e.dual x y).entry j) := by
  have blended (val : Float) : ZeroIf (P ∧ Q ∧ e.Demands x y)
      ((blend x y val (e.shares x y).first (e.shares x y).second).entry j) := by
    rw [blend_eq_combine]
    refine h.combine hx hy k _ ?left ?right ?both
    case left =>
      intro z hz
      exact hz.mul _
    case right =>
      intro w hw
      exact hw.mul _
    case both =>
      intro z w hz hw
      exact ((hz.mul_left _).add (hw.mul_left _)).congr (by tauto)
  cases e <;> exact blended _

/-- In a direction that an expression does not use, its entry is zero where it is tame. -/
theorem entry_dual (x : Vec Float n) {e : Expression n} (unused : .parameter j ∉ e.listing) :
    ZeroIf (e.Tame x) ((e.dual x).entry j) := by
  induction e with
  | literal _ => exact zero trivial
  | parameter index =>
    have hne : j ≠ index := fun h => unused (by simp [Expression.listing, h])
    rw [Expression.dual, entry_ofVariable, if_neg hne]
    exact zero trivial
  | elementary f e ih =>
    simp only [Expression.listing, List.mem_append, not_or] at unused
    exact (ih unused.1).elementary (e.fits_dual x) f
  | operator op left right ihl ihr =>
    simp only [Expression.listing, List.mem_append, not_or] at unused
    rw [Expression.dual_operator]
    exact operator (left.fits_dual x) (right.fits_dual x) (ihl unused.1.1) (ihr unused.1.2) op
  | extremum e left right ihl ihr =>
    simp only [Expression.listing, List.mem_append, not_or] at unused
    rw [Expression.dual_extremum]
    exact extremum (left.fits_dual x) (right.fits_dual x) (ihl unused.1.1) (ihr unused.1.2) e

end ZeroIf

/-! ## The entries of parameters that are not used -/

/-- The entry of a gradient row that belongs to a parameter no word stands for, such as the later
copy of a name that occurs twice, is zero if and only if all operations of the expression are tame
at the point; otherwise it is no number. -/
theorem unused_entry_eq_zero_iff {params : List String} {text : String} {t : Tape params}
    (h : compile params text = .ok t) (x : Vec Float params.length) {j : Fin params.length}
    (unused : ∀ word ∈ Text.words text, ¬ Reads params word (.parameter j)) :
    ∃ z, (t.gradientRow x).2[j.val]? = some z ∧ ((z == 0.0) = true ↔ t.tree.Tame x)
      ∧ ((z == 0.0) = true ∨ z.isNaN = true) := by
  have listed : .parameter j ∉ t.tree.listing := by
    intro hj
    obtain ⟨i, hi, hlexeme⟩ := List.mem_map.1 (t.listing_tree ▸ hj)
    obtain ⟨word, hword, htoken⟩ :=
      List.mem_map.1 (compile_eq_ok_iff.1 h ▸ List.mem_map_of_mem hi)
    exact unused word hword (Instruction.reads_iff.2 (by rw [htoken, Option.map_some, hlexeme]))
  have hz := ZeroIf.entry_dual x listed
  refine ⟨_, ?_, hz.beq_zero_iff, hz.beq_zero_or_isNaN⟩
  rw [Tape.gradientRow, t.dual_tree x, (t.tree.fits_dual x).gradientOr_eq]
  simp

/-- A root and a quotient of varying operands, over parameters of which the third has the name of
the first: nothing is infinite at this point, and the third entry is zero. -/
theorem unused_entry_of_duplicate :
    let params := ["x", "y", "x"]
    let text := "x 4 - sqrt y /"
    let x : Vec Float 3 := #v[13.0, 2.0, 7.0]
    ∃ t, compile params text = .ok t
      ∧ (∀ word ∈ Text.words text, ¬ Reads params word (.parameter 2))
      ∧ t.tree.Tame x
      ∧ ∃ z, (t.gradientRow x).2[2]? = some z ∧ (z == 0.0) = true := by
  intro params text x
  let t : Tape params := ⟨[.parameter "x" 0, .literal "4" ⟨false, 4, 0⟩, .operator .sub,
    .call (.elementary .sqrt), .parameter "y" 1, .operator .div], rfl⟩
  have h : compile params text = .ok t := by decide +kernel
  have unused : ∀ word ∈ Text.words text, ¬ Reads params word (.parameter 2) := by
    simp only [Instruction.reads_iff]
    decide +kernel
  obtain ⟨z, hz, htame, -⟩ := unused_entry_eq_zero_iff h x unused
  have hzero : (z == 0.0) = true := by
    have hrow : ((t.gradientRow x).2[2]?.map fun z => z == 0.0) = some true := by decide +kernel
    rw [show (t.gradientRow x).2[2]? = some z from hz] at hrow
    exact Option.some_inj.1 hrow
  exact ⟨t, h, unused, htame.1 hzero, z, hz, hzero⟩

/-- The second parameter is not used, all arguments are finite and so is the value, but the rule of
the square root divides the zero by zero. -/
theorem unused_entry_isNaN_at_root :
    let params := ["x", "y"]
    let text := "x sqrt"
    let x : Vec Float 2 := #v[0.0, 1.0]
    ∃ t, compile params text = .ok t
      ∧ (∀ word ∈ Text.words text, ¬ Reads params word (.parameter 1))
      ∧ x.toList.all Float.isFinite = true
      ∧ (t.dual x).value.isFinite = true
      ∧ ∃ z, (t.gradientRow x).2[1]? = some z ∧ z.isNaN = true ∧ (z == 0.0) = false := by
  intro params text x
  refine ⟨⟨[.parameter "x" 0, .call (.elementary .sqrt)], rfl⟩, by decide +kernel, ?_,
    by decide +kernel, by decide +kernel, 0.0 / 0.0, by decide +kernel, by decide +kernel,
    by decide +kernel⟩
  simp only [Instruction.reads_iff]
  decide +kernel

end LeastSquares
