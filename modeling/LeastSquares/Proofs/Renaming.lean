/-
LeastSquares.Proofs.Renaming — only the names that an expression uses matter.

A parameter list gives every name in an expression a place, and a place is all that is left of the
name in a tape. Two parameter lists that have the same names of an expression, in whatever order
and among whatever other names, therefore make tapes that differ in these places only. So their
values are the same, and the derivative in the direction of a name is the same wherever the name
stands.

For the derivatives this rests on the directions being independent: an operation on duals computes
each entry of the gradient from the values and from that same entry of its operands
(`Dual.Agree.lift`, `Dual.Agree.combine`).
-/
import LeastSquares.Proofs.Compilation
import LeastSquares.Proofs.Dual
import LeastSquares.Proofs.Parametricity

namespace LeastSquares

open Postfix

/-! ## Directions

The two gradients may have different lengths and another order, so they are not compared as lists.
`P` says which directions are those of the same name. It is left open here, and is only asked to
match the directions one to one where a parameter is read. -/

namespace Dual

variable {K : Type} {n m : Nat} {P : Fin n → Fin m → Prop}

/-- Two duals in `n` and in `m` directions have the same value, are both constant or both varying,
and have the same derivative in any two directions that `P` says to correspond. -/
inductive Agree (P : Fin n → Fin m → Prop) : Dual K → Dual K → Prop where
  | constant (val : K) : Agree P (.constant val) (.constant val)
  | varying (val : K) {g h : List K} (left : g.length = n) (right : h.length = m)
    (entries : ∀ i j, P i j → g[i.val]? = h[j.val]?) : Agree P (.varying val g) (.varying val h)

theorem Agree.value_eq {x x' : Dual K} (h : Agree P x x') : x.value = x'.value := by
  cases h <;> rfl

/-! Each entry is computed from the entries of the same direction, by the same formula in both
gradients. For an operation on duals it is left to see that the formula is the same, which it is
because the values are. -/

theorem Agree.lift {x x' : Dual K} (h : Agree P x x') (val : K) (slope : K → K) :
    Agree P (x.lift val slope) (x'.lift val slope) := by
  cases h with
  | constant _ => exact .constant val
  | varying _ left right entries =>
    refine .varying val (by simpa using left) (by simpa using right) fun i j hij => ?_
    rw [List.getElem?_map, List.getElem?_map, entries i j hij]

theorem Agree.combine {x x' y y' : Dual K} (hx : Agree P x x') (hy : Agree P y y') (val : K)
    (left right : K → K) (both : K → K → K) :
    Agree P (combine x y val left right both) (Dual.combine x' y' val left right both) := by
  cases hx with
  | constant a =>
    cases hy with
    | constant b => exact .constant val
    | varying v hl hr entries =>
      refine .varying val (by simpa using hl) (by simpa using hr) fun i j hij => ?_
      rw [List.getElem?_map, List.getElem?_map, entries i j hij]
  | varying u hl hr entries =>
    cases hy with
    | constant b =>
      refine .varying val (by simpa using hl) (by simpa using hr) fun i j hij => ?_
      rw [List.getElem?_map, List.getElem?_map, entries i j hij]
    | varying v hl' hr' entries' =>
      refine .varying val (by simp [hl, hl']) (by simp [hr, hr']) fun i j hij => ?_
      rw [List.getElem?_zipWith, List.getElem?_zipWith, entries i j hij, entries' i j hij]

variable [Scalar K]

/-- The variables of two corresponding directions agree if no other direction corresponds to either
of them. -/
theorem agree_ofVariable {i : Fin n} {j : Fin m} (h : ∀ k l, P k l → (k = i ↔ l = j)) (val : K) :
    Agree P (ofVariable val i) (ofVariable val j) := by
  refine .varying val (by simp) (by simp) fun k l hkl => ?_
  simp [h k l hkl]

theorem Agree.elementary {x x' : Dual K} (h : Agree P x x') (f : Elementary) :
    Agree P (f.dual x) (f.dual x') := by
  cases h with
  | constant val => cases f <;> exact .constant _
  | varying val left right entries =>
    cases f <;> exact (Agree.varying val left right entries).lift _ _

theorem Agree.operator {x x' y y' : Dual K} (hx : Agree P x x') (hy : Agree P y y')
    (op : Operator) : Agree P (op.dual x y) (op.dual x' y') := by
  cases op with
  | add =>
    show Agree P (x + y) (x' + y')
    rw [add_eq_combine, add_eq_combine, hx.value_eq, hy.value_eq]
    exact hx.combine hy ..
  | sub =>
    show Agree P (x - y) (x' - y')
    rw [sub_eq_combine, sub_eq_combine, hx.value_eq, hy.value_eq]
    exact hx.combine hy ..
  | mul =>
    -- the order of the factors depends on which of the two varies
    have hval : (x * y).value = (x' * y').value := by
      cases hx <;> cases hy <;> rfl
    show Agree P (x * y) (x' * y')
    rw [mul_eq_combine x y, mul_eq_combine x' y', hval, hx.value_eq, hy.value_eq]
    exact hx.combine hy ..
  | div =>
    show Agree P (x / y) (x' / y')
    rw [div_eq_combine, div_eq_combine, hx.value_eq, hy.value_eq]
    exact hx.combine hy ..
  | pow =>
    show Agree P (x.pow y) (x'.pow y')
    rw [pow_eq_combine, pow_eq_combine, hx.value_eq, hy.value_eq]
    exact hx.combine hy ..

theorem Agree.blend {x x' y y' : Dual K} (hx : Agree P x x') (hy : Agree P y y')
    (val wx wy : K) : Agree P (blend x y val wx wy) (Dual.blend x' y' val wx wy) := by
  rw [blend_eq_combine, blend_eq_combine]
  exact hx.combine hy ..

theorem Agree.extremum {x x' y y' : Dual K} (hx : Agree P x x') (hy : Agree P y y')
    (e : Extremum) : Agree P (e.dual x y) (e.dual x' y') := by
  cases e with
  | max =>
    show Agree P (smoothMax temperature x y) (smoothMax temperature x' y')
    rw [smoothMax, smoothMax, hx.value_eq, hy.value_eq]
    exact hx.blend hy ..
  | min =>
    show Agree P (smoothMin temperature x y) (smoothMin temperature x' y')
    rw [smoothMin, smoothMin, hx.value_eq, hy.value_eq]
    exact hx.blend hy ..

theorem related_dualReading (P : Fin n → Fin m → Prop) :
    Reading.Related (Agree P) (dualReading (K := K)) dualReading where
  literal number := .constant number.toScalar
  operator op hx hy := hx.operator hy op
  elementary f hx := hx.elementary f
  extremum e hx hy := hx.extremum hy e

end Dual

namespace Postfix

theorem related_valueReading {K : Type} [Scalar K] :
    Reading.Related Eq (valueReading (K := K)) valueReading where
  literal _ := rfl
  operator _ hx hy := by rw [hx, hy]
  elementary _ hx := by rw [hx]
  extremum _ hx hy := by rw [hx, hy]

/-! ## Names

A name may stand in a parameter list several times, and the first place is the one that is read. So
it is the first places in the two lists that correspond to each other. A name may also look like a
number: then the expression has a number there, and no parameter is read at all. -/

variable {params params' : List String}

/-- The places of a name in two parameter lists; of several places in one list, the first. -/
def Places (params params' : List String) (name : String) (i : Fin params.length)
    (j : Fin params'.length) : Prop :=
  params.finIdxOf? name = some i ∧ params'.finIdxOf? name = some j

/-- A place belongs to one name only, in either list. -/
theorem Places.eq_iff {name other : String} {i k : Fin params.length} {j l : Fin params'.length}
    (h : Places params params' name i j) (h' : Places params params' other k l) :
    k = i ↔ l = j := by
  have hname : params.get i = name := (List.finIdxOf?_eq_some_iff.1 h.1).1
  have hname' : params'.get j = name := (List.finIdxOf?_eq_some_iff.1 h.2).1
  have hother : params.get k = other := (List.finIdxOf?_eq_some_iff.1 h'.1).1
  have hother' : params'.get l = other := (List.finIdxOf?_eq_some_iff.1 h'.2).1
  constructor
  · rintro rfl
    obtain rfl : name = other := hname.symm.trans hother
    exact Option.some_inj.1 (h'.2.symm.trans h.2)
  · rintro rfl
    obtain rfl : name = other := hname'.symm.trans hother'
    exact Option.some_inj.1 (h'.1.symm.trans h.1)

/-- The places from which a list of tokens reads parameters. A token that is a literal reads none,
whatever the parameters are called. -/
def ReadsAt (params params' tokens : List String) (i : Fin params.length)
    (j : Fin params'.length) : Prop :=
  ∃ token ∈ tokens, Decimal.ofString? token = none ∧ Places params params' token i j

/-- A token that is a name in both lists or in none is read as the same instruction. -/
theorem Instruction.ofToken?_corresponds {token : String}
    (same : token ∈ params ↔ token ∈ params') :
    Option.Rel (Corresponds (ReadsAt params params' [token])) (ofToken? params token)
      (ofToken? params' token) := by
  unfold ofToken?
  rw [Decimal.literal?_eq_ofString?]
  cases hnum : Decimal.ofString? token with
  | some number => exact .some (.literal token number)
  | none =>
    cases hi : params.finIdxOf? token with
    | some i =>
      cases hj : params'.finIdxOf? token with
      | some j => exact .some (.parameter token ⟨token, by simp, hnum, hi, hj⟩)
      | none =>
        obtain ⟨here, -⟩ := List.finIdxOf?_eq_some_iff.1 hi
        exact absurd (same.1 (here ▸ List.get_mem params i)) (List.finIdxOf?_eq_none_iff.1 hj)
    | none =>
      cases hj : params'.finIdxOf? token with
      | some j =>
        obtain ⟨here, -⟩ := List.finIdxOf?_eq_some_iff.1 hj
        exact absurd (same.2 (here ▸ List.get_mem params' j)) (List.finIdxOf?_eq_none_iff.1 hi)
      | none =>
        cases Operator.ofSymbol? token with
        | some op => exact .some (.operator op)
        | none =>
          cases Builtin.ofName? token with
          | some f => exact .some (.call f)
          | none => exact .none

/-- Tokens with the same names in both lists make corresponding fragments, or the same error. -/
theorem Fragment.ofTokens_corresponds {tokens : List String}
    (same : ∀ token ∈ tokens, token ∈ params ↔ token ∈ params') (position : Nat)
    {height height' : Nat} (hheight : height = height') :
    (∃ e, ofTokens params tokens position height = .error e
      ∧ ofTokens params' tokens position height' = .error e)
    ∨ ∃ f g, ofTokens params tokens position height = .ok f
      ∧ ofTokens params' tokens position height' = .ok g ∧ f.height = g.height
      ∧ List.Forall₂ (Instruction.Corresponds (ReadsAt params params' tokens)) f.code g.code := by
  induction tokens generalizing position height height' with
  | nil => exact .inr ⟨_, _, rfl, rfl, hheight, .nil⟩
  | cons token tokens ih =>
    obtain ⟨sameToken, sameTokens⟩ := List.forall_mem_cons.1 same
    have hread := Instruction.ofToken?_corresponds sameToken
    rw [ofTokens, ofTokens]
    generalize Instruction.ofToken? params token = i? at hread ⊢
    generalize Instruction.ofToken? params' token = j? at hread ⊢
    cases hread with
    | none => exact .inl ⟨_, rfl, rfl⟩
    | @some i j hij =>
      have hoperands := hij.operands_eq
      dsimp only
      -- the operands suffice in both or in none, as the heights are the same
      split_ifs with enough enough' enough'
      · have hnext : height - i.operands + 1 = height' - j.operands + 1 := by
          rw [hheight, hoperands]
        rcases ih sameTokens (position + 1) hnext
          with ⟨e, he, he'⟩ | ⟨f, g, hf, hg, hfg, hcode⟩
        · exact .inl ⟨e, by rw [he]; rfl, by rw [he']; rfl⟩
        · refine .inr ⟨.cons i enough f, .cons j enough' g, by rw [hf]; rfl, by rw [hg]; rfl,
            hfg, .cons (hij.mono ?_) (hcode.imp fun _ _ => .mono ?_)⟩
          · rintro k l ⟨word, hword, hplaces⟩
            obtain rfl := List.mem_singleton.1 hword
            exact ⟨word, by simp, hplaces⟩
          · rintro k l ⟨word, hword, hplaces⟩
            exact ⟨word, by simp [hword], hplaces⟩
      · exact absurd (hheight ▸ hoperands ▸ enough) enough'
      · exact absurd (hheight ▸ hoperands ▸ enough') enough
      · exact .inl ⟨_, rfl, rfl⟩

/-- Two parameter lists with the same names of an expression make the same error, or tapes that
differ only in the places of the parameters. -/
theorem compile_corresponds {text : String}
    (same : ∀ word ∈ Text.words text, word ∈ params ↔ word ∈ params') :
    (∃ e, compile params text = .error e ∧ compile params' text = .error e)
    ∨ ∃ t t', compile params text = .ok t ∧ compile params' text = .ok t'
      ∧ List.Forall₂ (Instruction.Corresponds (ReadsAt params params' (Text.words text)))
        t.code t'.code := by
  rw [compile, compile, Tape.ofTokens, Tape.ofTokens]
  rcases Fragment.ofTokens_corresponds same 0 (rfl : 0 = 0)
    with ⟨e, he, he'⟩ | ⟨f, g, hf, hg, hheight, hcode⟩
  · rw [he, he']
    exact .inl ⟨e, rfl, rfl⟩
  · rw [hf, hg]
    dsimp only
    split_ifs with one one' one'
    · exact .inr ⟨_, _, rfl, rfl, hcode⟩
    · exact absurd (hheight ▸ one) one'
    · exact absurd (hheight ▸ one') one
    · exact .inl ⟨_, rfl, by rw [hheight]⟩

/-- Parameter lists that have the same names of an expression give it the same meaning: compilation
fails with the same error, or both tapes have the same value wherever the names that are read have
the same values, and the same derivative in the direction of each name of the expression. -/
theorem meaning_of_same_names (params params' : List String) (text : String)
    (same : ∀ word ∈ Text.words text, word ∈ params ↔ word ∈ params') :
    (∃ e, compile params text = .error e ∧ compile params' text = .error e)
    ∨ ∃ t t', compile params text = .ok t ∧ compile params' text = .ok t'
      ∧ ∀ (K : Type) [Scalar K] (x : Vec K params.length) (x' : Vec K params'.length),
        (∀ i j, ReadsAt params params' (Text.words text) i j → x.get i = x'.get j) →
          t.value x = t'.value x'
          ∧ Dual.Agree (fun i j => ∃ word ∈ Text.words text, Places params params' word i j)
            (t.dual x) (t'.dual x') := by
  rcases compile_corresponds same with herror | ⟨t, t', ht, ht', hcode⟩
  · exact .inl herror
  · refine .inr ⟨t, t', ht, ht', fun K _ x x' hx => ⟨?_, ?_⟩⟩
    · exact Tape.eval_related related_valueReading hx hcode
    · -- a parameter is read only from the places of its name, and they belong to no other name
      refine Tape.eval_related (Dual.related_dualReading _) (fun i j hij => ?_) hcode
      rw [hx i j hij]
      obtain ⟨_, -, -, hplaces⟩ := hij
      exact Dual.agree_ofVariable (fun k l ⟨_, _, hother⟩ => hplaces.eq_iff hother) _

/-- All names change their places, `y` stands a second time behind its first place, and `1` has
another value in each list, because the expression has it as a literal. -/
theorem meaning_of_same_names_moved :
    let params := ["x", "y", "1"]
    let params' := ["1", "z", "y", "x", "y"]
    let text := "x y * y 1 ^ -"
    let x : Vec Float 3 := #v[3.0, -2.0, 9.0]
    let x' : Vec Float 5 := #v[7.0, 8.0, -2.0, 3.0, 5.0]
    (∀ word ∈ Text.words text, word ∈ params ↔ word ∈ params')
      ∧ ∃ t t', compile params text = .ok t ∧ compile params' text = .ok t'
        ∧ (∀ i j, ReadsAt params params' (Text.words text) i j → x.get i = x'.get j)
        ∧ t.value x = t'.value x'
        ∧ Dual.Agree (fun i j => ∃ word ∈ Text.words text, Places params params' word i j)
          (t.dual x) (t'.dual x') := by
  intro params params' text x x'
  have same : ∀ word ∈ Text.words text, word ∈ params ↔ word ∈ params' := by decide +kernel
  have hx : ∀ i j, ReadsAt params params' (Text.words text) i j → x.get i = x'.get j := by
    have places : ∀ i j, Decimal.ofString? (params.get i) = none →
        params'.finIdxOf? (params.get i) = some j → x.get i = x'.get j := by decide +kernel
    rintro i j ⟨word, -, noLiteral, hi, hj⟩
    obtain ⟨here, -⟩ := List.finIdxOf?_eq_some_iff.1 hi
    rw [← here] at noLiteral hj
    exact places i j noLiteral hj
  refine ⟨same, ?_⟩
  rcases meaning_of_same_names params params' text same with ⟨e, he, -⟩ | ⟨t, t', ht, ht', h⟩
  · have hok : (compile params text).isOk = true := by decide +kernel
    rw [he] at hok
    contradiction
  · exact ⟨t, t', ht, ht', hx, h Float x x' hx⟩

end Postfix

end LeastSquares
