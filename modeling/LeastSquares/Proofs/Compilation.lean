/-
LeastSquares.Proofs.Compilation — compilation is parsing in postorder.

The compiler counts heights and never builds a tree. `Spells` says without it what a text means:
its words, each read for itself, are the postorder listing of a tree. `compile_correct` joins the
two, and with them the two evaluations of the tape.

The work is in two equations. `Instruction.reads_iff` says which lexeme a word is read as, and
`compile_eq_ok_iff` that a compilation succeeds with the tape whose code is the words read one by
one, if there is such a tape. That a tape exists for every listing of a tree is
`height?_of_listing`.
-/
import Mathlib.Data.List.Forall2
import LeastSquares.Postfix.Compile
import LeastSquares.Proofs.Expression

namespace LeastSquares.Postfix

/-! ## Literals

A token is tested for the form of a literal before it is read. The test refuses exactly what the
reader refuses, so a literal is what can be read. -/

namespace Decimal

variable {cs : List Char} {digit : Bool}

/-- Digits that go by change nothing but the first flag. -/
theorem scan_eq_scan_dropWhile (digit point : Bool) (cs : List Char) :
    scan digit point cs
      = scan (digit || !(cs.takeWhile isDigit).isEmpty) point (cs.dropWhile isDigit) := by
  induction cs generalizing digit with
  | nil => simp
  | cons c cs ih =>
    by_cases hc : isDigit c = true
    · simp [scan, hc, ih true]
    · simp [hc]

/-- Behind the point there are only digits. -/
theorem scan_point : scan digit true cs = true
    ↔ (∀ c ∈ cs, isDigit c = true) ∧ (digit = true ∨ cs ≠ []) := by
  induction cs generalizing digit with
  | nil => simp [scan]
  | cons c cs ih => by_cases hc : isDigit c = true <;> simp [scan, hc, ih]

theorem scan_cons_point (digit : Bool) (cs : List Char) :
    scan digit false ('.' :: cs) = scan digit true cs :=
  rfl

theorem isSome_ofUnsigned? (negative : Bool) (cs : List Char) :
    (ofUnsigned? negative cs).isSome = scan false false cs := by
  have hhead := List.head?_dropWhile_not isDigit cs
  rw [scan_eq_scan_dropWhile, Bool.false_or]
  unfold ofUnsigned?
  dsimp only
  generalize cs.takeWhile isDigit = whole
  cases hrest : cs.dropWhile isDigit with
  | nil => cases whole <;> simp [scan]
  | cons c fraction =>
    -- what ends the row of digits is the point, or neither the scan nor the reader goes on
    rw [hrest] at hhead
    have hc : isDigit c = false := hhead
    by_cases hpoint : c = '.'
    · subst hpoint
      rw [scan_cons_point, Bool.eq_iff_iff, scan_point]
      cases whole <;> simp [Option.isSome_ite]
    · simp [scan, hc, hpoint]

theorem isSome_ofChars? (cs : List Char) :
    (ofChars? cs).isSome = scan false false (unsigned cs) := by
  unfold unsigned
  split
  · exact isSome_ofUnsigned? false _
  · exact isSome_ofUnsigned? true _
  · rename_i plus minus
    rw [ofChars?.eq_3 cs minus plus]
    exact isSome_ofUnsigned? false cs

/-- The test finds out what can be read. -/
theorem isSome_ofString? (token : String) : (ofString? token).isSome = isLiteral token :=
  isSome_ofChars? token.toList

theorem literal?_eq_ofString? (token : String) : literal? token = ofString? token := by
  rw [literal?, ← isSome_ofString?]
  cases ofString? token <;> rfl

end Decimal

/-! ## Words

The compiler tries one table after another, and takes the first in which it finds the word. `Reads`
has a case for each table, which says that the word is in it, and in none of those before. -/

theorem Operator.ofSymbol?_eq_some_iff {s : String} {op : Operator} :
    ofSymbol? s = some op ↔ op.symbol = s := by
  constructor
  · unfold ofSymbol?
    split <;> rintro ⟨⟩ <;> rfl
  · rintro rfl
    exact ofSymbol?_symbol op

theorem Builtin.ofName?_eq_some_iff {s : String} {f : Builtin} :
    ofName? s = some f ↔ f.name = s := by
  constructor
  · unfold ofName?
    split <;> rintro ⟨⟩ <;> rfl
  · rintro rfl
    exact ofName?_name f

/-- What a word is read as: a literal comes before a parameter, the first parameter of a name
before the others, a parameter before an operator, and an operator before a named function. -/
inductive Reads (params : List String) (word : String) : Lexeme params.length → Prop where
  | literal {number : Decimal} (h : Decimal.ofString? word = some number) :
    Reads params word (.literal number)
  | parameter {index : Fin params.length} (noLiteral : Decimal.ofString? word = none)
    (here : params.get index = word) (first : ∀ j < index, params.get j ≠ word) :
    Reads params word (.parameter index)
  | operator {op : Operator} (noLiteral : Decimal.ofString? word = none) (noName : word ∉ params)
    (h : op.symbol = word) : Reads params word (.operator op)
  | call {f : Builtin} (noLiteral : Decimal.ofString? word = none) (noName : word ∉ params)
    (noOperator : ∀ op : Operator, op.symbol ≠ word) (h : f.name = word) :
    Reads params word (.call f)

theorem Instruction.reads_iff {params : List String} {word : String}
    {l : Lexeme params.length} :
    Reads params word l ↔ (ofToken? params word).map lexeme = some l := by
  unfold ofToken?
  rw [Decimal.literal?_eq_ofString?]
  cases hnum : Decimal.ofString? word with
  | some number =>
    simp only [Option.map_some, lexeme, Option.some_inj]
    constructor
    · rintro (h | h | h | h) <;> simp_all
    · rintro rfl
      exact .literal hnum
  | none =>
    cases hpar : params.finIdxOf? word with
    | some index =>
      obtain ⟨here, first⟩ := List.finIdxOf?_eq_some_iff.1 hpar
      have mem : word ∈ params := here ▸ List.get_mem params index
      simp only [Option.map_some, lexeme, Option.some_inj]
      constructor
      · rintro (h | ⟨-, here', first'⟩ | h | h)
        · simp_all
        · -- both are the first index of the name
          have le : index ≤ _ := Fin.not_lt.1 fun hlt => first _ hlt here'
          have ge : _ ≤ index := Fin.not_lt.1 fun hlt => first' _ hlt here
          exact congrArg _ (Fin.le_antisymm le ge)
        · contradiction
        · contradiction
      · rintro rfl
        exact .parameter hnum here first
    | none =>
      have noName : word ∉ params := List.finIdxOf?_eq_none_iff.1 hpar
      cases hop : Operator.ofSymbol? word with
      | some op =>
        simp only [Option.map_some, lexeme, Option.some_inj]
        constructor
        · rintro (h | ⟨-, here, -⟩ | ⟨-, -, h⟩ | ⟨-, -, noOperator, -⟩)
          · simp_all
          · exact absurd (here ▸ List.get_mem params _) noName
          · rw [← Operator.ofSymbol?_eq_some_iff, hop] at h
            simpa using h
          · exact absurd (Operator.ofSymbol?_eq_some_iff.1 hop) (noOperator op)
        · rintro rfl
          exact .operator hnum noName (Operator.ofSymbol?_eq_some_iff.1 hop)
      | none =>
        have noOperator (op : Operator) : op.symbol ≠ word := by
          rw [ne_eq, ← Operator.ofSymbol?_eq_some_iff, hop]
          simp
        simp only [Option.map_map, Option.map_eq_some_iff, Function.comp_apply, lexeme]
        constructor
        · rintro (h | ⟨-, here, -⟩ | ⟨-, -, h⟩ | ⟨-, -, -, h⟩)
          · simp_all
          · exact absurd (here ▸ List.get_mem params _) noName
          · exact absurd h (noOperator _)
          · exact ⟨_, Builtin.ofName?_eq_some_iff.2 h, rfl⟩
        · rintro ⟨f, hf, rfl⟩
          exact .call hnum noName noOperator (Builtin.ofName?_eq_some_iff.1 hf)

/-! ## Code

A fragment carries the proof that its code keeps the height which it says. So whether there is a
fragment with a given code is a question about the code alone, and there is one at most. -/

/-- The height that a fragment reaches is fixed by its code. -/
theorem Fragment.ext_code {n start : Nat} {f g : Fragment n start} (h : f.code = g.code) :
    f = g := by
  obtain ⟨code, height, reaches⟩ := f
  obtain ⟨_, height', reaches'⟩ := g
  obtain rfl : code = _ := h
  obtain rfl : height = height' := Option.some_inj.1 (reaches.symm.trans reaches')
  rfl

/-- A fragment with code is its first instruction, put in front of a fragment. -/
theorem Fragment.eq_cons {n start : Nat} {f : Fragment n start} {i : Instruction n}
    {code : List (Instruction n)} (h : f.code = i :: code) :
    ∃ (enough : i.operands ≤ start) (g : Fragment n (start - i.operands + 1)),
      g.code = code ∧ f = .cons i enough g := by
  have reaches := f.reaches
  rw [h, height?, Instruction.height?] at reaches
  by_cases enough : i.operands ≤ start
  · rw [if_pos enough] at reaches
    exact ⟨enough, ⟨code, f.height, reaches⟩, rfl, ext_code (by rw [h, cons])⟩
  · simp [enough] at reaches

/-- Compilation succeeds with the fragment whose code is the tokens read one by one. -/
theorem Fragment.ofTokens_eq_ok_iff {params : List String} {tokens : List String}
    {position height : Nat} {f : Fragment params.length height} :
    ofTokens params tokens position height = .ok f
      ↔ tokens.map (Instruction.ofToken? params) = f.code.map some := by
  induction tokens generalizing position height with
  | nil =>
    simp only [ofTokens, Except.ok.injEq, List.map_nil]
    constructor
    · rintro rfl
      rfl
    · intro h
      exact ext_code (List.map_eq_nil_iff.1 h.symm).symm
  | cons token tokens ih =>
    cases hi : Instruction.ofToken? params token with
    | none =>
      simp only [ofTokens, hi, List.map_cons, reduceCtorEq, false_iff]
      intro h
      obtain ⟨_, _, _, h, -⟩ := List.map_eq_cons_iff.1 h.symm
      simp at h
    | some i =>
      simp only [ofTokens, hi, List.map_cons]
      constructor
      · intro h
        split at h
        · rename_i enough
          cases hg : ofTokens params tokens (position + 1) (height - i.operands + 1) with
          | error _ => simp [hg, Except.map] at h
          | ok g =>
            obtain rfl : cons i enough g = f := by simpa [hg, Except.map] using h
            rw [ih.1 hg, cons, List.map_cons]
        · simp at h
      · intro h
        obtain ⟨i', code, hcode, hi', htokens⟩ := List.map_eq_cons_iff.1 h.symm
        obtain rfl : i' = i := Option.some_inj.1 hi'
        obtain ⟨enough, g, rfl, rfl⟩ := eq_cons hcode
        rw [dif_pos enough, ih.2 htokens.symm]
        rfl

/-- A text compiles to the tape whose code is its words read one by one. -/
theorem compile_eq_ok_iff {params : List String} {text : String} {t : Tape params} :
    compile params text = .ok t
      ↔ (Text.words text).map (Instruction.ofToken? params) = t.code.map some := by
  rw [compile, Tape.ofTokens]
  constructor
  · intro h
    cases hf : Fragment.ofTokens params (Text.words text) 0 0 with
    | error _ => simp [hf] at h
    | ok f =>
      by_cases one : f.height = 1
      · obtain rfl : _ = t := by simpa [hf, one] using h
        exact Fragment.ofTokens_eq_ok_iff.1 hf
      · simp [hf, one] at h
  · intro h
    have hf : Fragment.ofTokens params (Text.words text) 0 0 = .ok ⟨t.code, 1, t.balanced⟩ :=
      Fragment.ofTokens_eq_ok_iff.2 h
    simp [hf]

/-- Each word of a text that compiles stands for the instruction in its place. -/
theorem forall₂_of_compile {params : List String} {text : String} {t : Tape params}
    (h : compile params text = .ok t) :
    List.Forall₂ (fun word i => Instruction.ofToken? params word = some i) (Text.words text)
      t.code := by
  have hread := compile_eq_ok_iff.1 h
  rwa [← List.forall₂_eq_eq_eq, List.forall₂_map_left_iff, List.forall₂_map_right_iff] at hread

/-! ## Trees

A listing can be turned into its tree in one way only, and code with this listing into the same tree
(`Tape.tree`). So spelling is a matter of listings, which are compared word by word. -/

/-- The words of the text, each read for itself, are the postorder listing of the expression. -/
def Spells (params : List String) (text : String) (e : Expression params.length) : Prop :=
  List.Forall₂ (Reads params) (Text.words text) e.listing

theorem spells_iff {params : List String} {text : String} {e : Expression params.length} :
    Spells params text e ↔ (Text.words text).map
      (fun word => (Instruction.ofToken? params word).map Instruction.lexeme)
        = e.listing.map some := by
  rw [Spells, ← List.forall₂_eq_eq_eq, List.forall₂_map_left_iff, List.forall₂_map_right_iff]
  exact ⟨List.Forall₂.imp fun _ _ => Instruction.reads_iff.1,
    List.Forall₂.imp fun _ _ => Instruction.reads_iff.2⟩

/-- What a compiled text spells is the tree of its tape, and nothing else. -/
theorem spells_iff_of_compile {params : List String} {text : String} {t : Tape params}
    (h : compile params text = .ok t) {e : Expression params.length} :
    Spells params text e ↔ t.tree = e := by
  have hcode : (Text.words text).map
      (fun word => (Instruction.ofToken? params word).map Instruction.lexeme)
        = (t.code.map Instruction.lexeme).map some := by
    simpa [Function.comp_def]
      using congrArg (List.map (Option.map Instruction.lexeme)) (compile_eq_ok_iff.1 h)
  rw [spells_iff, hcode, List.map_inj_right fun _ _ => Option.some_inj.1]
  exact ⟨t.tree_eq, fun h => h ▸ t.listing_tree.symm⟩

/-- The nodes of the tree are what the words of the text are read as. -/
theorem mem_listing_iff {params : List String} {text : String} {t : Tape params}
    (h : compile params text = .ok t) {l : Lexeme params.length} :
    l ∈ t.tree.listing ↔ ∃ word ∈ Text.words text, Reads params word l := by
  have hspells := spells_iff.1 ((spells_iff_of_compile h).2 rfl)
  have hsome : l ∈ t.tree.listing ↔ some l ∈ t.tree.listing.map some := by simp
  rw [hsome, ← hspells, List.mem_map]
  simp only [Instruction.reads_iff]

/-- Code can be read off words that are all read as some lexeme. -/
theorem exists_code {params words : List String} {ls : List (Lexeme params.length)}
    (h : words.map (fun word => (Instruction.ofToken? params word).map Instruction.lexeme)
      = ls.map some) :
    ∃ code : List (Instruction params.length),
      words.map (Instruction.ofToken? params) = code.map some
        ∧ code.map Instruction.lexeme = ls := by
  induction words generalizing ls with
  | nil => exact ⟨[], rfl, by simpa using h⟩
  | cons word words ih =>
    obtain ⟨l, ls, rfl, hl, hls⟩ := List.map_eq_cons_iff.1 h.symm
    obtain ⟨i, hi, rfl⟩ := Option.map_eq_some_iff.1 hl.symm
    obtain ⟨code, hcode, rfl⟩ := ih hls.symm
    exact ⟨i :: code, by simp [hi, hcode], rfl⟩

/-- A text that spells an expression compiles. -/
theorem Spells.compiles {params : List String} {text : String} {e : Expression params.length}
    (h : Spells params text e) : ∃ t, compile params text = .ok t := by
  obtain ⟨code, hwords, hcode⟩ := exists_code (spells_iff.1 h)
  exact ⟨⟨code, height?_of_listing hcode 0⟩, compile_eq_ok_iff.2 hwords⟩

theorem ofList?_toList {α : Type} {n : Nat} (x : Vec α n) : Vec.ofList? n x.toList = .ok x := by
  rw [Vec.ofList?, dif_pos x.length_toList]
  exact congrArg _ (Vector.toArray_inj.1 (Array.toArray_toList))

/-- A text compiles exactly if it spells an expression, and that expression is unique. At every
point with as many coordinates as there are parameters, the two evaluations of the tape return
the two values of the expression. -/
theorem compile_correct (params : List String) (text : String) :
    ((∃ t, compile params text = .ok t) ↔ ∃ e, Spells params text e)
    ∧ (∀ e e', Spells params text e → Spells params text e' → e = e')
    ∧ ∀ t e, compile params text = .ok t → Spells params text e →
      ∀ (K : Type) [Scalar K] (x : Vec K params.length),
        t.dualAt x.toList = .ok (e.dual x) ∧ t.valueAt x.toList = .ok (e.value x) := by
  refine ⟨⟨?_, ?_⟩, ?_, ?_⟩
  · rintro ⟨t, h⟩
    exact ⟨t.tree, (spells_iff_of_compile h).2 rfl⟩
  · rintro ⟨e, he⟩
    exact he.compiles
  · intro e e' he he'
    obtain ⟨t, h⟩ := he.compiles
    rw [← (spells_iff_of_compile h).1 he, ← (spells_iff_of_compile h).1 he']
  · intro t e h he K _ x
    obtain rfl := (spells_iff_of_compile h).1 he
    rw [Tape.dualAt, Tape.valueAt, ofList?_toList]
    exact ⟨congrArg _ (t.dual_tree x), congrArg _ (t.value_tree x)⟩

end LeastSquares.Postfix
