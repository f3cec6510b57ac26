/-
LeastSquares.Proofs.RoundTrip — a tape can be written down and compiled again.

An instruction keeps the token it was read from, either as it stood (literals and parameters) or by
a name that only one token has (operators and functions). So the text of a tape consists of the
words it was compiled from. What is lost is only the white space between them, and the single
spaces that take its place cut the text into the same words again (`Text.words_intercalate`).

Nothing is assumed about the names of the parameters. A parameter that is named like a literal is
never read, one that is named like an operator hides the operator, and both texts are read over the
same names.
-/
import Mathlib.Logic.Function.Iterate
import LeastSquares.Proofs.Compilation

namespace LeastSquares

/-! ## Words -/

namespace Text

/-- A text that cutting at white space leaves in one piece. -/
def IsWord (s : String) : Prop :=
  s ≠ "" ∧ ∀ c ∈ s.toList, isBlank c = false

/-- The pieces between the separators have no separator in them. -/
theorem forall_of_mem_splitOnP {α : Type} {p : α → Bool} {xs piece : List α}
    (h : piece ∈ xs.splitOnP p) : ∀ x ∈ piece, p x = false := by
  induction xs generalizing piece with
  | nil =>
    obtain rfl : piece = [] := by simpa using h
    simp
  | cons x xs ih =>
    rw [List.splitOnP_cons_eq_if_modifyHead] at h
    obtain ⟨first, others, hsplit⟩ := List.exists_cons_of_ne_nil (List.splitOnP_ne_nil p xs)
    split_ifs at h with hx
    · rcases List.mem_cons.1 h with rfl | h
      · simp
      · exact ih h
    · rw [hsplit, List.modifyHead_cons] at h
      rcases List.mem_cons.1 h with rfl | h
      · exact List.forall_mem_cons.2 ⟨Bool.not_eq_true _ ▸ hx, ih (by simp [hsplit])⟩
      · exact ih (by simp [hsplit, h])

theorem isWord_of_mem_words {s word : String} (h : word ∈ words s) : IsWord word := by
  obtain ⟨run, hrun, rfl⟩ := List.mem_map.1 h
  obtain ⟨hsplit, hne⟩ := List.mem_filter.1 hrun
  refine ⟨fun hempty => ?_, ?_⟩
  · obtain rfl : run = [] := by simpa using congrArg String.toList hempty
    contradiction
  · rw [String.toList_ofList]
    exact forall_of_mem_splitOnP hsplit

theorem IsWord.toList_ne_nil {word : String} (h : IsWord word) : word.toList ≠ [] :=
  fun hnil => h.1 (String.toList_inj.1 hnil)

/-- Words joined by single spaces are cut into the same words. -/
theorem words_intercalate {ws : List String} (h : ∀ word ∈ ws, IsWord word) :
    words (" ".intercalate ws) = ws := by
  induction ws with
  | nil => rfl
  | cons word ws ih =>
    obtain ⟨hword, hws⟩ := List.forall_mem_cons.1 h
    cases ws with
    | nil =>
      rw [String.intercalate_singleton, words, runs_of_forall hword.2 hword.toList_ne_nil]
      simp
    | cons next ws =>
      have hcut : runs (" ".intercalate (word :: next :: ws)).toList
          = word.toList :: runs (" ".intercalate (next :: ws)).toList := by
        rw [String.intercalate_cons_cons, String.append_assoc, String.toList_append,
          String.toList_append]
        exact runs_append_cons hword.2 hword.toList_ne_nil rfl _
      have hrest : (runs (" ".intercalate (next :: ws)).toList).map String.ofList = next :: ws :=
        ih hws
      rw [words, hcut, List.map_cons, String.ofList_toList, hrest]

end Text

/-! ## Tapes -/

namespace Postfix

/-- An instruction is written as the token that it was read from. -/
theorem Instruction.text_of_ofToken? {params : List String} {token : String}
    {i : Instruction params.length} (h : ofToken? params token = some i) : i.text = token := by
  unfold ofToken? at h
  split at h
  · obtain rfl := Option.some_inj.1 h
    rfl
  · split at h
    · obtain rfl := Option.some_inj.1 h
      rfl
    · split at h
      next op hop =>
        obtain rfl := Option.some_inj.1 h
        exact Operator.ofSymbol?_eq_some_iff.1 hop
      next =>
        obtain ⟨f, hf, rfl⟩ := Option.map_eq_some_iff.1 h
        exact Builtin.ofName?_eq_some_iff.1 hf

/-- The tokens of a tape are the words that it was compiled from. -/
theorem map_text_of_compile {params : List String} {text : String} {t : Tape params}
    (h : compile params text = .ok t) : t.code.map Instruction.text = Text.words text := by
  have htext : List.Forall₂ (fun word i => word = Instruction.text i) (Text.words text) t.code :=
    (forall₂_of_compile h).imp fun _ _ hi => (Instruction.text_of_ofToken? hi).symm
  rw [← List.forall₂_map_right_iff, List.forall₂_eq_eq_eq] at htext
  exact htext.symm

/-- The text of the tape that a text is compiled to. -/
def reprint (params : List String) (text : String) : Except CompileError String :=
  (compile params text).map Tape.text

/-- The text of a tape consists of the words that it was compiled from, separated by single spaces.
Over the same parameters it compiles to the same tape, so it stays the same however often it is
compiled and written down again. -/
theorem compile_reprinted {params : List String} {text : String} {t : Tape params}
    (h : compile params text = .ok t) :
    t.text = " ".intercalate (Text.words text) ∧ compile params t.text = .ok t
      ∧ ∀ k, (fun r => Except.bind r (reprint params))^[k] (.ok t.text) = .ok t.text := by
  have htext : t.text = " ".intercalate (Text.words text) := by
    rw [Tape.text, map_text_of_compile h]
  have hwords : Text.words t.text = Text.words text := by
    rw [htext, Text.words_intercalate fun _ => Text.isWord_of_mem_words]
  have hcompile : compile params t.text = .ok t := by
    rw [compile_eq_ok_iff, hwords]
    exact compile_eq_ok_iff.1 h
  refine ⟨htext, hcompile, fun k => Function.iterate_fixed ?_ k⟩
  show reprint params t.text = .ok t.text
  rw [reprint, hcompile]
  rfl

/-- Parameters named like a literal, an operator and a function, one of them twice, and one with
white space in its name. -/
theorem compile_reprinted_hidden_names :
    let params := ["1", "+", "sin", "x", "x", "x 1"]
    let text := " x\t1 - + *\n  sin -"
    ∃ t, compile params text = .ok t ∧ t.text = "x 1 - + * sin -"
      ∧ compile params t.text = .ok t := by
  intro params text
  have h : compile params text = .ok ⟨[.parameter "x" 3, .literal "1" ⟨false, 1, 0⟩,
    .operator .sub, .parameter "+" 1, .operator .mul, .parameter "sin" 2, .operator .sub],
    rfl⟩ := by decide +kernel
  exact ⟨_, h, by decide +kernel, (compile_reprinted h).2.1⟩

end Postfix

end LeastSquares
