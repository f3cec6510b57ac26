/-
LeastSquares.Proofs.Diagnosis — the error that a text is refused with.

A word is flawed if it cannot be read, or if it needs more operands than the words before it
leave. `Flaw` says so of one word, with sums of signed numbers in the place of the height that the
compiler counts. The compiler stops at the first flaw (`compile_of_firstFlaw`), and without a
flaw its height is the balance of all words (`compile_of_flawless`).

A flaw depends only on the words up to it, so nothing that is appended can take it away
(`flaw_append_iff`). A text that only leaves too many numbers can be repaired: each operator that
is appended takes one of them away (`flawless_replicate`).
-/
import Mathlib
import LeastSquares.Proofs.RoundTrip

namespace LeastSquares

/-- A blank separates the words before it from the words after it. -/
theorem Text.words_append_blank {blank : Char} (h : isBlank blank = true) (s rest : String) :
    words (s ++ String.singleton blank ++ rest) = words s ++ words rest := by
  have hcut : (s ++ String.singleton blank ++ rest).toList
      = s.toList ++ blank :: rest.toList := by
    simp
  rw [words, hcut, runs, List.splitOnP_append_cons _ _ h, List.filter_append, List.map_append]
  rfl

namespace Postfix

/-! ## The numbers that words leave -/

/-- The number of operands. -/
def Lexeme.operands {n : Nat} : Lexeme n → Nat
  | literal _ => 0
  | parameter _ => 0
  | operator _ => 2
  | call f => f.arity

theorem Instruction.operands_lexeme {n : Nat} (i : Instruction n) :
    i.lexeme.operands = i.operands := by
  cases i <;> rfl

variable {params words before more : List String} {word : String} {l : Lexeme params.length}

theorem Instruction.reads_of_ofToken? {i : Instruction params.length}
    (h : ofToken? params word = some i) : Reads params word i.lexeme :=
  reads_iff.2 (by rw [h]; rfl)

theorem Instruction.ofToken?_eq_none_iff :
    ofToken? params word = none ↔ ∀ l, ¬ Reads params word l := by
  simp only [reads_iff, ← Option.eq_none_iff_forall_ne_some, Option.map_eq_none_iff]

/-- A word is read in one way only. -/
theorem Reads.unique {l' : Lexeme params.length} (h : Reads params word l)
    (h' : Reads params word l') : l = l' :=
  Option.some_inj.1 ((Instruction.reads_iff.1 h).symm.trans (Instruction.reads_iff.1 h'))

/-- What a word that can be read pushes, less what it pops. -/
def effect (params : List String) (word : String) : ℤ :=
  match Instruction.ofToken? params word with
  | some i => 1 - i.operands
  | none => 0

theorem Reads.effect_eq (h : Reads params word l) : effect params word = 1 - l.operands := by
  obtain ⟨i, hi, rfl⟩ := Option.map_eq_some_iff.1 (Instruction.reads_iff.1 h)
  rw [effect, hi, i.operands_lexeme]

/-- The pushes of the words, less their pops. -/
def balance (params words : List String) : ℤ :=
  (words.map (effect params)).sum

@[simp] theorem balance_nil : balance params [] = 0 := rfl

theorem balance_append : balance params (words ++ more)
    = balance params words + balance params more := by
  rw [balance, List.map_append, List.sum_append]
  rfl

theorem Reads.balance_concat (h : Reads params word l) :
    balance params (words ++ [word]) = balance params words + 1 - l.operands := by
  have hword : balance params [word] = effect params word := List.sum_singleton
  rw [balance_append, hword, h.effect_eq, add_sub_assoc]

/-! ## Flaws

A flaw is defined from the words alone, without a compiler or a stack. That the first one decides is
seen by reading the text from its end: one more word is flawed or not, and the words before it are
flawed or not as they were. -/

/-- The error of the word at position `i`: it cannot be read, or it needs more operands than the
words before it leave. -/
inductive Flaw (params words : List String) (i : Nat) : CompileError → Prop where
  | unreadable {word : String} (here : words[i]? = some word) (h : ∀ l, ¬ Reads params word l) :
    Flaw params words i (.unsupported word)
  | starved {word : String} {l : Lexeme params.length} (here : words[i]? = some word)
    (h : Reads params word l) (few : balance params (words.take i) < l.operands) :
    Flaw params words i (.underflow word i)

/-- The word at position `i` is the first one that is flawed. -/
structure FirstFlaw (params words : List String) (i : Nat) (e : CompileError) : Prop where
  flaw : Flaw params words i e
  first : ∀ j < i, ∀ e', ¬ Flaw params words j e'

/-- No word is flawed. -/
def Flawless (params words : List String) : Prop :=
  ∀ i e, ¬ Flaw params words i e

variable {i : Nat} {e e' : CompileError}

/-- A flaw is at a position of the text. -/
theorem Flaw.lt (h : Flaw params words i e) : i < words.length := by
  obtain ⟨here, -⟩ | ⟨here, -, -⟩ := h <;> exact (List.getElem?_eq_some_iff.1 here).1

/-- At one position there is one flaw at most. -/
theorem Flaw.unique (h : Flaw params words i e) (h' : Flaw params words i e') : e = e' := by
  obtain ⟨here, unreadable⟩ | ⟨here, reads, -⟩ := h <;>
    obtain ⟨here', unreadable'⟩ | ⟨here', reads', -⟩ := h' <;>
    obtain rfl := Option.some_inj.1 (here.symm.trans here')
  · rfl
  · exact absurd reads' (unreadable _)
  · exact absurd reads (unreadable' _)
  · rfl

/-- A flaw depends only on the words up to it. -/
theorem flaw_append_iff (hi : i < words.length) :
    Flaw params (words ++ more) i e ↔ Flaw params words i e := by
  have here : (words ++ more)[i]? = words[i]? := List.getElem?_append_left hi
  have hbefore : (words ++ more).take i = words.take i := List.take_append_of_le_length hi.le
  constructor
  · rintro (⟨h, unreadable⟩ | ⟨h, reads, few⟩)
    · exact .unreadable (here ▸ h) unreadable
    · exact .starved (here ▸ h) reads (hbefore ▸ few)
  · rintro (⟨h, unreadable⟩ | ⟨h, reads, few⟩)
    · exact .unreadable (here ▸ h) unreadable
    · exact .starved (here ▸ h) reads (hbefore ▸ few)

/-- Nothing that is appended repairs a flaw, or comes before it. -/
theorem FirstFlaw.append (h : FirstFlaw params words i e) (more : List String) :
    FirstFlaw params (words ++ more) i e where
  flaw := (flaw_append_iff h.flaw.lt).2 h.flaw
  first j hj e' h' := h.first j hj e' ((flaw_append_iff (hj.trans h.flaw.lt)).1 h')

/-- So the first flaw is one error, and not several. -/
theorem FirstFlaw.unique {j : Nat} (h : FirstFlaw params words i e)
    (h' : FirstFlaw params words j e') : e = e' := by
  obtain hlt | rfl | hlt := lt_trichotomy i j
  · exact absurd h.flaw (h'.first i hlt e)
  · exact h.flaw.unique h'.flaw
  · exact absurd h'.flaw (h.first j hlt e')

theorem Flawless.firstFlaw (sound : Flawless params before)
    (h : Flaw params (before ++ more) before.length e) :
    FirstFlaw params (before ++ more) before.length e where
  flaw := h
  first j hj e' h' := sound j e' ((flaw_append_iff hj).1 h')

theorem flawless_nil : Flawless params [] :=
  fun i _ h => Nat.not_lt_zero i h.lt

/-- One more word is not flawed if it can be read and has its operands. -/
theorem flawless_concat_iff : Flawless params (words ++ [word])
    ↔ Flawless params words ∧ ∃ l, Reads params word l ∧ l.operands ≤ balance params words := by
  have here : (words ++ [word])[words.length]? = some word := List.getElem?_concat_length
  have hbefore : (words ++ [word]).take words.length = words := List.take_left
  constructor
  · intro sound
    refine ⟨fun i e h => sound i e ((flaw_append_iff h.lt).2 h), ?_⟩
    by_contra! refused
    by_cases readable : ∃ l, Reads params word l
    · obtain ⟨l, reads⟩ := readable
      exact sound _ _ (.starved here reads (hbefore.symm ▸ refused l reads))
    · exact sound _ _ (.unreadable here (not_exists.1 readable))
  · rintro ⟨sound, l, reads, enough⟩ i e h
    have hi : i ≤ words.length := by simpa [Nat.lt_succ_iff] using h.lt
    obtain hi | rfl := hi.lt_or_eq
    · exact sound i e ((flaw_append_iff hi).1 h)
    · obtain ⟨here', unreadable⟩ | ⟨here', reads', few⟩ := h <;>
        obtain rfl := Option.some_inj.1 (here.symm.trans here')
      · exact unreadable l reads
      · rw [hbefore, reads'.unique reads] at few
        exact few.not_ge enough

/-- Words without a flaw leave a number, if there are any. -/
theorem Flawless.balance_pos (sound : Flawless params words) (hne : words ≠ []) :
    0 < balance params words := by
  obtain ⟨words, word, rfl⟩ := (List.eq_nil_or_concat' words).resolve_left hne
  obtain ⟨-, l, reads, enough⟩ := flawless_concat_iff.1 sound
  rw [reads.balance_concat]
  omega

/-! ## The compiler

It goes through the words once, and counts. The induction is on the words that are left, for any
words before them. As long as none of these is flawed, the height is their balance: a word that has
its operands takes no more than there is, so the subtraction of natural numbers is exact. -/

/-- The result is the error of the first flaw, or code whose height is the balance of all words. -/
def Fragment.Diagnoses (params words : List String) {height : Nat} :
    Except CompileError (Fragment params.length height) → Prop
  | .error e => ∃ i, FirstFlaw params words i e
  | .ok f => Flawless params words ∧ f.height = balance params words

/-- The compiler may start behind words without a flaw, on a stack with the numbers they leave. -/
theorem Fragment.ofTokens_diagnoses {tokens : List String} {height : Nat}
    (sound : Flawless params before) (hheight : height = balance params before) :
    Diagnoses params (before ++ tokens) (ofTokens params tokens before.length height) := by
  induction tokens generalizing before height with
  | nil =>
    rw [List.append_nil]
    exact ⟨sound, hheight⟩
  | cons token tokens ih =>
    have here : (before ++ token :: tokens)[before.length]? = some token := by simp
    have hbefore : (before ++ token :: tokens).take before.length = before := List.take_left
    cases hi : Instruction.ofToken? params token with
    | none =>
      simp only [ofTokens, hi]
      have unreadable := Instruction.ofToken?_eq_none_iff.1 hi
      exact ⟨_, sound.firstFlaw (.unreadable here unreadable)⟩
    | some i =>
      have reads := Instruction.reads_of_ofToken? hi
      have hoperands := i.operands_lexeme
      by_cases enough : i.operands ≤ height
      · have sound' : Flawless params (before ++ [token]) :=
          flawless_concat_iff.2 ⟨sound, _, reads, by omega⟩
        have hheight' : (height - i.operands + 1 : Nat) = balance params (before ++ [token]) := by
          rw [reads.balance_concat]
          omega
        -- what has been read is the word and all before it
        have rest := ih sound' hheight'
        rw [List.length_append, List.length_singleton, List.append_assoc,
          List.singleton_append] at rest
        simp only [ofTokens, hi, dif_pos enough]
        cases hg : ofTokens params tokens (before.length + 1) (height - i.operands + 1) with
        | error e =>
          rw [hg] at rest
          exact rest
        | ok g =>
          rw [hg] at rest
          exact rest
      · simp only [ofTokens, hi, dif_neg enough]
        have few : balance params ((before ++ token :: tokens).take before.length)
            < i.lexeme.operands := by
          rw [hbefore]
          omega
        exact ⟨_, sound.firstFlaw (.starved here reads few)⟩

theorem Fragment.ofTokens_start_diagnoses (params tokens : List String) :
    Diagnoses params tokens (ofTokens params tokens 0 0) :=
  ofTokens_diagnoses flawless_nil rfl

variable {text : String}

theorem compile_of_firstFlaw (h : FirstFlaw params (Text.words text) i e) :
    compile params text = .error e := by
  have diagnosis := Fragment.ofTokens_start_diagnoses params (Text.words text)
  rw [compile, Tape.ofTokens]
  cases hf : Fragment.ofTokens params (Text.words text) 0 0 with
  | error e' =>
    obtain ⟨j, h'⟩ := hf ▸ diagnosis
    rw [h.unique h']
  | ok f =>
    obtain ⟨sound, -⟩ := hf ▸ diagnosis
    exact absurd h.flaw (sound i e)

/-- A text without a flaw compiles, unless it does not leave exactly one number. -/
theorem compile_of_flawless (sound : Flawless params (Text.words text)) :
    ∃ depth : Nat, depth = balance params (Text.words text)
      ∧ ((depth = 1 ∧ ∃ t, compile params text = .ok t)
        ∨ (depth ≠ 1 ∧ compile params text = .error (.unbalanced depth))) := by
  have diagnosis := Fragment.ofTokens_start_diagnoses params (Text.words text)
  rw [compile, Tape.ofTokens]
  cases hf : Fragment.ofTokens params (Text.words text) 0 0 with
  | error e =>
    obtain ⟨j, h⟩ := hf ▸ diagnosis
    exact absurd h.flaw (sound j e)
  | ok f =>
    obtain ⟨-, hheight⟩ := hf ▸ diagnosis
    refine ⟨f.height, hheight, ?_⟩
    by_cases one : f.height = 1
    · exact .inl ⟨one, _, dif_pos one⟩
    · exact .inr ⟨one, dif_neg one⟩

/-- Among the flaws there is a first one. -/
theorem exists_firstFlaw (h : ¬ Flawless params words) : ∃ i e, FirstFlaw params words i e := by
  classical
  have hflaw : ∃ i e, Flaw params words i e := by simpa [Flawless] using h
  obtain ⟨e, flaw⟩ := Nat.find_spec hflaw
  exact ⟨_, e, flaw, fun j hj e' h' => Nat.find_min hflaw hj ⟨e', h'⟩⟩

/-- A text compiles exactly if it has no flaw and leaves one number. -/
theorem compiles_iff : (∃ t, compile params text = .ok t)
    ↔ Flawless params (Text.words text) ∧ balance params (Text.words text) = 1 := by
  by_cases sound : Flawless params (Text.words text)
  · obtain ⟨depth, hdepth, ⟨rfl, h⟩ | ⟨hne, h⟩⟩ := compile_of_flawless sound
    · exact iff_of_true h ⟨sound, hdepth.symm⟩
    · have notOne : balance params (Text.words text) ≠ 1 := by omega
      rw [h]
      simp [notOne]
  · obtain ⟨i, e, h⟩ := exists_firstFlaw sound
    rw [compile_of_firstFlaw h]
    simp [sound]

/-! ## Repairs

An operator takes two numbers and leaves one. So the balance tells how many operators are missing,
if it is larger than one. Any operator would do; `+` is one, as long as no parameter is called
so. -/

theorem reads_plus (h : "+" ∉ params) : Reads params "+" (.operator .add) :=
  .operator rfl h rfl

/-- Each operator takes one off the balance. -/
theorem balance_replicate (h : "+" ∉ params) (k : Nat) :
    balance params (words ++ List.replicate k "+") = balance params words - k := by
  induction k with
  | zero => simp
  | succ k ih =>
    rw [List.replicate_succ', ← List.append_assoc, (reads_plus h).balance_concat, ih,
      Lexeme.operands]
    omega

/-- As long as two numbers are left, one more operator can be appended. -/
theorem flawless_replicate (h : "+" ∉ params) (sound : Flawless params words) {k : Nat}
    (hk : k < balance params words) : Flawless params (words ++ List.replicate k "+") := by
  induction k with
  | zero => simpa using sound
  | succ k ih =>
    rw [List.replicate_succ', ← List.append_assoc]
    refine flawless_concat_iff.2 ⟨ih (by omega), _, reads_plus h, ?_⟩
    rw [balance_replicate h, Lexeme.operands]
    omega

/-- A text is refused for its first flaw, and so is every text that it begins. A text without a
flaw either compiles or leaves another number of numbers than one: none if it has no words, and
otherwise at least two. It is the operators `+` that then repair it, one less than there are
numbers, and no other number of them does. Words are appended to a text behind a blank. -/
theorem compile_exact (params : List String) (text : String) :
    (∀ blank rest, Text.isBlank blank = true →
      Text.words (text ++ String.singleton blank ++ rest) = Text.words text ++ Text.words rest)
    ∧ (∀ i e, FirstFlaw params (Text.words text) i e →
      compile params text = .error e
      ∧ ∀ more longer, Text.words longer = Text.words text ++ more →
        compile params longer = .error e)
    ∧ (Flawless params (Text.words text) →
      ∃ depth : Nat, depth = balance params (Text.words text)
        ∧ ((depth = 1 ∧ ∃ t, compile params text = .ok t)
          ∨ (depth ≠ 1 ∧ compile params text = .error (.unbalanced depth)))
        ∧ (depth = 0 ↔ Text.words text = [])
        ∧ ("+" ∉ params → 2 ≤ depth →
          ∀ k longer, Text.words longer = Text.words text ++ List.replicate k "+" →
            ((∃ t, compile params longer = .ok t) ↔ k = depth - 1))) := by
  refine ⟨fun blank rest hblank => Text.words_append_blank hblank text rest,
    fun i e h => ⟨compile_of_firstFlaw h, fun more longer hlonger => ?_⟩, fun sound => ?_⟩
  · exact compile_of_firstFlaw (hlonger ▸ h.append more)
  · obtain ⟨depth, hdepth, result⟩ := compile_of_flawless sound
    refine ⟨depth, hdepth, result, ⟨fun hzero => ?_, fun hnil => ?_⟩, ?_⟩
    · by_contra hne
      have hpos := sound.balance_pos hne
      omega
    · rw [hnil, balance_nil] at hdepth
      exact Int.natCast_eq_zero.1 hdepth
    · intro noName two k longer hlonger
      rw [compiles_iff, hlonger, balance_replicate noName]
      constructor
      · rintro ⟨-, one⟩
        omega
      · rintro rfl
        exact ⟨flawless_replicate noName sound (by omega), by omega⟩

/-- The right operand of the sum is missing, and comes too late if it is appended. Three numbers
need two operators. -/
theorem compile_exact_sum :
    FirstFlaw ["x"] (Text.words "x sin +") 2 (.underflow "+" 2)
    ∧ compile ["x"] ("x sin +" ++ String.singleton ' ' ++ "2 ?") = .error (.underflow "+" 2)
    ∧ Flawless ["x"] (Text.words "x 2 3")
    ∧ compile ["x"] "x 2 3" = .error (.unbalanced 3)
    ∧ ∀ k longer, Text.words longer = Text.words "x 2 3" ++ List.replicate k "+" →
      ((∃ t, compile ["x"] longer = .ok t) ↔ k = 2) := by
  have hsum : Text.words "x sin +" = ["x", "sin", "+"] := by decide +kernel
  have hnumbers : Text.words "x 2 3" = ["x", "2", "3"] := by decide +kernel
  have noName : "+" ∉ ["x"] := by decide
  have x : Reads ["x"] "x" (.parameter 0) :=
    .parameter rfl rfl fun j hj => absurd hj (Fin.not_lt_zero j)
  have sin : Reads ["x"] "sin" (.call (.elementary .sin)) :=
    .call rfl (by decide) (fun op => by cases op <;> decide) rfl
  have two : Reads ["x"] "2" (.literal ⟨false, 2, 0⟩) := .literal rfl
  have three : Reads ["x"] "3" (.literal ⟨false, 3, 0⟩) := .literal rfl
  have soundX : Flawless ["x"] ([] ++ ["x"]) :=
    flawless_concat_iff.2 ⟨flawless_nil, _, x, le_rfl⟩
  have hflaw : FirstFlaw ["x"] (Text.words "x sin +") 2 (.underflow "+" 2) := by
    have soundSin : Flawless ["x"] (["x"] ++ ["sin"]) :=
      flawless_concat_iff.2 ⟨soundX, _, sin, by decide +kernel⟩
    have few : balance ["x"] ["x", "sin"] < 2 := by decide +kernel
    rw [hsum]
    exact soundSin.firstFlaw (.starved rfl (reads_plus noName) few)
  have sound : Flawless ["x"] (Text.words "x 2 3") := by
    have soundTwo : Flawless ["x"] (["x"] ++ ["2"]) :=
      flawless_concat_iff.2 ⟨soundX, _, two, by decide +kernel⟩
    have soundThree : Flawless ["x"] (["x", "2"] ++ ["3"]) :=
      flawless_concat_iff.2 ⟨soundTwo, _, three, by decide +kernel⟩
    rwa [hnumbers]
  have hbalance : balance ["x"] (Text.words "x 2 3") = 3 := by decide +kernel
  obtain ⟨happend, hflaws, -⟩ := compile_exact ["x"] "x sin +"
  obtain ⟨-, -, hsound⟩ := compile_exact ["x"] "x 2 3"
  obtain ⟨depth, hdepth, result, -, repair⟩ := hsound sound
  obtain rfl : depth = 3 := by omega
  refine ⟨hflaw, (hflaws _ _ hflaw).2 _ _ (happend ' ' "2 ?" rfl), sound, ?_,
    repair noName (by omega)⟩
  exact (result.resolve_left (by omega)).2

end Postfix

end LeastSquares
