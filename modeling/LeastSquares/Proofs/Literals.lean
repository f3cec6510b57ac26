/-
LeastSquares.Proofs.Literals — which tokens are numbers.

The form of a literal is a regular expression over all characters, `Decimal.pattern`. Two functions
know it. `Decimal.isLiteral` goes through the characters once, keeps no more than two flags, and
only says yes or no. `Decimal.ofString?` cuts the digits off in front of the point and behind it and
returns the number. `literal_iff` says that both accept what the pattern matches, and that a
token becomes a literal of a tape exactly if it is accepted, whatever the parameters are called.

They meet the pattern in `Decimal.IsUnsigned`, which has neither a regular expression nor a flag:
digits, of which there is at least one, and perhaps a point somewhere among them. An unsigned number
does not begin with a sign, so it does not matter that a sign is taken away before it is looked at.
-/
import Mathlib
import LeastSquares.Proofs.Diagnosis

namespace LeastSquares.Postfix

open RegularExpression

/-! ## Regular expressions -/

section Patterns

/-- One of the given characters. -/
def oneOf (cs : List Char) : RegularExpression Char :=
  cs.foldr (fun c p => char c + p) 0

/-- A match of `p`, or nothing. -/
def optionally (p : RegularExpression Char) : RegularExpression Char :=
  1 + p

variable {cs w : List Char}

theorem mem_oneOf : w ∈ (oneOf cs).matches' ↔ ∃ c ∈ cs, w = [c] := by
  induction cs with
  | nil =>
    simp only [List.not_mem_nil, false_and, exists_false, iff_false]
    exact Language.notMem_zero w
  | cons c cs ih =>
    rw [oneOf, List.foldr_cons, matches'_add, Language.mem_add, ← oneOf, ih, matches'_char]
    simp only [List.exists_mem_cons_iff]
    rfl

theorem mem_star_oneOf : w ∈ (oneOf cs).star.matches' ↔ ∀ c ∈ w, c ∈ cs := by
  rw [matches'_star, Language.mem_kstar]
  constructor
  · rintro ⟨pieces, rfl, hpieces⟩ c hc
    obtain ⟨piece, hpiece, hc⟩ := List.mem_flatten.1 hc
    obtain ⟨d, hd, rfl⟩ := mem_oneOf.1 (hpieces piece hpiece)
    exact List.mem_singleton.1 hc ▸ hd
  · intro h
    refine ⟨w.map fun c => [c], (List.flatMap_singleton' w).symm, fun piece hpiece => ?_⟩
    obtain ⟨c, hc, rfl⟩ := List.mem_map.1 hpiece
    exact mem_oneOf.2 ⟨c, h c hc, rfl⟩

theorem mem_oneOf_mul_star : w ∈ (oneOf cs * (oneOf cs).star).matches'
    ↔ w ≠ [] ∧ ∀ c ∈ w, c ∈ cs := by
  rw [matches'_mul, Language.mem_mul]
  constructor
  · rintro ⟨first, hfirst, rest, hrest, rfl⟩
    obtain ⟨c, hc, rfl⟩ := mem_oneOf.1 hfirst
    exact ⟨by simp, List.forall_mem_cons.2 ⟨hc, mem_star_oneOf.1 hrest⟩⟩
  · rintro ⟨hne, h⟩
    obtain ⟨c, rest, rfl⟩ := List.exists_cons_of_ne_nil hne
    obtain ⟨hc, hrest⟩ := List.forall_mem_cons.1 h
    exact ⟨[c], mem_oneOf.2 ⟨c, hc, rfl⟩, rest, mem_star_oneOf.2 hrest, rfl⟩

end Patterns

namespace Decimal

variable {cs w : List Char} {negative : Bool}

/-! ## Unsigned numbers

The pattern has two alternatives, according to whether there is a digit in front of the point. The
cases of `IsUnsigned` are others: without a point and with one. -/

def decimalDigit : RegularExpression Char :=
  oneOf ['0', '1', '2', '3', '4', '5', '6', '7', '8', '9']

/-- Digits and perhaps a point behind or among them, or a point and digits behind it. -/
def unsignedPattern : RegularExpression Char :=
  decimalDigit * decimalDigit.star * optionally (oneOf ['.']) * decimalDigit.star
    + oneOf ['.'] * (decimalDigit * decimalDigit.star)

/-- `[+-]?([0-9]+[.]?[0-9]*|[.][0-9]+)` -/
def pattern : RegularExpression Char :=
  optionally (oneOf ['+', '-']) * unsignedPattern

/-- The text is a row of digits, or two such rows with a point between them. One of the two rows
may be empty. -/
inductive IsUnsigned : List Char → Prop where
  | digits {cs : List Char} (h : ∀ c ∈ cs, isDigit c = true) (nonempty : cs ≠ []) : IsUnsigned cs
  | point {whole fraction : List Char} (hwhole : ∀ c ∈ whole, isDigit c = true)
    (hfraction : ∀ c ∈ fraction, isDigit c = true) (nonempty : whole ++ fraction ≠ []) :
    IsUnsigned (whole ++ '.' :: fraction)

/-- The ten digits of ASCII, and no others of Unicode. -/
theorem isDigit_iff {c : Char} :
    isDigit c = true ↔ c ∈ ['0', '1', '2', '3', '4', '5', '6', '7', '8', '9'] := by
  constructor
  · intro h
    rw [isDigit, Bool.and_eq_true, decide_eq_true_iff, decide_eq_true_iff] at h
    have hlow : 48 ≤ c.toNat := h.1
    have hhigh : c.toNat ≤ 57 := h.2
    rw [← c.ofNat_toNat]
    generalize c.toNat = code at hlow hhigh ⊢
    interval_cases code <;> decide
  · intro h
    fin_cases h <;> rfl

theorem mem_star_digit : w ∈ decimalDigit.star.matches' ↔ ∀ c ∈ w, isDigit c = true := by
  simp only [decimalDigit, mem_star_oneOf, isDigit_iff]

theorem mem_digit_mul_star : w ∈ (decimalDigit * decimalDigit.star).matches'
    ↔ w ≠ [] ∧ ∀ c ∈ w, isDigit c = true := by
  simp only [decimalDigit, mem_oneOf_mul_star, isDigit_iff]

theorem mem_point : w ∈ (oneOf ['.']).matches' ↔ w = ['.'] := by
  simp [mem_oneOf]

theorem mem_unsignedPattern : w ∈ unsignedPattern.matches' ↔ IsUnsigned w := by
  rw [unsignedPattern, matches'_add, Language.mem_add]
  constructor
  · rintro (h | h)
    · obtain ⟨front, hfront, back, hback, rfl⟩ := Language.mem_mul.1 h
      obtain ⟨whole, hdigits, point, hpoint, rfl⟩ := Language.mem_mul.1 hfront
      obtain ⟨hne, hwhole⟩ := mem_digit_mul_star.1 hdigits
      rw [mem_star_digit] at hback
      rcases hpoint with rfl | hpoint
      · -- without a point the two rows of digits are one
        rw [List.append_nil]
        exact .digits (List.forall_mem_append.2 ⟨hwhole, hback⟩) (by simp [hne])
      · obtain rfl := mem_point.1 hpoint
        rw [List.append_assoc]
        exact .point hwhole hback (by simp [hne])
    · obtain ⟨point, hpoint, fraction, hdigits, rfl⟩ := Language.mem_mul.1 h
      obtain rfl := mem_point.1 hpoint
      obtain ⟨hne, hfraction⟩ := mem_digit_mul_star.1 hdigits
      exact @IsUnsigned.point [] fraction (by simp) hfraction hne
  · rintro (⟨hdigits, hne⟩ | @⟨whole, fraction, hwhole, hfraction, hne⟩)
    · -- neither a point nor digits behind it
      left
      rw [← List.append_nil w, ← List.append_nil w]
      exact Language.append_mem_mul (Language.append_mem_mul (mem_digit_mul_star.2 ⟨hne, hdigits⟩)
        (.inl rfl)) (mem_star_digit.2 (by simp))
    · by_cases hempty : whole = []
      · subst hempty
        exact .inr (Language.mem_mul.2 ⟨['.'], mem_point.2 rfl, fraction,
          mem_digit_mul_star.2 ⟨hne, hfraction⟩, rfl⟩)
      · left
        rw [List.append_cons]
        exact Language.append_mem_mul (Language.append_mem_mul
          (mem_digit_mul_star.2 ⟨hempty, hwhole⟩) (.inr (mem_point.2 rfl)))
          (mem_star_digit.2 hfraction)

/-! ## Reading -/

/-- It is enough to look at what is left behind the digits in front. -/
theorem isUnsigned_iff : IsUnsigned cs ↔
    match cs.dropWhile isDigit with
    | [] => cs.takeWhile isDigit ≠ []
    | c :: fraction => c = '.' ∧ (∀ d ∈ fraction, isDigit d = true)
      ∧ cs.takeWhile isDigit ++ fraction ≠ [] := by
  constructor
  · rintro (⟨hdigits, hne⟩ | @⟨whole, fraction, hwhole, hfraction, hne⟩)
    · rw [List.dropWhile_eq_nil_iff.2 hdigits, List.takeWhile_eq_self_iff.2 hdigits]
      exact hne
    · have hdrop : ('.' :: fraction).dropWhile isDigit = '.' :: fraction := rfl
      have htake : ('.' :: fraction).takeWhile isDigit = [] := rfl
      rw [List.dropWhile_append_of_pos hwhole, List.takeWhile_append_of_pos hwhole, hdrop, htake,
        List.append_nil]
      exact ⟨rfl, hfraction, hne⟩
  · have hwhole : ∀ c ∈ cs.takeWhile isDigit, isDigit c = true := fun c => List.mem_takeWhile_imp
    have hcut := cs.takeWhile_append_dropWhile (p := isDigit)
    intro h
    rw [← hcut]
    cases hrest : cs.dropWhile isDigit with
    | nil =>
      rw [hrest] at h
      rw [List.append_nil]
      exact .digits hwhole h
    | cons c fraction =>
      rw [hrest] at h
      obtain ⟨rfl, hfraction, hne⟩ := h
      exact .point hwhole hfraction hne

theorem ofUnsigned?_isSome : (ofUnsigned? negative cs).isSome = true ↔ IsUnsigned cs := by
  rw [isUnsigned_iff]
  unfold ofUnsigned?
  dsimp only
  generalize cs.takeWhile isDigit = whole
  cases cs.dropWhile isDigit with
  | nil => cases whole <;> simp
  | cons c fraction => cases whole <;> simp [Option.isSome_ite, and_assoc]

theorem scan_iff : scan false false cs = true ↔ IsUnsigned cs := by
  rw [← isSome_ofUnsigned? false, ofUnsigned?_isSome]

/-! ## Signs

At most one sign is taken away, and only from the beginning. A second one is no part of an unsigned
number, so it is refused. -/

theorem IsUnsigned.mem (h : IsUnsigned cs) : ∀ c ∈ cs, isDigit c = true ∨ c = '.' := by
  obtain ⟨hdigits, -⟩ | ⟨hwhole, hfraction, -⟩ := h
  · exact fun c hc => .inl (hdigits c hc)
  · refine List.forall_mem_append.2 ⟨fun c hc => .inl (hwhole c hc), List.forall_mem_cons.2 ?_⟩
    exact ⟨.inr rfl, fun c hc => .inl (hfraction c hc)⟩

theorem IsUnsigned.unsigned_eq (h : IsUnsigned cs) : unsigned cs = cs := by
  have hmem := h.mem
  -- a sign is neither a digit nor a point
  unfold unsigned
  split
  · simp [isDigit] at hmem
  · simp [isDigit] at hmem
  · rfl

theorem mem_pattern : w ∈ pattern.matches' ↔ IsUnsigned (unsigned w) := by
  rw [pattern, matches'_mul, Language.mem_mul]
  simp only [mem_unsignedPattern]
  constructor
  · rintro ⟨sign, rfl | hsign, cs, h, rfl⟩
    · rwa [List.nil_append, h.unsigned_eq]
    · obtain ⟨c, hc, rfl⟩ := mem_oneOf.1 hsign
      fin_cases hc <;> exact h
  · intro h
    unfold unsigned at h
    split at h
    · exact ⟨['+'], .inr (mem_oneOf.2 ⟨'+', by simp, rfl⟩), _, h, rfl⟩
    · exact ⟨['-'], .inr (mem_oneOf.2 ⟨'-', by simp, rfl⟩), _, h, rfl⟩
    · exact ⟨[], .inl rfl, _, h, rfl⟩

/-- The token has the form of a literal. -/
def Matches (token : String) : Prop :=
  token.toList ∈ pattern.matches'

theorem isLiteral_iff {token : String} : isLiteral token = true ↔ Matches token := by
  rw [isLiteral, scan_iff, Matches, mem_pattern]

example : ["0", "+4", "5.", "-.5"].all isLiteral
    ∧ ["", "-", ".", "1.2.3", "1e5", "--1", "1-"].all (!isLiteral ·) := by decide

theorem ofString?_isSome {token : String} : (ofString? token).isSome = true ↔ Matches token := by
  rw [isSome_ofString?, isLiteral_iff]

end Decimal

/-! ## Tokens -/

open Decimal

variable {params : List String} {text token : String}

/-- A token of this form is a literal even if a parameter has its name. -/
theorem Instruction.ofToken?_literal_iff :
    (∃ raw number, ofToken? params token = some (.literal raw number)) ↔ Matches token := by
  rw [← ofString?_isSome, Option.isSome_iff_exists]
  constructor
  · rintro ⟨raw, number, h⟩
    cases reads_of_ofToken? h with
    | literal hnumber => exact ⟨number, hnumber⟩
  · rintro ⟨number, hnumber⟩
    exact ⟨token, number, by rw [ofToken?, literal?_eq_ofString?, hnumber]⟩

/-- A text is refused for a token only if the token is no literal. -/
theorem not_matches_of_unsupported (h : compile params text = .error (.unsupported token)) :
    ¬ Matches token := by
  intro hmatches
  obtain ⟨number, hnumber⟩ := Option.isSome_iff_exists.1 (ofString?_isSome.2 hmatches)
  by_cases sound : Flawless params (Text.words text)
  · obtain ⟨depth, -, ⟨-, t, ht⟩ | ⟨-, hunbalanced⟩⟩ := compile_of_flawless sound
    · simp [h] at ht
    · simp [h] at hunbalanced
  · obtain ⟨i, e, hfirst⟩ := exists_firstFlaw sound
    have he := compile_of_firstFlaw hfirst
    rw [h, Except.error.injEq] at he
    subst he
    cases hfirst.flaw with
    | unreadable here unreadable => exact unreadable _ (.literal hnumber)

/-- The readers of literals accept what the pattern matches, and a token becomes a literal of a tape
exactly if it is accepted, whatever the parameters are called. No such token is refused, and a sign
or a point alone is none. -/
theorem literal_iff (params : List String) :
    (∀ token,
      (isLiteral token = true ↔ Matches token)
      ∧ ((ofString? token).isSome = true ↔ Matches token)
      ∧ ((∃ raw number, Instruction.ofToken? params token = some (.literal raw number))
        ↔ Matches token))
    ∧ (∀ text t, compile params text = .ok t →
      List.Forall₂ (fun token i => (∃ raw number, i = .literal raw number) ↔ Matches token)
        (Text.words text) t.code)
    ∧ (∀ text token, compile params text = .error (.unsupported token) → ¬ Matches token)
    ∧ ∀ token ∈ ["+", "-", "."], ¬ Matches token := by
  refine ⟨fun token => ⟨isLiteral_iff, ofString?_isSome, Instruction.ofToken?_literal_iff⟩,
    fun text t h => ?_, fun text token => not_matches_of_unsupported, fun token htoken => ?_⟩
  · refine (forall₂_of_compile h).imp fun token i hi => ?_
    have hliteral := @Instruction.ofToken?_literal_iff params token
    simpa only [hi, Option.some_inj] using hliteral
  · rw [← isLiteral_iff]
    fin_cases htoken <;> decide

/-- Parameters that are named like literals, and a digit that is none of the ten. -/
theorem literal_iff_hidden_names :
    let params := ["1", "-.5", "\u0663"]
    (∃ t, compile params "1 \u0663 + -.5 *" = .ok t
      ∧ List.Forall₂ (fun token i => (∃ raw number, i = .literal raw number) ↔ Matches token)
        ["1", "\u0663", "+", "-.5", "*"] t.code)
    ∧ Matches "-.5" ∧ ¬ Matches "\u0663"
    ∧ compile params "1 1e5 +" = .error (.unsupported "1e5") ∧ ¬ Matches "1e5" := by
  intro params
  obtain ⟨tokens, compiled, refused, -⟩ := literal_iff params
  have hwords : Text.words "1 \u0663 + -.5 *" = ["1", "\u0663", "+", "-.5", "*"] := by
    decide +kernel
  have h : compile params "1 \u0663 + -.5 *" = .ok ⟨[.literal "1" ⟨false, 1, 0⟩,
    .parameter "\u0663" 2, .operator .add, .literal "-.5" ⟨true, 5, 1⟩, .operator .mul], rfl⟩ := by
    decide +kernel
  have hrefused : compile params "1 1e5 +" = .error (.unsupported "1e5") := by decide +kernel
  refine ⟨⟨_, h, hwords ▸ compiled _ _ h⟩, (tokens "-.5").1.1 (by decide),
    fun hmatches => ?_, hrefused, refused _ _ hrefused⟩
  have hliteral := (tokens "\u0663").1.2 hmatches
  revert hliteral
  decide

end LeastSquares.Postfix
