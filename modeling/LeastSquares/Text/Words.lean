/-
LeastSquares.Text.Words — cutting a text at its white space.

White space is the property White_Space of the Unicode Character Database; the zero width
space and the byte order mark are not in it. `words` returns the longest runs without white
space, in order; none of them is empty.
-/

namespace LeastSquares.Text

/-- The property White_Space. -/
def isBlank (c : Char) : Bool :=
  let n := c.toNat
  (0x09 ≤ n && n ≤ 0x0D) || n == 0x20 || n == 0x85 || n == 0xA0 || n == 0x1680
    || (0x2000 ≤ n && n ≤ 0x200A) || n == 0x2028 || n == 0x2029 || n == 0x202F
    || n == 0x205F || n == 0x3000

/-- The longest runs of characters that are not blank. -/
def runs (cs : List Char) : List (List Char) :=
  (cs.splitOnP isBlank).filter fun run => !run.isEmpty

/-- A text without blanks is one run, unless it is empty. -/
theorem runs_of_forall {cs : List Char} (h : ∀ c ∈ cs, isBlank c = false) (hne : cs ≠ []) :
    runs cs = [cs] := by
  simp [runs, List.splitOnP_eq_singleton h, hne]

/-- A blank ends a run, and the rest of the text is cut for itself. -/
theorem runs_append_cons {cs : List Char} (h : ∀ c ∈ cs, isBlank c = false) (hne : cs ≠ [])
    {b : Char} (hb : isBlank b = true) (rest : List Char) :
    runs (cs ++ b :: rest) = cs :: runs rest := by
  simp [runs, List.splitOnP_append_cons_of_forall_mem h b hb, hne]

/-- The words of a text. -/
def words (s : String) : List String :=
  (runs s.toList).map String.ofList

end LeastSquares.Text
