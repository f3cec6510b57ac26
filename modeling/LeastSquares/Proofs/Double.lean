/-
LeastSquares.Proofs.Double — facts about IEEE doubles.

A double is a bit pattern, and there is one pattern for all that is no number. Its operations
unpack their operands into a sign, a mantissa and an exponent, compute exactly, round once and
pack the result. What is proved here is proved of the unpacked numbers; `unpack_pack` brings it
back to the doubles.

Unpacked numbers are more than doubles: any mantissa and any exponent are allowed. `IsDouble` is
the form that unpacking returns, with as many bits as the exponent lets a mantissa have, and what
has this form is packed without being changed.
-/
import Mathlib
import LeastSquares.Scalar

namespace LeastSquares.Double

open Float.Model Float.Model.UnpackedFloat

/-! ## Multiplication -/

/-- The sign of a product does not depend on the order of the factors. -/
theorem sign_mul_comm (s t : Sign) : s * t = t * s := by
  cases s <;> cases t <;> rfl

theorem unpacked_mul_comm (spec : Format) (a b : UnpackedFloat) :
    UnpackedFloat.mul spec a b = UnpackedFloat.mul spec b a := by
  cases a <;> cases b <;>
    simp [UnpackedFloat.mul, sign_mul_comm, Nat.mul_comm, Int.add_comm]

/-- Multiplication is commutative, also if the result is no number. -/
theorem mul_comm (a b : Float) : a * b = b * a :=
  congrArg (fun u => Float.ofModel (Float.Model.pack u)) (unpacked_mul_comm ..)

/-! ## Order -/

/-- The order of doubles is decided on the unpacked numbers. What is no number compares with
nothing, so the comparison has an optional result. -/
theorem lt_iff (a b : Float) :
    a < b ↔ UnpackedFloat.compare a.toModel.unpack b.toModel.unpack = some .lt := by
  show decide (UnpackedFloat.lt a.toModel.unpack b.toModel.unpack = true) = true ↔ _
  rw [decide_eq_true_iff, UnpackedFloat.lt]
  generalize UnpackedFloat.compare a.toModel.unpack b.toModel.unpack = order
  cases order with
  | none => decide
  | some o => cases o <;> decide

/-- What is no number has one form only. -/
theorem unpack_of_isNaN {x : Float} (h : x.isNaN = true) : x.toModel.unpack = .notANumber := by
  have hx : x.toModel.unpack.isNaN = true := h
  cases hu : x.toModel.unpack <;> simp_all [UnpackedFloat.isNaN]

/-- What is no number is not larger than anything. -/
theorem not_lt_of_isNaN {x : Float} (h : x.isNaN = true) (a : Float) : ¬ a < x := by
  rw [lt_iff, unpack_of_isNaN h]
  cases a.toModel.unpack <;> simp [UnpackedFloat.compare]

/-- What is no number is not smaller than anything. -/
theorem not_gt_of_isNaN {x : Float} (h : x.isNaN = true) (a : Float) : ¬ x < a := by
  rw [lt_iff, unpack_of_isNaN h]
  simp [UnpackedFloat.compare]

section Sign

variable {x y : Float} {m : Nat} {e : Int} {hm : 0 < m}

/-- A number that is not positive is smaller than any positive one. -/
theorem lt_of_not_pos (hy : y.toModel.unpack = .finite .positive m e hm) (hx : x.isNaN = false)
    (hpos : ¬ (0.0 : Float) < x) : x < y := by
  have hzero : (0.0 : Float).toModel.unpack = .zero .positive := rfl
  have hnan : x.toModel.unpack.isNaN = false := hx
  rw [lt_iff, hzero] at hpos
  rw [lt_iff, hy]
  match hu : x.toModel.unpack with
  | .notANumber => rw [hu] at hnan; contradiction
  | .infinity .negative => rfl
  | .infinity .positive => rw [hu] at hpos; exact absurd rfl hpos
  | .zero _ => rfl
  | .finite .negative _ _ _ => rfl
  | .finite .positive _ _ _ => rw [hu] at hpos; exact absurd rfl hpos

/-- What is not positive is not larger than a positive number. -/
theorem not_lt_of_not_pos (hy : y.toModel.unpack = .finite .positive m e hm)
    (hpos : ¬ (0.0 : Float) < x) : ¬ y < x := by
  have hzero : (0.0 : Float).toModel.unpack = .zero .positive := rfl
  rw [lt_iff, hzero] at hpos
  rw [lt_iff, hy]
  match hu : x.toModel.unpack with
  | .notANumber => nofun
  | .infinity .negative => nofun
  | .infinity .positive => rw [hu] at hpos; exact absurd rfl hpos
  | .zero _ => nofun
  | .finite .negative _ _ _ => nofun
  | .finite .positive _ _ _ => rw [hu] at hpos; exact absurd rfl hpos

end Sign

/-! ## Packing -/

/-- The mantissa has at most 53 bits, and it has fewer only at the smallest exponent. -/
def IsDouble : UnpackedFloat → Prop
  | .finite _ m e _ => m < 2 ^ 53 ∧ (2 ^ 52 ≤ m ∨ e = -1074) ∧ -1074 ≤ e ∧ e ≤ 971
  | _ => True

/-- A mantissa of 52 bits is stored, and the leading one is not. -/
theorem toNat_one_append (v : BitVec 52) : (1#1 ++ v).toNat = 2 ^ 52 + v.toNat := by
  rw [BitVec.toNat_append, ← Nat.shiftLeft_add_eq_or_of_lt v.isLt]
  rfl

/-- Unpacking a double returns its form. There are five kinds of bit patterns: with the largest
exponent field infinities and what is no number, with the smallest one zeros and the numbers without
a leading one, and all others. -/
theorem isDouble_unpack (x : Float) : IsDouble x.toModel.unpack := by
  have bias : ((Format.binary64.exponentBias : Nat) : Int) = 1023 := rfl
  unfold Float.Model.unpack UnpackedFloat.unpack
  dsimp only
  have hm : (@unpackMantissa .binary64 x.toModel.toBits.toBitVec).toNat < 2 ^ 52 :=
    BitVec.isLt _
  have he : (@unpackExponent .binary64 x.toModel.toBits.toBitVec).toNat < 2 ^ 11 :=
    BitVec.isLt _
  split_ifs with htop hzero hbottom hzero
  · trivial
  · trivial
  · trivial
  · have h0 : (@unpackExponent .binary64 x.toModel.toBits.toBitVec).toNat = 0 := by
      rw [hbottom]
      rfl
    simp only [IsDouble, bias, h0]
    omega
  · have h0 : (@unpackExponent .binary64 x.toModel.toBits.toBitVec).toNat ≠ 0 :=
      fun h => hbottom (BitVec.eq_of_toNat_eq h)
    have h1 : (@unpackExponent .binary64 x.toModel.toBits.toBitVec).toNat ≠ 2047 :=
      fun h => htop (BitVec.eq_of_toNat_eq h)
    simp only [IsDouble, bias, toNat_one_append]
    omega

/-- The sign is the first bit. -/
theorem unpackSign_packComponents (s : Sign) (exponent : BitVec 11) (mantissa : BitVec 52) :
    unpackSign (packComponents .binary64 s exponent mantissa) = s.toBitVec := by
  ext i hi
  obtain rfl : i = 0 := by omega
  simp [unpackSign, packComponents]
  rw [BitVec.getLsbD_append, if_neg (by decide), BitVec.getLsbD_append, if_neg (by decide)]
  rfl

/-- What has the form of a double comes back from its bit pattern. -/
theorem unpack_pack {u : UnpackedFloat} (h : IsDouble u) :
    UnpackedFloat.unpack .binary64 (UnpackedFloat.pack .binary64 u) = u := by
  have bits : Format.binary64.mantissaBits = 53 := rfl
  have sign (s : Sign) : Sign.ofBitVec s.toBitVec = s := by cases s <;> rfl
  match u with
  | .notANumber => rfl
  | .infinity s => cases s <;> rfl
  | .zero s => cases s <;> rfl
  | .finite s m e hpos =>
    obtain ⟨hlt, hlow, hmin, hmax⟩ := h
    have biased : (e + Format.binary64.exponentBias
        + Format.binary64.mantissaBitsWithoutImplicit).toNat = (e + 1075).toNat := by
      show (e + (1023 : Nat) + (52 : Nat)).toNat = _
      omega
    have finite {m' : Nat} {e' : Int} (hm' : m' = m) (he' : e' = e) (hpos' : 0 < m') :
        UnpackedFloat.finite s m' e' hpos' = .finite s m e hpos := by
      subst hm' he'
      rfl
    rw [UnpackedFloat.pack]
    simp only [biased, bits]
    rw [if_neg (by omega)]
    -- a mantissa of 53 bits is stored without the first one, a shorter one as it is
    by_cases hm : 2 ^ 52 ≤ m
    · have hlog : m.log2 = 52 := (Nat.log2_eq_iff hpos.ne').2 ⟨hm, hlt⟩
      have exponent : (BitVec.ofNat 11 (e + 1075).toNat).toNat = (e + 1075).toNat := by
        rw [BitVec.toNat_ofNat]
        omega
      have mantissa : 2 ^ 52 + (BitVec.ofNat 52 m).toNat = m := by
        rw [BitVec.toNat_ofNat]
        omega
      -- the exponent field is neither of the two that stand for something else
      have htop : BitVec.ofNat 11 (e + 1075).toNat ≠ -1#11 := fun h => by
        have hnat : (e + 1075).toNat = 2047 := exponent ▸ congrArg BitVec.toNat h
        omega
      have hbottom : BitVec.ofNat 11 (e + 1075).toNat ≠ 0#11 := fun h => by
        have hnat : (e + 1075).toNat = 0 := exponent ▸ congrArg BitVec.toNat h
        omega
      rw [if_pos (by rw [hlog]), UnpackedFloat.unpack]
      simp only [unpackMantissa_packComponents, unpackExponent_packComponents,
        unpackSign_packComponents, sign]
      rw [if_neg htop, if_neg hbottom]
      refine finite (by rw [toNat_one_append, mantissa]) ?_ _
      rw [exponent]
      show ((e + 1075).toNat : Int) - ((1023 : Nat) + (52 : Nat)) = e
      omega
    · have hlog : m.log2 < 52 := (Nat.log2_lt hpos.ne').2 (by omega)
      obtain rfl : e = -1074 := hlow.resolve_left hm
      have mantissa : (BitVec.ofNat 52 m).toNat = m := by
        rw [BitVec.toNat_ofNat]
        omega
      have hne : BitVec.ofNat 52 m ≠ 0#52 := fun h => by
        have hnat : m = 0 := mantissa ▸ congrArg BitVec.toNat h
        omega
      rw [if_neg (by omega), UnpackedFloat.unpack]
      simp only [unpackMantissa_packComponents, unpackExponent_packComponents,
        unpackSign_packComponents, sign]
      rw [if_neg (by decide), if_pos trivial, dif_neg hne]
      exact finite mantissa rfl _

end LeastSquares.Double
