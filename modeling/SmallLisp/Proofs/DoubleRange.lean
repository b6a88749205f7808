import Mathlib.Algebra.Order.Field.Power
import Mathlib.Data.Rat.Floor
import Mathlib.Tactic.NormNum
import SmallLisp.Number.Double

namespace SmallLisp

namespace Number

theorem scale_eq_zpow (base : Nat) (e : Int) : scale base e = (base : Rat) ^ e := by
  cases e with
  | ofNat e => simp [scale]
  | negSucc e =>
    rw [scale, Rat.mkRat_eq_div, zpow_negSucc, Nat.pow_eq]
    push_cast
    rw [one_div]

theorem scale_two_pos (e : Int) : 0 < scale 2 e := by
  rw [scale_eq_zpow]
  positivity

theorem roundHalfEven_le (x : Rat) : roundHalfEven x ≤ x.floor + 1 := by
  unfold roundHalfEven
  dsimp only
  split
  · omega
  · split
    · omega
    · split <;> omega

theorem binaryExponent_natCast {n : Nat} (hn : n ≠ 0) : binaryExponent (n : Rat) = n.log2 := by
  have hle : scale 2 (n.log2 : Int) ≤ (n : Rat) := by
    rw [scale_eq_zpow, zpow_natCast]
    exact_mod_cast Nat.log2_self_le hn
  unfold binaryExponent
  have hone : Nat.log2 1 = 0 := by decide
  simp only [Rat.num_natCast, Rat.den_natCast, Int.natAbs_natCast, hone, Nat.cast_zero, sub_zero,
    if_pos hle]

theorem div_scale_lt (n : Nat) : (n : Rat) / scale 2 (n.log2 - 52) < 2 ^ 53 := by
  rw [div_lt_iff₀ (scale_two_pos _), scale_eq_zpow]
  have hpow : (2 : Rat) ^ 53 * (2 : Rat) ^ ((n.log2 : Int) - 52) = 2 ^ (n.log2 + 1) := by
    rw [← zpow_natCast, ← zpow_natCast, ← zpow_add₀ (by norm_num)]
    congr 1
    push_cast
    omega
  rw [Nat.cast_ofNat, hpow]
  exact_mod_cast Nat.lt_log2_self

namespace Format

theorem nearest_natCast_lt {n : Nat} (h : n.log2 < 1023) :
    double.nearest (n : Rat) < double.infinity := by
  unfold nearest
  split
  · decide
  · next hn =>
    have hn : n ≠ 0 := fun hz => hn (by simp [hz])
    have he : max double.minExponent (binaryExponent (n : Rat) - double.fractionBits) =
        (n.log2 : Int) - 52 := by
      rw [binaryExponent_natCast hn]
      change max (-1074 : Int) ((n.log2 : Int) - 52) = _
      omega
    -- Rounding may give the next power of two, which takes the number of units to 2 ^ 53.
    have hunits : roundHalfEven ((n : Rat) / scale 2 (n.log2 - 52)) ≤ 2 ^ 53 := by
      have hfloor : ((n : Rat) / scale 2 (n.log2 - 52)).floor < 2 ^ 53 := by
        rw [Rat.floor_lt_iff]
        exact_mod_cast div_scale_lt n
      have hround := roundHalfEven_le ((n : Rat) / scale 2 (n.log2 - 52))
      omega
    dsimp only
    rw [he]
    refine Nat.lt_of_le_of_lt (Nat.min_le_right _ _) ?_
    change ((n.log2 : Int) - 52 - (-1074)).toNat * 2 ^ 52 + _ < 2047 * 2 ^ 52
    omega

end Format

end Number

namespace Double

theorem magnitude_intCast (n : Int) : (if (n : Rat) < 0 then -(n : Rat) else n) = (n.natAbs : Rat) := by
  obtain h0 | h0 := le_or_gt 0 n
  · have hcast : ((n.natAbs : Int) : Rat) = (n : Rat) := by rw [Int.natAbs_of_nonneg h0]
    rw [if_neg (by exact_mod_cast not_lt.mpr h0), ← hcast, Int.cast_natCast]
  · have hcast : ((n.natAbs : Int) : Rat) = -(n : Rat) := by
      rw [Int.ofNat_natAbs_of_nonpos h0.le, Int.cast_neg]
    rw [if_pos (by exact_mod_cast h0), ← hcast, Int.cast_natCast]

theorem ofInt?_ne_none {n : Int} (h : n.natAbs.log2 < 1023) : ofInt? n ≠ none := by
  have hfinite : (ofRat false (n : Rat)).isFinite = true := by
    unfold ofRat isFinite
    simp only [magnitude_intCast, decide_eq_true_eq]
    exact Number.Format.nearest_natCast_lt h
  simp only [ofInt?, hfinite, ↓reduceIte, ne_eq, reduceCtorEq, not_false_eq_true]

end Double

end SmallLisp
