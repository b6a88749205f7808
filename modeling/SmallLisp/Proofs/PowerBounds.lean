import Mathlib.Tactic.FieldSimp
import Mathlib.Tactic.Linarith
import SmallLisp.Number.Decimal
import SmallLisp.Proofs.DoubleRange

namespace SmallLisp.Number

theorem floor_le_roundHalfEven (x : Rat) : x.floor ≤ roundHalfEven x := by
  unfold roundHalfEven
  dsimp only
  split
  · exact le_rfl
  · split
    · omega
    · split <;> omega

theorem roundHalfEven_le_floor_iff (x : Rat) :
    roundHalfEven x ≤ x.floor ↔ x < x.floor + 1 / 2 ∨ x = x.floor + 1 / 2 ∧ x.floor % 2 = 0 := by
  have hhalf : mkRat 1 2 = 1 / 2 := by rw [Rat.mkRat_eq_div, Int.cast_one, Nat.cast_ofNat]
  unfold roundHalfEven
  rw [hhalf]
  dsimp only
  obtain hlt | heq | hgt := lt_trichotomy (x - x.floor) (1 / 2)
  · rw [if_pos hlt]
    exact iff_of_true le_rfl (.inl (by linarith))
  · have hx : x = x.floor + 1 / 2 := by linarith
    rw [if_neg heq.not_lt, if_neg heq.not_gt]
    have hle : x.floor % 2 = 0 ↔ x < x.floor + 1 / 2 ∨ x = x.floor + 1 / 2 ∧ x.floor % 2 = 0 :=
      ⟨fun h => .inr ⟨hx, h⟩, fun h => (h.resolve_left hx.not_lt).2⟩
    rw [← hle]
    split <;> omega
  · rw [if_neg hgt.not_gt, if_pos hgt]
    refine iff_of_false (by omega) ?_
    rintro (h | ⟨h, _⟩) <;> linarith

theorem roundHalfEven_le_iff (x : Rat) (n : Int) :
    roundHalfEven x ≤ n ↔ x < n + 1 / 2 ∨ x = n + 1 / 2 ∧ n % 2 = 0 := by
  obtain hn | rfl | hn := lt_trichotomy n x.floor
  · have hle : ((n + 1 : Int) : Rat) ≤ x := le_trans (by exact_mod_cast hn) (Rat.floor_le x)
    rw [Int.cast_add, Int.cast_one] at hle
    have hfloor := floor_le_roundHalfEven x
    refine iff_of_false (by omega) ?_
    rintro (h | ⟨h, _⟩) <;> linarith
  · exact roundHalfEven_le_floor_iff x
  · have hlt : x < n := lt_of_lt_of_le (Rat.lt_floor_add_one x) (by exact_mod_cast hn)
    have hround := roundHalfEven_le x
    exact iff_of_true (by omega) (.inl (by linarith))

theorem scale_pos {base : Nat} (hb : 0 < base) (e : Int) : 0 < scale base e := by
  rw [scale_eq_zpow]
  positivity

theorem scale_natCast (base n : Nat) : scale base n = (base : Rat) ^ n := by
  rw [scale_eq_zpow, zpow_natCast]

theorem scale_add {base : Nat} (hb : base ≠ 0) (d e : Int) :
    scale base (d + e) = scale base d * scale base e := by
  rw [scale_eq_zpow, scale_eq_zpow, scale_eq_zpow, zpow_add₀ (by exact_mod_cast hb)]

theorem decimalLog_spec {n : Nat} (hn : n ≠ 0) : 10 ^ decimalLog n ≤ n ∧ n < 10 ^ (decimalLog n + 1) := by
  fun_induction decimalLog n with
  | case1 n h => exact ⟨Nat.one_le_iff_ne_zero.mpr hn, h⟩
  | case2 n h ih =>
    obtain ⟨hl, hu⟩ := ih (by omega)
    rw [Nat.pow_succ] at *
    omega

theorem natAbs_num_div_den {x : Rat} (hx : 0 < x) : (x.num.natAbs : Rat) / x.den = x := by
  have hnum : ((x.num.natAbs : Int) : Rat) = x.num := by
    rw [Int.natAbs_of_nonneg (Rat.num_nonneg.mpr hx.le)]
  rw [← Int.cast_natCast, hnum, Rat.num_div_den]

section

variable {base : Nat} (hb : 1 < base) {x : Rat} (hx : 0 < x)

include hb hx

theorem between_powers {i j : Nat} (hi : base ^ i ≤ x.num.natAbs ∧ x.num.natAbs < base ^ (i + 1))
    (hj : base ^ j ≤ x.den ∧ x.den < base ^ (j + 1)) :
    scale base ((i : Int) - j - 1) ≤ x ∧ x < scale base ((i : Int) - j + 1) := by
  have hbase : (0 : Rat) < base := by exact_mod_cast Nat.lt_of_succ_lt hb
  have hden : (0 : Rat) < x.den := by exact_mod_cast x.den_pos
  have hi : (base : Rat) ^ i ≤ x.num.natAbs ∧ (x.num.natAbs : Rat) < base ^ (i + 1) := by
    exact_mod_cast hi
  have hj : (base : Rat) ^ j ≤ x.den ∧ (x.den : Rat) < base ^ (j + 1) := by exact_mod_cast hj
  have hlow : scale base ((i : Int) - j - 1) = (base : Rat) ^ i / base ^ (j + 1) := by
    rw [scale_eq_zpow, Int.sub_sub, zpow_sub₀ hbase.ne']
    norm_cast
  have hhigh : scale base ((i : Int) - j + 1) = (base : Rat) ^ (i + 1) / base ^ j := by
    rw [scale_eq_zpow, sub_add_eq_add_sub, zpow_sub₀ hbase.ne']
    norm_cast
  rw [hlow, hhigh, ← natAbs_num_div_den hx]
  constructor
  · gcongr
    · exact hi.1
    · exact hj.2.le
  · gcongr
    · exact hi.2
    · exact hj.1

theorem exponent_spec {i j : Nat} (hi : base ^ i ≤ x.num.natAbs ∧ x.num.natAbs < base ^ (i + 1))
    (hj : base ^ j ≤ x.den ∧ x.den < base ^ (j + 1)) {e : Int}
    (he : e = if scale base ((i : Int) - j) ≤ x then (i : Int) - j else (i : Int) - j - 1) :
    scale base e ≤ x ∧ x < scale base (e + 1) := by
  obtain ⟨hl, hu⟩ := between_powers hb hx hi hj
  split at he
  · next h =>
    subst he
    exact ⟨h, hu⟩
  · next h =>
    subst he
    rw [Int.sub_add_cancel]
    exact ⟨hl, not_le.mp h⟩

end

section

variable {x : Rat} (hx : 0 < x)

include hx

theorem num_natAbs_ne_zero : x.num.natAbs ≠ 0 :=
  Int.natAbs_ne_zero.mpr (Rat.num_pos.mpr hx).ne'

theorem binaryExponent_spec : scale 2 (binaryExponent x) ≤ x ∧ x < scale 2 (binaryExponent x + 1) :=
  exponent_spec (by decide) hx ⟨Nat.log2_self_le (num_natAbs_ne_zero hx), Nat.lt_log2_self⟩
    ⟨Nat.log2_self_le x.den_nz, Nat.lt_log2_self⟩ rfl

theorem decimalExponent_spec :
    scale 10 (decimalExponent x) ≤ x ∧ x < scale 10 (decimalExponent x + 1) :=
  exponent_spec (by decide) hx (decimalLog_spec (num_natAbs_ne_zero hx)) (decimalLog_spec x.den_nz) rfl

end

end SmallLisp.Number
