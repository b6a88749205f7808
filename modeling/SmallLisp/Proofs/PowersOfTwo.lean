import SmallLisp.Proofs.DecimalGrid
import SmallLisp.Proofs.ReadingRadius

namespace SmallLisp.Number

open Format

/-- The least and the greatest number that are read as `2 ^ l` units of single precision after
`k` doublings. Below a power of two the numbers are closer together, in double precision and,
after a doubling, in single precision too. -/
def lowest (k l : Nat) : Rat := 2 ^ l * single.unit k - (single.unit (k - 1) + fineUnit k l / 2) / 2

def highest (k l : Nat) : Rat := 2 ^ l * single.unit k + (single.unit k + fineUnit k l) / 2

def powerRank (k l : Nat) : Nat := k * single.block + 2 ^ l

theorem powerRank_ne_zero (k l : Nat) : powerRank k l ≠ 0 :=
  (Nat.add_pos_right _ (Nat.two_pow_pos l)).ne'

structure IsPower (k l : Nat) : Prop where
  doublings_lt : k < 254
  exponent_lt : l < 24
  first : k = 0 ∨ l = 23

namespace IsPower

variable {k l : Nat} (hp : IsPower k l)

include hp

theorem place : single.Place (powerRank k l) k (2 ^ l) := by
  have hblock : single.block = 2 ^ 23 := rfl
  refine ⟨rfl, ?_, hp.first.imp id fun hl => ?_⟩
  · rw [hblock, ← Nat.pow_succ']
    exact Nat.pow_lt_pow_right (by decide) hp.exponent_lt
  · rw [hl, hblock]

theorem rank_lt : powerRank k l < single.infinity := by
  have hblock : single.block = 2 ^ 23 := rfl
  have hinf : single.infinity = 255 * 2 ^ 23 := rfl
  have hpow : 2 ^ l ≤ 2 ^ 23 := Nat.pow_le_pow_right (by decide) (Nat.le_of_lt_succ hp.exponent_lt)
  have hk := hp.doublings_lt
  rw [powerRank, hblock]
  omega

theorem le_midpoint_iff (x : Rat) :
    double.value (double.nearest x) ≤ single.midpoint (powerRank k l) ↔ x ≤ highest k l := by
  have hpow := Nat.two_pow_pos l
  have hmid : single.midpoint (powerRank k l) = (2 * 2 ^ l + 1 : Nat) / 2 * single.unit k := by
    rw [hp.place.midpoint_eq]
    push_cast
    ring
  have hhighest : highest k l = (2 * 2 ^ l + 1 : Nat) / 2 * single.unit k + fineUnit k l / 2 := by
    rw [highest]
    push_cast
    ring
  rw [hmid, hhighest, value_nearest_le_halves_iff hp.doublings_lt hp.exponent_lt]
  · rw [Nat.pow_succ]
    omega
  · rw [Nat.pow_succ, Nat.pow_succ]
    omega

omit hp in
theorem fineUnit_pred {j i : Nat} (h : k + l = j + i + 1) : fineUnit j i = fineUnit k l / 2 := by
  have hexponent : k + l + 873 = j + i + 873 + 1 := by omega
  rw [fineUnit, fineUnit, hexponent, double.unit_succ (j + i + 873)]
  ring

theorem lt_midpoint_iff {s : Nat} (hs : powerRank k l = s + 1) (hne : k + l ≠ 0) (x : Rat) :
    double.value (double.nearest x) < single.midpoint s ↔ x < lowest k l := by
  have hplace := hp.place
  have hk := hp.doublings_lt
  rw [hs] at hplace
  cases k with
  | zero =>
    -- Below the first doubling, only double precision changes its unit.
    obtain ⟨i, rfl⟩ : ∃ i, l = i + 1 := Nat.exists_eq_succ_of_ne_zero (by omega)
    have hpow := Nat.two_pow_pos i
    have hmid : single.midpoint s = (2 ^ (i + 2) - 1 : Nat) / 2 * single.unit 0 := by
      rw [hplace.midpoint_pred_of_lt (.inl rfl), Nat.cast_sub (Nat.two_pow_pos _)]
      push_cast
      ring
    have hlowest : lowest 0 (i + 1) = (2 ^ (i + 2) - 1 : Nat) / 2 * single.unit 0 - fineUnit 0 i / 2 := by
      rw [fineUnit_pred (Nat.add_assoc 0 i 1).symm, lowest, Nat.cast_sub (Nat.two_pow_pos _)]
      push_cast
      ring
    have hfour : 2 ^ (i + 2) = 2 ^ (i + 1) + 2 ^ (i + 1) := by ring
    have htwo : 2 ^ (i + 1) = 2 ^ i + 2 ^ i := by ring
    rw [hmid, hlowest, value_nearest_lt_halves_iff hk (Nat.lt_of_succ_lt hp.exponent_lt)] <;> omega
  | succ j =>
    -- Before the doubling, the numbers of single precision are half as far apart, too.
    obtain rfl := hp.first.resolve_left (Nat.succ_ne_zero j)
    have hmid : single.midpoint s = (2 ^ 25 - 1 : Nat) / 2 * single.unit j := by
      rw [hplace.midpoint_pred_of_eq (Nat.succ_ne_zero j) rfl, unit_succ]
      norm_num
      ring
    have hlowest : lowest (j + 1) 23 = (2 ^ 25 - 1 : Nat) / 2 * single.unit j - fineUnit j 23 / 2 := by
      rw [fineUnit_pred (by omega : j + 1 + 23 = j + 23 + 1), lowest, Nat.add_sub_cancel, unit_succ]
      norm_num
      ring
    rw [hmid, hlowest, value_nearest_lt_halves_iff (Nat.lt_of_succ_lt hk) (show 23 < 24 by decide)
      (by decide) (by decide)]

/-- The rank of a power of two is even, unless it is the least one. -/
theorem twiceRounded_eq_iff (hne : k + l ≠ 0) (x : Rat) :
    twiceRounded x = powerRank k l ↔ lowest k l ≤ x ∧ x ≤ highest k l := by
  have hrank := hp.rank_lt
  have hafter := hp.le_midpoint_iff x
  have heven : (powerRank k l) % 2 = 0 := by
    have hblock : single.block = 2 ^ 23 := rfl
    obtain ⟨i, rfl⟩ : ∃ i, l = i + 1 := Nat.exists_eq_succ_of_ne_zero fun hl => by
      have hfirst := hp.first
      omega
    rw [powerRank, hblock, Nat.pow_succ]
    omega
  obtain ⟨s, hs⟩ := Nat.exists_eq_succ_of_ne_zero (powerRank_ne_zero k l)
  have hbefore := hp.lt_midpoint_iff hs hne x
  rw [hs] at hrank hafter heven ⊢
  rw [twiceRounded, nearest_eq_iff_of_even hrank _ heven, hafter, hbefore, not_lt]

theorem abs_sub_le_unit {x : Rat} (h : lowest k l ≤ x ∧ x ≤ highest k l) :
    |x - 2 ^ l * single.unit k| ≤ single.unit k := by
  have hexponent := hp.exponent_lt
  have hpred := single.unit_mono (Nat.sub_le k 1)
  have hfine : fineUnit k l ≤ single.unit k := by
    rw [single_unit]
    exact double.unit_mono (by omega)
  have hpos := single.unit_pos k
  obtain ⟨hl, hu⟩ := h
  rw [lowest] at hl
  rw [highest] at hu
  rw [abs_le]
  constructor <;> linarith

end IsPower

def reaches (k l : Nat) (d : Decimal) : Bool := decide (lowest k l ≤ d.value ∧ d.value ≤ highest k l)

/-- Whether the numbers of up to eight digits that are read as the power of two have the rounded
one among them. Where a digit is worth more than two units, that needs no check. -/
def settled (k l : Nat) : Bool :=
  (List.range 8).all fun n => decide (2 * 10 ^ (n + 1) ≤ 2 ^ l) ||
    reaches k l (Decimal.significant (n + 1) (2 ^ l * single.unit k)) ||
      !(Decimal.around (n + 1) (2 ^ l * single.unit k)).any (reaches k l)

theorem settled_zero : ∀ l < 24, l = 0 ∨ settled 0 l = true := by decide +kernel

/-- Between the doublings, rounding misses a number that is read as the power of two only
three times. -/
theorem settled_block : ∀ k < 254, k ∈ [30, 213, 216] ∨ settled k 23 = true := by decide +kernel

section

variable {k l n : Nat} (hp : IsPower k l) (hne : k + l ≠ 0) (hsettled : settled k l = true) (hn : n < 8)

include hp hne hsettled hn

theorem significant_of_settled {d : Decimal}
    (hd : d ∈ Decimal.around (n + 1) (single.value (powerRank k l)))
    (hread : twiceRounded d.value = powerRank k l) :
    twiceRounded (Decimal.significant (n + 1) (single.value (powerRank k l))).value = powerRank k l := by
  obtain rfl | hother := eq_or_ne d (Decimal.significant (n + 1) (single.value (powerRank k l)))
  · exact hread
  have hpos : 0 < single.value (powerRank k l) := value_pos (powerRank_ne_zero k l)
  have hfar := Decimal.lt_mul_abs_sub hpos hd hother
  have hvalue : single.value (powerRank k l) = 2 ^ l * single.unit k := by
    rw [hp.place.value_eq]
    push_cast
    rfl
  rw [hvalue] at hd hfar ⊢
  rw [hp.twiceRounded_eq_iff hne] at hread ⊢
  have hnear := hp.abs_sub_le_unit hread
  -- With fewer digits, the number on the other side is too far away to be read as the power.
  have hcoarse : 2 ^ l < 2 * 10 ^ (n + 1) := by
    have hunit := single.unit_pos k
    have hlt : (2 : Rat) ^ l * single.unit k < 2 * 10 ^ (n + 1) * single.unit k := by
      calc (2 : Rat) ^ l * single.unit k < 10 ^ (n + 1) * (2 * |d.value - 2 ^ l * single.unit k|) := hfar
        _ ≤ 10 ^ (n + 1) * (2 * single.unit k) := by gcongr
        _ = 2 * 10 ^ (n + 1) * single.unit k := by ring
    exact_mod_cast lt_of_mul_lt_mul_right hlt hunit.le
  have hcheck := List.all_eq_true.mp hsettled n (List.mem_range.mpr hn)
  rw [Bool.or_eq_true, Bool.or_eq_true, decide_eq_true_eq] at hcheck
  obtain (hle | hreach) | hnone := hcheck
  · exact absurd hcoarse hle.not_gt
  · exact of_decide_eq_true hreach
  · rw [Bool.not_eq_true', List.any_eq_false] at hnone
    exact absurd (decide_eq_true hread) (hnone d hd)

end

end SmallLisp.Number
