import Mathlib.Algebra.Order.Archimedean.Basic
import Mathlib.Tactic.Ring
import SmallLisp.Proofs.DecimalDigits

namespace SmallLisp

namespace Number

theorem abs_roundHalfEven_sub_le_half (x : Rat) : |(roundHalfEven x : Rat) - x| ≤ 1 / 2 := by
  have hu := (roundHalfEven_le_iff x (roundHalfEven x)).mp le_rfl
  have hl := (roundHalfEven_le_iff x (roundHalfEven x - 1)).not.mp (by omega)
  push_cast at hl
  rw [abs_le]
  constructor
  · obtain hu | ⟨hu, _⟩ := hu <;> linarith
  · have := not_lt.mp (not_or.mp hl).1
    linarith

theorem abs_roundHalfEven_sub_le (x : Rat) (n : Int) :
    |(roundHalfEven x : Rat) - x| ≤ |(n : Rat) - x| := by
  obtain rfl | hne := eq_or_ne n (roundHalfEven x)
  · exact le_rfl
  · have hhalf := abs_roundHalfEven_sub_le_half x
    have hone : (1 : Rat) ≤ |(n : Rat) - roundHalfEven x| := by
      exact_mod_cast Int.one_le_abs (sub_ne_zero.mpr hne)
    have htriangle := abs_sub_le (n : Rat) x (roundHalfEven x)
    rw [abs_sub_comm x] at htriangle
    linarith

theorem scale_ten_pos (e : Int) : 0 < scale 10 e := scale_pos (by decide) e

end Number

namespace Decimal

open Number

variable {n : Nat} {x : Rat}

def count (n : Nat) (x : Rat) : Nat := (x / scale 10 (lastPlace n x)).floor.toNat

def below (n : Nat) (x : Rat) : Decimal := ⟨count n x, lastPlace n x⟩

def above (n : Nat) (x : Rat) : Decimal := ⟨count n x + 1, lastPlace n x⟩

theorem mem_around (d : Decimal) : d ∈ around n x ↔ d = below n x ∨ d = above n x := by
  unfold around
  dsimp only
  split
  · rw [List.mem_pair, below, above, count]
  · rw [List.mem_pair, or_comm, below, above, count]

theorem hasDigits_of_le {m : Nat} (hm : m ≤ 10 ^ (n + 1)) (e : Int) :
    HasDigits (n + 1) (m * scale 10 e) := by
  obtain hlt | rfl := Nat.lt_or_eq_of_le hm
  · exact ⟨m, hlt, e, rfl⟩
  · refine ⟨1, Nat.one_lt_pow (Nat.succ_ne_zero n) (by decide), (n + 1 : Nat) + e, ?_⟩
    rw [scale_add (by decide), scale_natCast]
    push_cast
    ring

variable (hx : 0 < x)

include hx

theorem floor_nonneg (e : Int) : 0 ≤ (x / scale 10 e).floor :=
  Rat.le_floor_iff.mpr (by exact_mod_cast div_nonneg hx.le (scale_ten_pos e).le)

theorem count_cast : ((count n x : Nat) : Int) = (x / scale 10 (lastPlace n x)).floor := by
  rw [count, Int.toNat_of_nonneg (floor_nonneg hx _)]

theorem below_value_le : (below n x).value ≤ x := by
  change (count n x : Rat) * _ ≤ x
  rw [← le_div_iff₀ (scale_ten_pos _), ← Int.cast_natCast, count_cast hx]
  exact Rat.floor_le _

theorem lt_above_value : x < (above n x).value := by
  change x < ((count n x + 1 : Nat) : Rat) * _
  rw [← div_lt_iff₀ (scale_ten_pos _), ← Int.cast_natCast, Nat.cast_succ, count_cast hx]
  exact Rat.lt_floor_add_one _

theorem pow_mul_scale_lastPlace_le : (10 : Rat) ^ n * scale 10 (lastPlace (n + 1) x) ≤ x := by
  have hsum : (n : Int) + lastPlace (n + 1) x = decimalExponent x := by
    rw [lastPlace]
    omega
  have hscale := scale_add (show 10 ≠ 0 by decide) n (lastPlace (n + 1) x)
  rw [hsum, scale_natCast, Nat.cast_ofNat] at hscale
  exact hscale ▸ (decimalExponent_spec hx).1

theorem lt_pow_mul_scale_lastPlace : x < (10 : Rat) ^ n * scale 10 (lastPlace n x) := by
  have hsum : (n : Int) + lastPlace n x = decimalExponent x + 1 := by
    rw [lastPlace]
    omega
  have hscale := scale_add (show 10 ≠ 0 by decide) n (lastPlace n x)
  rw [hsum, scale_natCast, Nat.cast_ofNat] at hscale
  exact hscale ▸ (decimalExponent_spec hx).2

theorem le_count : 10 ^ n ≤ count (n + 1) x := by
  have hlt : (10 : Rat) ^ n * scale 10 (lastPlace (n + 1) x) < (above (n + 1) x).value :=
    (pow_mul_scale_lastPlace_le hx).trans_lt (lt_above_value hx)
  have hlt : (10 : Rat) ^ n < (count (n + 1) x + 1 : Nat) := lt_of_mul_lt_mul_right hlt (scale_ten_pos _).le
  exact Nat.le_of_lt_succ (by exact_mod_cast hlt)

theorem count_lt : count n x < 10 ^ n := by
  have hlt : (below n x).value < 10 ^ n * scale 10 (lastPlace n x) :=
    (below_value_le hx).trans_lt (lt_pow_mul_scale_lastPlace hx)
  have hlt : (count n x : Rat) < (10 : Rat) ^ n := lt_of_mul_lt_mul_right hlt (scale_ten_pos _).le
  exact_mod_cast hlt

theorem hasDigits_of_mem_around {d : Decimal} (hd : d ∈ around (n + 1) x) :
    HasDigits (n + 1) d.value := by
  obtain rfl | rfl := (mem_around d).mp hd
  · exact hasDigits_of_le (count_lt hx).le _
  · exact hasDigits_of_le (count_lt hx) _

theorem HasDigits.le_below_or_above_le {y : Rat} (hy : HasDigits (n + 1) y) :
    y ≤ (below (n + 1) x).value ∨ (above (n + 1) x).value ≤ y := by
  obtain ⟨m, hm, e, rfl⟩ := hy
  have hscale := scale_ten_pos (lastPlace (n + 1) x)
  obtain hle | hlt := le_or_gt (lastPlace (n + 1) x) e
  · obtain ⟨j, rfl⟩ := Int.le.dest hle
    have hvalue : (m : Rat) * scale 10 (lastPlace (n + 1) x + j) =
        (m * 10 ^ j : Nat) * scale 10 (lastPlace (n + 1) x) := by
      rw [scale_add (by decide), scale_natCast]
      push_cast
      ring
    rw [hvalue]
    refine (Nat.lt_or_ge (count (n + 1) x) (m * 10 ^ j)).symm.imp ?_ ?_ <;> intro h <;>
      exact mul_le_mul_of_nonneg_right (by exact_mod_cast h) hscale.le
  · -- A number with a finer last place has too few digits to reach `x`.
    obtain ⟨j, hj⟩ := Int.le.dest hlt
    left
    have hfine : scale 10 (lastPlace (n + 1) x) = scale 10 j * (10 * scale 10 e) := by
      rw [← hj, scale_add (by decide), scale_add (by decide), ← Int.natCast_one, scale_natCast 10 1]
      push_cast
      ring
    have hone : (1 : Rat) ≤ scale 10 j := by
      rw [scale_natCast]
      exact one_le_pow₀ (by norm_num)
    have hm : (m : Rat) ≤ 10 ^ n * 10 := by exact_mod_cast hm.le
    have hscale := scale_ten_pos e
    calc (m : Rat) * scale 10 e ≤ 10 ^ n * 10 * scale 10 e := by gcongr
      _ = 10 ^ n * (1 * (10 * scale 10 e)) := by ring
      _ ≤ 10 ^ n * (scale 10 j * (10 * scale 10 e)) := by gcongr
      _ = 10 ^ n * scale 10 (lastPlace (n + 1) x) := by rw [hfine]
      _ ≤ count (n + 1) x * scale 10 (lastPlace (n + 1) x) := by
        gcongr
        exact_mod_cast le_count hx

/-- Where a monotone reading takes some number of `n` digits to the same as `x`, it takes one
of the two around `x` there. -/
theorem exists_mem_around {F : Rat → Nat} (hF : Monotone F) {y : Rat} (hy : HasDigits (n + 1) y)
    (h : F y = F x) : ∃ d ∈ around (n + 1) x, F d.value = F x := by
  obtain hle | hle := hy.le_below_or_above_le hx
  · exact ⟨_, (mem_around _).mpr (.inl rfl), le_antisymm (hF (below_value_le hx)) (h ▸ hF hle)⟩
  · exact ⟨_, (mem_around _).mpr (.inr rfl), le_antisymm (h ▸ hF hle) (hF (lt_above_value hx).le)⟩

theorem significant_value :
    (significant n x).value = roundHalfEven (x / scale 10 (lastPlace n x)) * scale 10 (lastPlace n x) := by
  have hfloor := floor_le_roundHalfEven (x / scale 10 (lastPlace n x))
  have hnonneg := floor_nonneg hx (lastPlace n x)
  rw [significant, if_neg hx.not_ge, value]
  dsimp only
  rw [← Int.cast_natCast, Int.toNat_of_nonneg (hnonneg.trans hfloor)]

theorem significant_sub :
    (significant n x).value - x =
      (roundHalfEven (x / scale 10 (lastPlace n x)) - x / scale 10 (lastPlace n x)) *
        scale 10 (lastPlace n x) := by
  rw [significant_value hx, sub_mul, div_mul_cancel₀ _ (scale_ten_pos _).ne']

theorem significant_mem_around : significant n x ∈ around n x := by
  have hfloor := floor_le_roundHalfEven (x / scale 10 (lastPlace n x))
  have hround := roundHalfEven_le (x / scale 10 (lastPlace n x))
  have hnonneg := floor_nonneg hx (lastPlace n x)
  rw [mem_around, significant, if_neg hx.not_ge, below, above, count, mk.injEq, mk.injEq]
  omega

/-- The rounding error is at most half a unit of the last of `n + 1` digits. -/
theorem abs_significant_sub_le : |(significant (n + 1) x).value - x| * (2 * 10 ^ n) ≤ x := by
  have hhalf := abs_roundHalfEven_sub_le_half (x / scale 10 (lastPlace (n + 1) x))
  have hscale := scale_ten_pos (lastPlace (n + 1) x)
  rw [significant_sub hx, abs_mul, abs_of_pos hscale]
  calc _ ≤ 1 / 2 * scale 10 (lastPlace (n + 1) x) * (2 * 10 ^ n) := by gcongr
    _ = 10 ^ n * scale 10 (lastPlace (n + 1) x) := by ring
    _ ≤ x := pow_mul_scale_lastPlace_le hx

theorem abs_significant_sub_mul_lt {c : Rat} (hc : c < 2 * 10 ^ n) :
    |(significant (n + 1) x).value - x| * c < x := by
  obtain heq | hlt := (abs_nonneg ((significant (n + 1) x).value - x)).eq_or_lt
  · rw [← heq, zero_mul]
    exact hx
  · exact (mul_lt_mul_of_pos_left hc hlt).trans_le (abs_significant_sub_le hx)

theorem HasDigits.abs_significant_sub_le {y : Rat} (hy : HasDigits (n + 1) y) :
    |(significant (n + 1) x).value - x| ≤ |y - x| := by
  have hscale := scale_ten_pos (lastPlace (n + 1) x)
  have hnearest : ∀ m : Nat, |(significant (n + 1) x).value - x| ≤
      |(m : Rat) * scale 10 (lastPlace (n + 1) x) - x| := by
    intro m
    have hm : (m : Rat) * scale 10 (lastPlace (n + 1) x) - x =
        ((m : Int) - x / scale 10 (lastPlace (n + 1) x)) * scale 10 (lastPlace (n + 1) x) := by
      rw [sub_mul, div_mul_cancel₀ _ hscale.ne', Int.cast_natCast]
    rw [significant_sub hx, hm, abs_mul, abs_mul]
    exact mul_le_mul_of_nonneg_right (abs_roundHalfEven_sub_le _ _) (abs_nonneg _)
  have hbelow := below_value_le hx (n := n + 1)
  have habove := lt_above_value hx (n := n + 1)
  obtain hle | hle := hy.le_below_or_above_le hx
  · refine le_trans (b := |(below (n + 1) x).value - x|) (hnearest _) ?_
    rw [abs_of_nonpos (by linarith), abs_of_nonpos (by linarith)]
    linarith
  · refine le_trans (b := |(above (n + 1) x).value - x|) (hnearest _) ?_
    rw [abs_of_nonneg (by linarith), abs_of_nonneg (by linarith)]
    linarith

/-- The one of the two numbers around `x` that is not the rounded one is at least half a unit of
the last place away. -/
theorem lt_mul_abs_sub {d : Decimal} (hd : d ∈ around (n + 1) x) (hne : d ≠ significant (n + 1) x) :
    x < 10 ^ (n + 1) * (2 * |d.value - x|) := by
  have hnear := (hasDigits_of_mem_around hx hd).abs_significant_sub_le hx
  have hgap : (above (n + 1) x).value - (below (n + 1) x).value = scale 10 (lastPlace (n + 1) x) := by
    rw [above, below, value, value]
    push_cast
    ring
  have hapart : scale 10 (lastPlace (n + 1) x) = |d.value - (significant (n + 1) x).value| := by
    have hpos := scale_ten_pos (lastPlace (n + 1) x)
    have hmem := significant_mem_around hx (n := n + 1)
    rw [mem_around] at hd hmem
    obtain rfl | rfl := hd <;> obtain heq | heq := hmem
    · exact absurd heq.symm hne
    · rw [heq, abs_sub_comm, hgap, abs_of_pos hpos]
    · rw [heq, hgap, abs_of_pos hpos]
    · exact absurd heq.symm hne
  have htriangle := abs_sub_le d.value x (significant (n + 1) x).value
  rw [abs_sub_comm x] at htriangle
  calc x < 10 ^ (n + 1) * scale 10 (lastPlace (n + 1) x) := lt_pow_mul_scale_lastPlace hx
    _ ≤ 10 ^ (n + 1) * (2 * |d.value - x|) := by
      gcongr
      linarith

end Decimal

end SmallLisp
