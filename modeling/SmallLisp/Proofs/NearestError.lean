import SmallLisp.Proofs.NearestRank

namespace SmallLisp.Number.Format

theorem pos_of_nearest_ne_zero {f : Format} {x : Rat} (h : f.nearest x ≠ 0) : 0 < x :=
  not_le.mp fun hx => h (if_pos hx)

variable {f : Format} [NeZero f.fractionBits] {rank : Nat} {x : Rat}

theorem abs_nearest_sub_le (h : rank ≤ f.infinity) :
    |f.value (f.nearest x) - x| ≤ |f.value rank - x| := by
  obtain hlt | heq | hgt := lt_trichotomy rank (f.nearest x)
  · obtain ⟨s, hs⟩ := Nat.exists_eq_succ_of_ne_zero (Nat.ne_zero_of_lt hlt)
    have hinf := f.nearest_le_infinity x
    have hmid : f.midpoint s ≤ x := not_lt.mp fun hx => by
      have := nearest_le_of_lt_midpoint (by omega) hx
      omega
    have hvalue := f.value_strictMono.monotone (show rank ≤ s by omega)
    have hstep := midpoint_lt_value (f := f) s
    rw [midpoint] at hmid hstep
    rw [hs, abs_of_nonpos (show f.value rank - x ≤ 0 by linarith), abs_le]
    constructor <;> linarith
  · rw [heq]
  · have hmid : x ≤ f.midpoint (f.nearest x) := not_lt.mp fun hx =>
      (lt_nearest_of_midpoint_lt (by omega) hx).false
    have hvalue := f.value_strictMono.monotone (Nat.succ_le_of_lt hgt)
    have hstep := value_lt_midpoint (f := f) (f.nearest x)
    rw [midpoint] at hmid hstep
    rw [abs_of_nonneg (show 0 ≤ f.value rank - x by linarith), abs_le]
    constructor <;> linarith

namespace Place

variable {k m s : Nat} (p : f.Place (s + 1) k m)

omit [NeZero f.fractionBits]

include p

theorem midpoint_pred_of_lt (hm : k = 0 ∨ f.block < m) : f.midpoint s = (m - 1 / 2) * f.unit k := by
  have hrank := p.rank_eq
  have hblock := f.block_pos
  obtain ⟨c, rfl⟩ : ∃ c, m = c + 1 := by
    obtain rfl | hm := hm
    · exact ⟨s, by omega⟩
    · exact ⟨m - 1, by omega⟩
  have hpred : f.Place s k c :=
    ⟨by omega, (Nat.lt_succ_self c).trans p.count_lt, hm.imp id Nat.le_of_lt_succ⟩
  rw [hpred.midpoint_eq]
  push_cast
  ring

/-- Below the first count after a doubling, the numbers are half as far apart. -/
theorem midpoint_pred_of_eq (hk : k ≠ 0) (hm : m = f.block) : f.midpoint s = (m - 1 / 4) * f.unit k := by
  have hrank := p.rank_eq
  have hblock := f.block_pos
  obtain ⟨j, rfl⟩ := Nat.exists_eq_succ_of_ne_zero hk
  rw [Nat.succ_mul] at hrank
  have hpred : f.Place s j (2 * f.block - 1) := ⟨by omega, by omega, .inr (by omega)⟩
  rw [hpred.midpoint_eq, f.unit_succ, hm, Nat.cast_sub (by omega)]
  push_cast
  ring

end Place

/-- A number whose relative error is at most a quarter of the last unit is taken back. -/
theorem nearest_eq_of_close (h : rank < f.infinity)
    (hx : |x - f.value rank| * (4 * f.block) < f.value rank) : f.nearest x = rank := by
  have hblock : (0 : Rat) < f.block := by exact_mod_cast f.block_pos
  have hpos : 0 < f.value rank := lt_of_le_of_lt (by positivity) hx
  obtain ⟨s, rfl⟩ := Nat.exists_eq_succ_of_ne_zero fun hzero : rank = 0 => by
    rw [hzero, value_zero] at hpos
    exact hpos.false
  obtain ⟨k, m, p⟩ := f.exists_place (s + 1)
  have hunit := f.unit_pos k
  have hcount : (m : Rat) ≤ 2 * f.block := by exact_mod_cast p.count_lt.le
  rw [Nat.succ_eq_add_one, p.value_eq] at hx
  have hhalf : |x - m * f.unit k| < f.unit k / 2 := by
    refine lt_of_mul_lt_mul_right (hx.trans_le ?_) (by positivity : 0 ≤ 4 * (f.block : Rat))
    calc (m : Rat) * f.unit k ≤ 2 * f.block * f.unit k := by gcongr
      _ = f.unit k / 2 * (4 * f.block) := by ring
  apply le_antisymm
  · refine nearest_le_of_lt_midpoint h ?_
    rw [p.midpoint_eq]
    linarith [lt_of_abs_lt hhalf]
  · refine lt_nearest_of_midpoint_lt (Nat.lt_of_succ_lt h) ?_
    by_cases hm : k = 0 ∨ f.block < m
    · rw [p.midpoint_pred_of_lt hm]
      linarith [neg_lt_of_abs_lt hhalf]
    · obtain ⟨hk, hle⟩ := not_or.mp hm
      have heq : m = f.block := le_antisymm (not_lt.mp hle) (p.block_le.resolve_left hk)
      have hquarter : |x - m * f.unit k| < f.unit k / 4 := by
        refine lt_of_mul_lt_mul_right (hx.trans_eq ?_) (by positivity : 0 ≤ 4 * (f.block : Rat))
        rw [heq]
        ring
      rw [p.midpoint_pred_of_eq hk heq]
      linarith [neg_lt_of_abs_lt hquarter]

end SmallLisp.Number.Format
