import SmallLisp.Proofs.RankValues

namespace SmallLisp.Number.Format

instance : NeZero single.fractionBits := ⟨by decide⟩

instance : NeZero double.fractionBits := ⟨by decide⟩

variable {f : Format}

theorem scale_fractionBits : scale 2 f.fractionBits = f.block := by
  rw [scale_eq_zpow, zpow_natCast, block, Nat.cast_pow]

theorem nearest_eq_min {x : Rat} (hx : 0 < x) :
    ∃ k : Nat, (k = 0 ∨ (f.block : Rat) ≤ x / f.unit k) ∧ x / f.unit k < 2 * f.block ∧
      f.nearest x = min f.infinity (k * f.block + (roundHalfEven (x / f.unit k)).toNat) := by
  obtain ⟨hl, hu⟩ := binaryExponent_spec hx
  set e := max f.minExponent (binaryExponent x - f.fractionBits) with he
  have hk : f.minExponent + ((e - f.minExponent).toNat : Int) = e := by omega
  have hunit : f.unit (e - f.minExponent).toNat = scale 2 e := by rw [unit, hk]
  refine ⟨(e - f.minExponent).toNat, ?_, ?_, ?_⟩
  · by_cases h : e = f.minExponent
    · exact .inl (by omega)
    · right
      have hexp : binaryExponent x = e + f.fractionBits := by omega
      rw [hexp, scale_add two_ne_zero, scale_fractionBits] at hl
      rwa [hunit, le_div_iff₀ (scale_two_pos e), mul_comm]
  · have hexp : binaryExponent x + 1 ≤ e + (f.fractionBits + 1) := by omega
    have hle : scale 2 (binaryExponent x + 1) ≤ scale 2 (e + (f.fractionBits + 1)) := by
      rw [scale_eq_zpow, scale_eq_zpow]
      exact zpow_le_zpow_right₀ (by norm_num) hexp
    have htwo : scale 2 (e + (f.fractionBits + 1)) = 2 * f.block * scale 2 e := by
      rw [scale_add two_ne_zero, scale_add two_ne_zero, scale_fractionBits, scale_eq_zpow 2 1, zpow_one]
      push_cast
      ring
    rw [hunit, div_lt_iff₀ (scale_two_pos e), ← htwo]
    exact lt_of_lt_of_le hu hle
  · rw [hunit, nearest, if_neg (not_le.mpr hx)]
    rfl

theorem place_mod_two [NeZero f.fractionBits] {rank k m : Nat} (p : f.Place rank k m) :
    rank % 2 = m % 2 := by
  obtain ⟨b, hb⟩ := Nat.exists_eq_succ_of_ne_zero (NeZero.ne f.fractionBits)
  have hblock : f.block = 2 ^ b * 2 := by rw [block, hb, Nat.pow_succ]
  rw [p.rank_eq, hblock, ← Nat.mul_assoc]
  omega

/-- The nearest rank is at most `rank` up to the midpoint above it, and at the midpoint itself
for an even rank. -/
theorem nearest_le_iff [NeZero f.fractionBits] {rank : Nat} (h : rank < f.infinity) (x : Rat) :
    f.nearest x ≤ rank ↔ x < f.midpoint rank ∨ x = f.midpoint rank ∧ rank % 2 = 0 := by
  obtain hx | hx := le_or_gt x 0
  · have hzero : f.nearest x = 0 := if_pos hx
    rw [hzero]
    exact iff_of_true (Nat.zero_le _)
      (.inl (hx.trans_lt ((value_nonneg rank).trans_lt (value_lt_midpoint rank))))
  obtain ⟨k, hl, hu, hnearest⟩ := nearest_eq_min hx (f := f)
  obtain ⟨j, m, p⟩ := f.exists_place rank
  have hunit := f.unit_pos k
  set q := x / f.unit k with hq
  have hxq : x = q * f.unit k := (div_mul_cancel₀ x hunit.ne').symm
  have hpos : 0 < q := div_pos hx hunit
  -- The count of rounded units is in the range of a place, or the first one after it.
  have hnonneg : 0 ≤ roundHalfEven q := by
    have hfloor := floor_le_roundHalfEven q
    have := Rat.le_floor_iff.mpr (show ((0 : Int) : Rat) ≤ q by exact_mod_cast hpos.le)
    omega
  have htop : roundHalfEven q ≤ 2 * f.block :=
    (roundHalfEven_le_iff q _).mpr (.inl (by push_cast; linarith))
  have hbottom : k = 0 ∨ (f.block : Int) ≤ roundHalfEven q := by
    refine hl.imp id fun hl => ?_
    have hfloor := floor_le_roundHalfEven q
    have := Rat.le_floor_iff.mpr (show ((f.block : Int) : Rat) ≤ q by exact_mod_cast hl)
    omega
  rw [hnearest, min_le_iff, or_iff_right (Nat.not_le.mpr h)]
  obtain hlt | rfl | hgt := lt_trichotomy j k
  · have hprod := Nat.mul_le_mul_right f.block (Nat.succ_le_of_lt hlt)
    rw [Nat.succ_mul] at hprod
    have hrank := p.rank_eq
    have hcount := p.count_lt
    refine iff_of_false (by omega) ?_
    have hvalue : f.value (k * f.block + f.block) ≤ x := by
      rw [value_eq (by omega) (.inr le_rfl), hxq]
      exact mul_le_mul_of_nonneg_right (hl.resolve_left (by omega)) hunit.le
    have hle := f.value_strictMono.monotone (show rank + 1 ≤ k * f.block + f.block by omega)
    have hmid := midpoint_lt_value (f := f) rank
    rintro (hm | ⟨hm, _⟩) <;> linarith
  · rw [p.midpoint_eq, hxq, place_mod_two p, p.rank_eq, mul_lt_mul_iff_left₀ hunit,
      mul_left_inj' hunit.ne']
    have hround := roundHalfEven_le_iff q m
    push_cast at hround
    have hcount : j * f.block + (roundHalfEven q).toNat ≤ j * f.block + m ↔ roundHalfEven q ≤ m := by
      omega
    rw [hcount, hround]
    norm_cast
  · have hprod := Nat.mul_le_mul_right f.block (Nat.succ_le_of_lt hgt)
    rw [Nat.succ_mul] at hprod
    have hrank := p.rank_eq
    have hblock := p.block_le
    refine iff_of_true (by omega) (.inl ?_)
    have hvalue : x < f.value (k * f.block + 2 * f.block) := by
      rw [value_eq le_rfl (.inr (by have := f.block_pos; omega)), hxq]
      push_cast
      exact mul_lt_mul_of_pos_right hu hunit
    have hle := f.value_strictMono.monotone (show k * f.block + 2 * f.block ≤ rank by omega)
    have hmid := value_lt_midpoint (f := f) rank
    linarith

section

variable [NeZero f.fractionBits] {rank : Nat} {x : Rat}

theorem nearest_le_of_lt_midpoint (h : rank < f.infinity) (hx : x < f.midpoint rank) :
    f.nearest x ≤ rank :=
  (nearest_le_iff h x).mpr (.inl hx)

theorem lt_nearest_of_midpoint_lt (h : rank < f.infinity) (hx : f.midpoint rank < x) :
    rank < f.nearest x := by
  refine not_le.mp fun hle => ?_
  obtain hlt | ⟨heq, _⟩ := (nearest_le_iff h x).mp hle
  · exact hx.not_gt hlt
  · exact hx.ne' heq

variable (f) in
theorem nearest_mono : Monotone f.nearest := by
  intro x y hxy
  obtain hlt | heq := Nat.lt_or_eq_of_le (f.nearest_le_infinity y)
  · rw [nearest_le_iff hlt]
    obtain hy | ⟨hy, heven⟩ := (nearest_le_iff hlt y).mp le_rfl
    · exact .inl (hxy.trans_lt hy)
    · exact (hy ▸ hxy).lt_or_eq.imp id fun hx => ⟨hx, heven⟩
  · rw [heq]
    exact f.nearest_le_infinity x

theorem nearest_value (h : rank ≤ f.infinity) : f.nearest (f.value rank) = rank := by
  apply le_antisymm
  · obtain hlt | rfl := Nat.lt_or_eq_of_le h
    · exact nearest_le_of_lt_midpoint hlt (value_lt_midpoint rank)
    · exact f.nearest_le_infinity _
  · cases rank with
    | zero => exact Nat.zero_le _
    | succ rank => exact lt_nearest_of_midpoint_lt h (midpoint_lt_value rank)

end

section

variable [NeZero f.fractionBits] {rank : Nat} (h : rank < f.infinity) (x : Rat)

include h

theorem nearest_le_iff_of_even (heven : rank % 2 = 0) : f.nearest x ≤ rank ↔ x ≤ f.midpoint rank := by
  rw [nearest_le_iff h, and_iff_left heven, le_iff_lt_or_eq]

theorem nearest_le_iff_of_odd (hodd : rank % 2 = 1) : f.nearest x ≤ rank ↔ x < f.midpoint rank := by
  rw [nearest_le_iff h, or_iff_left]
  rintro ⟨_, heven⟩
  omega

end

section

variable [NeZero f.fractionBits] {s : Nat} (h : s + 1 < f.infinity) (x : Rat)

include h

/-- The numbers that are rounded to an even rank, with the midpoints on both sides of it. -/
theorem nearest_eq_iff_of_even (heven : (s + 1) % 2 = 0) :
    f.nearest x = s + 1 ↔ ¬ x < f.midpoint s ∧ x ≤ f.midpoint (s + 1) := by
  rw [← nearest_le_iff_of_even h x heven, ← nearest_le_iff_of_odd (Nat.lt_of_succ_lt h) x (by omega)]
  omega

theorem nearest_eq_iff_of_odd (hodd : (s + 1) % 2 = 1) :
    f.nearest x = s + 1 ↔ ¬ x ≤ f.midpoint s ∧ x < f.midpoint (s + 1) := by
  rw [← nearest_le_iff_of_odd h x hodd, ← nearest_le_iff_of_even (Nat.lt_of_succ_lt h) x (by omega)]
  omega

end

end SmallLisp.Number.Format
