import SmallLisp.Number.Decimal
import SmallLisp.Proofs.NearestError

namespace SmallLisp

namespace Number

/-- The rank of the single-precision number that a number becomes by way of double
precision. -/
def twiceRounded (x : Rat) : Nat := Format.single.nearest (Format.double.value (Format.double.nearest x))

theorem twiceRounded_mono : Monotone twiceRounded := fun _ _ h =>
  Format.single.nearest_mono (Format.double.value_strictMono.monotone (Format.double.nearest_mono h))

namespace Format

theorem single_unit (k : Nat) : single.unit k = double.unit (k + 925) := by
  have hexponent : single.minExponent + k = double.minExponent + (k + 925 : Nat) := by
    have hsingle : single.minExponent = -149 := rfl
    have hdouble : double.minExponent = -1074 := rfl
    omega
  rw [unit, unit, hexponent]

theorem single_value_lt_infinity {rank : Nat} (h : rank ≤ single.infinity) :
    single.value rank < double.value double.infinity :=
  (single.value_strictMono.monotone h).trans_lt (by decide +kernel)

variable {rank : Nat} (h : rank ≤ single.infinity)

include h

theorem exists_double : ∃ r < double.infinity, double.value r = single.value rank := by
  obtain ⟨k, m, p⟩ := single.exists_place rank
  have hm : m < 2 * double.block := p.count_lt.trans (by decide)
  obtain ⟨r, hr⟩ := double.exists_rank (k + 925) hm
  have hvalue : double.value r = single.value rank := by rw [hr, p.value_eq, single_unit]
  exact ⟨r, double.value_strictMono.lt_iff_lt.mp (hvalue ▸ single_value_lt_infinity h), hvalue⟩

theorem nearest_single_lt : double.nearest (single.value rank) < double.infinity := by
  obtain ⟨r, hr, hvalue⟩ := exists_double h
  rwa [← hvalue, nearest_value hr.le]

theorem value_nearest_single : double.value (double.nearest (single.value rank)) = single.value rank := by
  obtain ⟨r, hr, hvalue⟩ := exists_double h
  rw [← hvalue, nearest_value hr.le]

end Format

theorem twiceRounded_single {rank : Nat} (h : rank ≤ Format.single.infinity) :
    twiceRounded (Format.single.value rank) = rank := by
  rw [twiceRounded, Format.value_nearest_single h, Format.nearest_value h]

theorem pos_of_twiceRounded_ne_zero {x : Rat} (h : twiceRounded x ≠ 0) : 0 < x :=
  Format.pos_of_nearest_ne_zero fun hzero => h <| by
    rw [twiceRounded, hzero, Format.value_zero]
    exact if_pos le_rfl

theorem nearest_lt_of_twiceRounded_lt {x : Rat} (h : twiceRounded x < Format.single.infinity) :
    Format.double.nearest x < Format.double.infinity := by
  refine Nat.lt_of_le_of_ne (Format.nearest_le_infinity _ _) fun hinf => ?_
  rw [twiceRounded, hinf] at h
  exact absurd h (by decide +kernel)

/-- The first rounding at most doubles the error. -/
theorem abs_twice_sub_le {rank : Nat} (h : rank ≤ Format.single.infinity) (x : Rat) :
    |Format.double.value (Format.double.nearest x) - Format.single.value rank| ≤
      2 * |x - Format.single.value rank| := by
  have hnear := Format.abs_nearest_sub_le (x := x) (Format.nearest_single_lt h).le
  rw [Format.value_nearest_single h, abs_sub_comm (Format.single.value rank)] at hnear
  have htriangle := abs_sub_le (Format.double.value (Format.double.nearest x)) x (Format.single.value rank)
  linarith

theorem twiceRounded_eq_of_close {rank : Nat} (h : rank < Format.single.infinity) {x : Rat}
    (hx : |x - Format.single.value rank| * (8 * Format.single.block) < Format.single.value rank) :
    twiceRounded x = rank := by
  refine Format.nearest_eq_of_close h (lt_of_le_of_lt ?_ hx)
  calc _ ≤ 2 * |x - Format.single.value rank| * (4 * Format.single.block) := by
        gcongr
        exact abs_twice_sub_le h.le x
    _ = |x - Format.single.value rank| * (8 * Format.single.block) := by ring

end Number

namespace Double

open Number

/-- The number of single precision with a sign and a rank. -/
def ofSingle (negative : Bool) (rank : Nat) : Double :=
  signed negative (Format.double.nearest (Format.single.value rank)) (Format.nearest_le_infinity _ _)

/-- A finite number of single precision. -/
structure IsSingle (x : Double) : Prop where
  finite : x.isFinite
  magnitude_eq : ∃ rank < Format.single.infinity, x.magnitude = Format.single.value rank

theorem isSingle_ofSingle (negative : Bool) {rank : Nat} (h : rank < Format.single.infinity) :
    (ofSingle negative rank).IsSingle :=
  ⟨decide_eq_true (Format.nearest_single_lt h.le), rank, h, Format.value_nearest_single h.le⟩

theorem IsSingle.exists_rank {x : Double} (hx : x.IsSingle) :
    ∃ negative, ∃ rank < Format.single.infinity, x = ofSingle negative rank := by
  obtain ⟨hfinite, rank, hrank, hmagnitude⟩ := hx
  cases x with
  | nan => cases hfinite
  | signed negative r hr =>
    have hvalue : Format.double.value r = Format.single.value rank := hmagnitude
    have hnearest : r = Format.double.nearest (Format.single.value rank) := by
      rw [← hvalue, Format.nearest_value hr]
    subst hnearest
    exact ⟨negative, rank, hrank, rfl⟩

/-- What lies out of the range of single precision, and only that, becomes infinite. -/
theorem toSingle_signed (negative : Bool) (rank : Nat) (h : rank ≤ Format.double.infinity) :
    (signed negative rank h).toSingle =
      if Format.single.nearest (Format.double.value rank) = Format.single.infinity then infinity negative
      else ofSingle negative (Format.single.nearest (Format.double.value rank)) := by
  have hrank : ∀ r, ofRank negative (Format.double.nearest (Format.single.value r)) =
      ofSingle negative r := fun r => by
    unfold ofRank ofSingle
    congr 1
    exact Nat.min_eq_left (Format.nearest_le_infinity _ _)
  rw [← hrank]
  change (if rank = Format.double.infinity then _ else _) = _
  split
  · next heq =>
    subst heq
    rw [if_pos (by decide +kernel)]
    rfl
  · rfl

theorem isSingle_toSingle {x : Double} (h : x.toSingle.isFinite) : x.toSingle.IsSingle := by
  cases x with
  | nan => cases h
  | signed negative rank hrank =>
    rw [toSingle_signed] at h ⊢
    split at h
    · cases negative <;> exact absurd h (by decide)
    · next hne =>
      rw [if_neg hne]
      exact isSingle_ofSingle negative (Nat.lt_of_le_of_ne (Format.nearest_le_infinity _ _) hne)

theorem exists_toSingle_eq_signed (negative : Bool) (rank : Nat) (h : rank ≤ Format.double.infinity) :
    ∃ r hr, (signed negative rank h).toSingle = signed negative r hr := by
  rw [toSingle_signed]
  split
  · exact ⟨_, Nat.min_le_right _ _, rfl⟩
  · exact ⟨_, Format.nearest_le_infinity _ _, rfl⟩

theorem eq_signed_iff {negative : Bool} {a b : Nat} {ha hb} :
    (signed negative a ha).eq (signed negative b hb) ↔ signed negative a ha = signed negative b hb := by
  cases negative <;> simp [eq, compareWith, place?]

theorem ofSingle_inj {s t : Bool} {a b : Nat} (ha : a ≤ Format.single.infinity)
    (hb : b ≤ Format.single.infinity) : ofSingle s a = ofSingle t b ↔ s = t ∧ a = b := by
  constructor
  · intro h
    obtain ⟨hsign, hrank⟩ := signed.inj h
    refine ⟨hsign, Format.single.value_strictMono.injective ?_⟩
    rw [← Format.value_nearest_single ha, hrank, Format.value_nearest_single hb]
  · rintro ⟨rfl, rfl⟩
    rfl

variable {s t : Bool} {d : Decimal} {rank : Nat} (h : rank < Format.single.infinity)

include h

theorem toSingle_toDouble_iff :
    (d.toDouble s).toSingle = ofSingle t rank ↔ s = t ∧ twiceRounded d.value = rank := by
  rw [Decimal.toDouble, toSingle_signed]
  change (if twiceRounded d.value = Format.single.infinity then _
    else ofSingle s (twiceRounded d.value)) = _ ↔ _
  split
  · next hinf =>
    refine iff_of_false (fun heq => ?_) (fun heq => ?_)
    · have hfinite := (isSingle_ofSingle t h).finite
      rw [← heq] at hfinite
      cases s <;> exact absurd hfinite (by decide)
    · exact h.ne (heq.2.symm.trans hinf)
  · exact ofSingle_inj (Format.nearest_le_infinity _ _) h.le

theorem toSingle_toDouble_eq_iff :
    (d.toDouble s).toSingle.eq (ofSingle s rank) ↔ twiceRounded d.value = rank := by
  have hnarrow := toSingle_toDouble_iff (s := s) (t := s) (d := d) h
  obtain ⟨r, hr, hsigned⟩ := exists_toSingle_eq_signed s _ (Format.double.nearest_le_infinity d.value)
  rw [and_iff_right rfl] at hnarrow
  rw [← hnarrow, Decimal.toDouble, hsigned]
  exact eq_signed_iff

end Double

end SmallLisp
