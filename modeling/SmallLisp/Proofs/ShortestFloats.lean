import SmallLisp.Proofs.PowersOfTwo
import SmallLisp.Proofs.PrintedFloats

namespace SmallLisp

open Number Number.Format

namespace Number

theorem between_or_isPower {rank k m : Nat} (p : single.Place rank k m) (h : rank < single.infinity)
    (hne : rank ≠ 0) : (∃ l, 2 ^ l < m ∧ m < 2 ^ (l + 1)) ∨ ∃ l, m = 2 ^ l ∧ IsPower k l := by
  obtain ⟨hk, hcount⟩ := p.single_bounds h
  have hrank := p.rank_eq
  have hm : m ≠ 0 := by
    rintro rfl
    obtain rfl := p.block_le.resolve_right (Nat.not_le.mpr single.block_pos)
    omega
  have hlow := Nat.log2_self_le hm
  have hhigh := Nat.lt_log2_self (n := m)
  have hexponent : m.log2 < 24 := (Nat.pow_lt_pow_iff_right (by decide)).mp (hlow.trans_lt hcount)
  obtain heq | hlt := Nat.eq_or_lt_of_le hlow
  · refine .inr ⟨m.log2, heq.symm, hk, hexponent, p.block_le.imp id fun hle => ?_⟩
    have hge : 23 < m.log2 + 1 := (Nat.pow_lt_pow_iff_right (by decide)).mp (hle.trans_lt hhigh)
    omega
  · exact .inl ⟨m.log2, hlt, hhigh⟩

/-- The three numbers for which rounding to eight digits gives another number, though the
neighbour with eight digits on the other side gives them back. -/
def exceptions : List Rat := [1 / 2 ^ 96, 2 ^ 87, 2 ^ 90]

theorem exceptions_eq : exceptions = [30, 213, 216].map fun k => single.value (powerRank k 23) := by
  decide +kernel

theorem least_single_rounded : ∀ n < 8, ∀ d ∈ Decimal.around (n + 1) (single.value 1),
    twiceRounded d.value = 1 → twiceRounded (Decimal.significant (n + 1) (single.value 1)).value = 1 := by
  decide +kernel

theorem twiceRounded_significant {rank n : Nat} {d : Decimal} (h : rank < single.infinity)
    (hne : rank ≠ 0) (hexception : single.value rank ∉ exceptions) (hn : n < 8)
    (hd : d ∈ Decimal.around (n + 1) (single.value rank)) (hread : twiceRounded d.value = rank) :
    twiceRounded (Decimal.significant (n + 1) (single.value rank)).value = rank := by
  have hpos := value_pos (f := single) hne
  obtain ⟨k, m, p⟩ := single.exists_place rank
  obtain ⟨l, hlow, hhigh⟩ | ⟨l, rfl, hp⟩ := between_or_isPower p h hne
  · obtain ⟨s, rfl⟩ := Nat.exists_eq_succ_of_ne_zero hne
    exact twiceRounded_of_nearer p h hlow hhigh hread
      ((Decimal.hasDigits_of_mem_around hpos hd).abs_significant_sub_le hpos)
  · obtain rfl := p.rank_eq
    obtain hzero | hpositive := Nat.eq_zero_or_pos (k + l)
    · obtain ⟨rfl, rfl⟩ := Nat.add_eq_zero_iff.mp hzero
      exact least_single_rounded n hn d hd hread
    · refine significant_of_settled hp hpositive.ne' ?_ hn hd hread
      obtain rfl | rfl := hp.first
      · exact (settled_zero l hp.exponent_lt).resolve_left (by omega)
      · refine (settled_block k hp.doublings_lt).resolve_left fun hk => hexception ?_
        rw [exceptions_eq]
        exact List.mem_map_of_mem (f := fun k => single.value (powerRank k 23)) hk

end Number

namespace Double

variable {negative : Bool} {rank n : Nat} {d : Decimal}

theorem Display.precision_le (hd : Display negative rank n d) (hne : rank ≠ 0) : d.precision ≤ n := by
  have hpos := value_pos (f := single) hne
  have hmem := Decimal.significant_mem_around hpos (n := n)
  obtain ⟨j, rfl⟩ := Nat.exists_eq_add_of_le' hd.pos
  exact (hd.shortest _ hd.nearest_eq.symm).trans
    (Decimal.precision_le_iff.mpr (Decimal.hasDigits_of_mem_around hpos hmem))

/-- Where rounding to fewer digits finds every number that other ways of shortening find, the
text is shortest. -/
theorem Display.precision_le_of_not_exception (hd : Display negative rank n d) (h : rank < single.infinity)
    (hne : rank ≠ 0) (hexception : single.value rank ∉ exceptions) {d' : Decimal}
    (hread : twiceRounded d'.value = rank) : d.precision ≤ d'.precision := by
  have hpos := value_pos (f := single) hne
  have hself := twiceRounded_single h.le
  have hpos' : 0 < d'.value := pos_of_twiceRounded_ne_zero (hread ▸ hne)
  obtain ⟨j, hj⟩ := Nat.exists_eq_succ_of_ne_zero (Decimal.precision_pos hpos').ne'
  refine not_lt.mp fun hlt => ?_
  have hn := hd.precision_le hne
  have hnine := hd.le_nine
  -- A shorter number would have been met with fewer digits, as one of the two around the exact one.
  obtain ⟨e, he, hreade⟩ := Decimal.exists_mem_around hpos twiceRounded_mono
    (Decimal.precision_le_iff.mp hj.le) (hread.trans hself.symm)
  refine hd.fewer (j + 1) (Nat.succ_pos j) (by omega) ?_
  exact twiceRounded_significant h hne hexception (by omega) he (hreade.trans hself)

/-- For each exception, a number of eight digits that is read as it, while no rounding to eight
digits or fewer is, and the text has nine digits. -/
theorem exists_shorter : ∀ k ∈ [30, 213, 216],
    ∃ d' ∈ ([⟨12621775, -36⟩, ⟨15474251, 19⟩, ⟨12379401, 20⟩] : List Decimal),
      twiceRounded d'.value = powerRank k 23 ∧
      (∀ j < 8, twiceRounded (Decimal.significant (j + 1) (single.value (powerRank k 23))).value ≠
        powerRank k 23) ∧
      d'.precision < (Decimal.shortest (double.nearest
        (Decimal.significant 9 (single.value (powerRank k 23))).value)).precision := by
  decide +kernel

theorem Display.exists_shorter_of_exception (hd : Display negative rank n d) (h : rank < single.infinity)
    (hexception : single.value rank ∈ exceptions) :
    ∃ d' : Decimal, twiceRounded d'.value = rank ∧ d'.precision < d.precision := by
  rw [exceptions_eq] at hexception
  obtain ⟨k, hk, hvalue⟩ := List.mem_map.mp hexception
  obtain rfl := single.value_strictMono.injective hvalue
  obtain ⟨d', _, hread, hmiss, hlong⟩ := exists_shorter k hk
  refine ⟨d', hread, hlong.trans_le ?_⟩
  have hround : twiceRounded (Decimal.significant n (single.value (powerRank k 23))).value =
      powerRank k 23 := by
    rw [twiceRounded, ← hd.nearest_eq]
    exact hd.rounded
  have hnine : n = 9 := by
    have hle := hd.le_nine
    have hpos := hd.pos
    refine by_contra fun hne => hmiss (n - 1) (by omega) ?_
    rwa [Nat.sub_add_cancel hpos]
  subst hnine
  rw [← hd.nearest_eq]
  exact Decimal.precision_shortest_le (nearest_lt_of_twiceRounded_lt (hd.rounded.symm ▸ h)) rfl

end Double

/-- The text of a number of single precision is the shortest that gives it back, except for
three powers of two. -/
theorem printed_floats_are_shortest_iff {x : Double} (hx : x.IsSingle) (hne : x.magnitude ≠ 0) :
    ∃ d, Decimal.ofText? x.display = some (x.isNegative, d) ∧
      ((∀ (negative : Bool) (d' : Decimal),
          (d'.toDouble negative).toSingle = x → d.precision ≤ d'.precision) ↔
        x.magnitude ≠ 1 / 2 ^ 96 ∧ x.magnitude ≠ 2 ^ 87 ∧ x.magnitude ≠ 2 ^ 90) := by
  obtain ⟨negative, rank, h, rfl⟩ := hx.exists_rank
  have hmagnitude : (Double.ofSingle negative rank).magnitude = single.value rank :=
    value_nearest_single h.le
  rw [hmagnitude] at hne ⊢
  have hrank : rank ≠ 0 := fun hzero => hne (by rw [hzero, value_zero])
  obtain ⟨n, d, hd⟩ := Double.exists_display negative h
  refine ⟨d, hd.reads, fun hshortest => ?_, fun hexception t d' hd' => ?_⟩
  · have hnot : single.value rank ∉ exceptions := fun hexception => by
      obtain ⟨d', hread, hshorter⟩ := hd.exists_shorter_of_exception h hexception
      have hle := hshortest negative d' ((Double.toSingle_toDouble_iff h).mpr ⟨rfl, hread⟩)
      exact hshorter.not_ge hle
    simpa [exceptions] using hnot
  · have hread := ((Double.toSingle_toDouble_iff h).mp hd').2
    exact hd.precision_le_of_not_exception h hrank (by simpa [exceptions] using hexception) hread

theorem text_of_third_is_shortest :
    ∃ d, Decimal.ofText? "0.33333334" = some (false, d) ∧
      ∀ (negative : Bool) (d' : Decimal),
        (d'.toDouble negative).toSingle = Double.ofSingle false 0x3eaaaaab →
          d.precision ≤ d'.precision := by
  have hsingle := Double.isSingle_ofSingle false (show 0x3eaaaaab < single.infinity by decide)
  have htext : (Double.ofSingle false 0x3eaaaaab).display = "0.33333334" := by decide +kernel
  obtain ⟨d, hread, hshortest⟩ := printed_floats_are_shortest_iff hsingle (by decide +kernel)
  exact ⟨d, htext ▸ hread, hshortest.mpr (by decide +kernel)⟩

/-- Eight digits are enough for the 90th power of two, though not after rounding to the nearest
eight digits. -/
theorem power_with_shorter_text :
    let x := Double.ofSingle false (217 * 2 ^ 23)
    let d : Decimal := ⟨12379401, 20⟩
    x.IsSingle ∧ x.magnitude = 2 ^ 90 ∧ x.display = "1.23794004e+27" ∧
      Decimal.ofText? x.display = some (false, ⟨123794004, 19⟩) ∧ (d.toDouble false).toSingle = x ∧
      d.precision < (Decimal.mk 123794004 19).precision := by
  intro x d
  have hsingle := Double.isSingle_ofSingle false (show 217 * 2 ^ 23 < single.infinity by decide)
  have htext : x.display = "1.23794004e+27" := by decide +kernel
  refine ⟨hsingle, by decide +kernel, htext, ?_, by decide +kernel, by decide +kernel⟩
  rw [htext]
  decide +kernel

end SmallLisp
