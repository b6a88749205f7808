import SmallLisp.Proofs.ShortestText
import SmallLisp.Proofs.SingleRounding

namespace SmallLisp

open Number

namespace Number

/-- Nine digits are enough to tell any two numbers of single precision apart, also by way of
double precision. -/
theorem twiceRounded_significant_nine {rank : Nat} (h : rank < Format.single.infinity) :
    twiceRounded (Decimal.significant 9 (Format.single.value rank)).value = rank := by
  obtain rfl | hne := eq_or_ne rank 0
  · rw [Format.value_zero]
    decide +kernel
  · have hblock : (8 : Rat) * Format.single.block < 2 * 10 ^ 8 := by decide +kernel
    exact twiceRounded_eq_of_close h (Decimal.abs_significant_sub_mul_lt (Format.value_pos hne) hblock)

end Number

namespace Double

/-- The text of a number of single precision stands for the number `d`: of all decimal numbers
that are read as the same double, one with the fewest digits. The double is that of the first
`n` digits that give back the number. -/
structure Display (negative : Bool) (rank n : Nat) (d : Decimal) : Prop where
  pos : 1 ≤ n
  le_nine : n ≤ 9
  found : (ofSingle negative rank).singleDecimal? =
    some (Decimal.significant n (Format.single.value rank))
  fewer : ∀ k, 1 ≤ k → k < n →
    twiceRounded (Decimal.significant k (Format.single.value rank)).value ≠ rank
  reads : Decimal.ofText? (ofSingle negative rank).display = some (negative, d)
  nearest_eq : Format.double.nearest d.value =
    Format.double.nearest (Decimal.significant n (Format.single.value rank)).value
  rounded : twiceRounded d.value = rank
  shortest : ∀ d' : Decimal, Format.double.nearest d'.value = Format.double.nearest d.value →
    d.precision ≤ d'.precision

section

variable (negative : Bool) {rank : Nat} (h : rank < Format.single.infinity)

include h

theorem exists_singleDecimal : ∃ n, 1 ≤ n ∧ n ≤ 9 ∧
    (ofSingle negative rank).singleDecimal? = some (Decimal.significant n (Format.single.value rank)) ∧
    twiceRounded (Decimal.significant n (Format.single.value rank)).value = rank ∧
    ∀ k, 1 ≤ k → k < n →
      twiceRounded (Decimal.significant k (Format.single.value rank)).value ≠ rank := by
  have hmagnitude : (ofSingle negative rank).magnitude = Format.single.value rank :=
    Format.value_nearest_single h.le
  have hgives : ∀ d : Decimal, (d.toDouble negative).toSingle.eq (ofSingle negative rank) ↔
      twiceRounded d.value = rank := fun d => toSingle_toDouble_eq_iff h
  unfold singleDecimal?
  rw [hmagnitude, List.find?_map]
  cases hfind : (List.range' 1 9).find? _ with
  | none =>
    have hnine := List.find?_eq_none.mp hfind 9 (by decide)
    exact absurd ((hgives _).mpr (twiceRounded_significant_nine h)) hnine
  | some n =>
    obtain ⟨hn, hmem, hfewer⟩ := List.find?_range'_eq_some.mp hfind
    rw [List.mem_range'_1] at hmem
    refine ⟨n, hmem.1, by omega, rfl, (hgives _).mp hn, fun k hl hu heq => ?_⟩
    have hk := hfewer k hl hu
    rw [Bool.not_eq_true'] at hk
    exact Bool.false_ne_true (hk.symm.trans ((hgives _).mpr heq))

theorem exists_display : ∃ n d, Display negative rank n d := by
  obtain ⟨n, hpos, hnine, hfound, hround, hfewer⟩ := exists_singleDecimal negative h
  set e := Decimal.significant n (Format.single.value rank)
  have hfinite : (e.toDouble negative).isFinite :=
    decide_eq_true (nearest_lt_of_twiceRounded_lt (hround ▸ h))
  have hdisplay : (ofSingle negative rank).display = (e.toDouble negative).text := by
    unfold display
    rw [if_pos (isSingle_ofSingle negative h).finite, hfound]
    rfl
  obtain ⟨d, hread, hdouble, hshortest⟩ := exists_text hfinite
  have hnearest : Format.double.nearest d.value = Format.double.nearest e.value := (signed.inj hdouble).2
  refine ⟨n, d, hpos, hnine, hfound, hfewer, hdisplay ▸ hread, hnearest, ?_, fun d' hd' => ?_⟩
  · rw [twiceRounded, hnearest]
    exact hround
  · refine hshortest negative d' ?_
    unfold Decimal.toDouble
    congr 1
    exact hd'.trans hnearest

end

theorem IsSingle.reads_back {x : Double} (hx : x.IsSingle) :
    ∃ y, ofText? x.display = some y ∧ y.toSingle = x := by
  obtain ⟨negative, rank, h, rfl⟩ := hx.exists_rank
  obtain ⟨n, d, hd⟩ := exists_display negative h
  have hnarrow := (toSingle_toDouble_iff (s := negative) h).mpr ⟨rfl, hd.rounded⟩
  exact ⟨d.toDouble negative, congrArg (Option.map _) hd.reads, hnarrow⟩

theorem rank_eq_of_eq {s t : Bool} {a b : Nat} {ha hb} (h : (signed s a ha).eq (signed t b hb)) :
    a = b := by
  have hplace : (if s then -(a : Int) else a) = if t then -(b : Int) else b := beq_iff_eq.mp h
  cases s <;> cases t <;> simp only [Bool.false_eq_true, if_true, if_false] at hplace <;> omega

theorem isSingle_of_toSingle_eq {x y : Double} (hx : x.isFinite) (h : y.toSingle.eq x) : x.IsSingle := by
  cases x with
  | nan => cases hx
  | signed t b hb =>
    cases hy : y.toSingle with
    | nan =>
      rw [hy] at h
      cases h
    | signed s a ha =>
      rw [hy] at h
      obtain rfl := rank_eq_of_eq h
      have hsingle := isSingle_toSingle (x := y) (hy ▸ hx)
      exact ⟨hx, (hy ▸ hsingle).magnitude_eq⟩

theorem toSingle_ofSingle (negative : Bool) {rank : Nat} (h : rank < Format.single.infinity) :
    (ofSingle negative rank).toSingle = ofSingle negative rank := by
  unfold ofSingle
  rw [toSingle_signed, Format.value_nearest_single h.le, Format.nearest_value h.le, if_neg h.ne]
  rfl

theorem isSingle_iff {x : Double} (hx : x.isFinite) : x.IsSingle ↔ x.toSingle = x := by
  constructor
  · intro h
    obtain ⟨negative, rank, hrank, rfl⟩ := h.exists_rank
    exact toSingle_ofSingle negative hrank
  · intro h
    exact h ▸ isSingle_toSingle (h.symm ▸ hx)

end Double

/-- A number of single precision is printed as a text that gives back this number, with its
sign, so no two of them have the same text. Other numbers have the shortest text that is read
as the number itself. -/
theorem printed_floats_read_back :
    (∀ x : Double, x.IsSingle →
      (∃ n, 1 ≤ n ∧ n ≤ 9 ∧
        ((Decimal.significant n x.magnitude).toDouble x.isNegative).toSingle.eq x ∧
        x.singleDecimal? = some (Decimal.significant n x.magnitude)) ∧
      ∃ y, Double.ofText? x.display = some y ∧ y.toSingle = x) ∧
    (∀ x y : Double, x.IsSingle → y.IsSingle → x.display = y.display → x = y) ∧
    ∀ x : Double, x.isFinite → ¬ x.IsSingle →
      (∀ n, ((Decimal.significant n x.magnitude).toDouble x.isNegative).toSingle.eq x = false) ∧
      x.display = x.text ∧
      ∃ d, Decimal.ofText? x.text = some (x.isNegative, d) ∧ d.toDouble x.isNegative = x ∧
        ∀ (negative : Bool) (d' : Decimal), d'.toDouble negative = x → d.precision ≤ d'.precision := by
  refine ⟨fun x hx => ⟨?_, hx.reads_back⟩, fun x y hx hy hxy => ?_, fun x hx hdouble => ?_⟩
  · obtain ⟨negative, rank, h, rfl⟩ := hx.exists_rank
    obtain ⟨n, hpos, hnine, hfound, hround, _⟩ := Double.exists_singleDecimal negative h
    have hmagnitude : (Double.ofSingle negative rank).magnitude = Format.single.value rank :=
      Format.value_nearest_single h.le
    rw [hmagnitude]
    exact ⟨n, hpos, hnine, (Double.toSingle_toDouble_eq_iff h).mpr hround, hfound⟩
  · obtain ⟨y', hy', hynarrow⟩ := hy.reads_back
    obtain ⟨x', hx', hxnarrow⟩ := hx.reads_back
    rw [hxy, hy'] at hx'
    rw [← hxnarrow, ← hynarrow, Option.some.inj hx']
  · have hnone : ∀ y : Double, y.toSingle.eq x = false := fun y =>
      Bool.eq_false_iff.mpr fun h => hdouble (Double.isSingle_of_toSingle_eq hx h)
    have hfound : x.singleDecimal? = none := by
      unfold Double.singleDecimal?
      rw [List.find?_eq_none]
      intro d _ h
      exact Bool.false_ne_true ((hnone _).symm.trans h)
    refine ⟨fun n => hnone _, ?_, Double.exists_text hx⟩
    unfold Double.display
    rw [if_pos hx, hfound]

theorem single_precision_at_its_edges :
    (∃ y, Double.ofText? "-1e-45" = some y ∧ y.toSingle = Double.ofSingle true 1) ∧
    (Double.zero true).display ≠ (Double.zero false).display ∧
    (Double.ofRat false (1 / 10)).display = (Double.ofRat false (1 / 10)).text := by
  have hleast := Double.isSingle_ofSingle true (show 1 < Format.single.infinity by decide)
  have hzeros : ∀ negative, (Double.zero negative).IsSingle := fun negative =>
    (Double.isSingle_iff (by cases negative <;> decide)).mpr (by cases negative <;> decide +kernel)
  have htenth : ¬ (Double.ofRat false (1 / 10)).IsSingle := by
    rw [Double.isSingle_iff (by decide +kernel)]
    decide +kernel
  have htext : (Double.ofSingle true 1).display = "-1e-45" := by decide +kernel
  obtain ⟨hread, hdistinct, hdouble⟩ := printed_floats_read_back
  refine ⟨htext ▸ (hread _ hleast).2, fun h => ?_, (hdouble _ (by decide +kernel) htenth).2.1⟩
  exact absurd (hdistinct _ _ (hzeros true) (hzeros false) h) (by decide)

end SmallLisp
