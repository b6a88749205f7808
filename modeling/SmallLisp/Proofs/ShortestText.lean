import SmallLisp.Proofs.DecimalGrid
import SmallLisp.Proofs.DecimalNotation
import SmallLisp.Proofs.NearestError

namespace SmallLisp

open Number

theorem findSome?_range'_eq_some {α : Type} {f : Nat → Option α} {a : α} {start size : Nat}
    (h : (List.range' start size).findSome? f = some a) :
    ∃ n ≥ start, f n = some a ∧ ∀ k, start ≤ k → k < n → f k = none := by
  induction size generalizing start with
  | zero => cases h
  | succ size ih =>
    rw [List.range'_succ, List.findSome?_cons] at h
    split at h
    · next b hb =>
      cases h
      exact ⟨start, le_rfl, hb, fun k hl hu => absurd hl (Nat.not_le.mpr hu)⟩
    · next hnone =>
      obtain ⟨n, hn, hf, hk⟩ := ih h
      refine ⟨n, Nat.le_of_succ_le hn, hf, fun k hl hu => ?_⟩
      obtain rfl | hl := Nat.eq_or_lt_of_le hl
      · exact hnone
      · exact hk k hl hu

namespace Decimal

theorem precision_congr {d d' : Decimal} (h : d.value = d'.value) : d.precision = d'.precision := by
  apply le_antisymm
  · exact precision_le_iff.mpr (h ▸ precision_le_iff.mp le_rfl)
  · exact precision_le_iff.mpr (h ▸ precision_le_iff.mp le_rfl)

theorem precision_pos {d : Decimal} (h : 0 < d.value) : 0 < d.precision := by
  refine Nat.pos_of_ne_zero fun hzero => ?_
  obtain ⟨m, hm, e, hvalue⟩ := precision_le_iff.mp hzero.le
  have hm : m = 0 := by
    rw [Nat.pow_zero] at hm
    omega
  rw [hvalue, hm, Nat.cast_zero, zero_mul] at h
  exact h.false

variable {rank : Nat} (hrank : rank < Format.double.infinity)

section

variable (hne : rank ≠ 0)

include hrank hne

theorem nearest_significant_seventeen :
    Format.double.nearest (significant 17 (Format.double.value rank)).value = rank := by
  have hblock : (4 : Rat) * Format.double.block < 2 * 10 ^ 16 := by decide +kernel
  exact Format.nearest_eq_of_close hrank (abs_significant_sub_mul_lt (Format.value_pos hne) hblock)

/-- The shortest number is one of the two with `n` digits, where no two numbers with fewer
digits are read as the rank. -/
theorem exists_shortest : ∃ n ≥ 1, shortest rank ∈ around n (Format.double.value rank) ∧
    Format.double.nearest (shortest rank).value = rank ∧
    ∀ k, 1 ≤ k → k < n →
      ∀ d ∈ around k (Format.double.value rank), Format.double.nearest d.value ≠ rank := by
  have hpos := Format.value_pos (f := .double) hne
  set x := Format.double.value rank
  have hreads : ∀ d, reads rank d = true ↔ Format.double.nearest d.value = rank := fun d => beq_iff_eq
  rw [shortest, if_neg hne]
  dsimp only
  cases hfind : (List.range' 1 17).findSome? fun n => (around n x).find? (reads rank) with
  | none =>
    have hnone := List.findSome?_eq_none_iff.mp hfind 17 (by decide)
    have hread := List.find?_eq_none.mp hnone _ (significant_mem_around hpos)
    exact absurd ((hreads _).mpr (nearest_significant_seventeen hrank hne)) hread
  | some d =>
    obtain ⟨n, hn, hd, hfewer⟩ := findSome?_range'_eq_some hfind
    have hread := (hreads d).mp (List.find?_some hd)
    refine ⟨n, hn, List.mem_of_find?_eq_some hd, hread, fun k hl hu d' hd' => ?_⟩
    exact fun h => List.find?_eq_none.mp (hfewer k hl hu) d' hd' ((hreads d').mpr h)

end

include hrank

theorem nearest_shortest : Format.double.nearest (shortest rank).value = rank := by
  obtain rfl | hne := eq_or_ne rank 0
  · decide +kernel
  · obtain ⟨n, _, _, hread, _⟩ := exists_shortest hrank hne
    exact hread

theorem precision_shortest_le {d : Decimal} (hd : Format.double.nearest d.value = rank) :
    (shortest rank).precision ≤ d.precision := by
  obtain rfl | hne := eq_or_ne rank 0
  · exact Nat.zero_le _
  · have hpos := Format.value_pos (f := .double) hne
    obtain ⟨n, hn, hmem, _, hfewer⟩ := exists_shortest hrank hne
    have hpos' : 0 < d.value := Format.pos_of_nearest_ne_zero (hd ▸ hne)
    obtain ⟨k, hk⟩ := Nat.exists_eq_succ_of_ne_zero (precision_pos hpos').ne'
    have hdigits : HasDigits (k + 1) d.value := precision_le_iff.mp hk.le
    have hself := Format.nearest_value hrank.le
    -- With fewer digits than the search needed, one of its candidates would have been read as the rank.
    obtain ⟨d', hd', hread⟩ :=
      exists_mem_around hpos Format.double.nearest_mono hdigits (hd.trans hself.symm)
    have hle : n ≤ d.precision := hk ▸ not_lt.mp fun hlt =>
      hfewer (k + 1) (Nat.succ_pos k) hlt d' hd' (hread.trans hself)
    obtain ⟨j, rfl⟩ := Nat.exists_eq_add_of_le' hn
    exact (precision_le_iff.mpr (hasDigits_of_mem_around hpos hmem)).trans hle

end Decimal

namespace Double

def ofText? (s : String) : Option Double :=
  (Decimal.ofText? s).map fun (negative, d) => d.toDouble negative

/-- The text of a finite number is read as that number, and no decimal number with fewer digits
than its text is. -/
theorem exists_text {x : Double} (h : x.isFinite) :
    ∃ d, Decimal.ofText? x.text = some (x.isNegative, d) ∧ d.toDouble x.isNegative = x ∧
      ∀ (negative : Bool) (d' : Decimal), d'.toDouble negative = x → d.precision ≤ d'.precision := by
  cases x with
  | nan => cases h
  | signed negative rank hrank =>
    have hlt : rank < Format.double.infinity := of_decide_eq_true h
    have htext : (signed negative rank hrank).text =
        Layout.standard.signed negative (Decimal.shortest rank) := if_neg hlt.ne
    obtain ⟨d, hread, hvalue⟩ := Decimal.ofText?_signed Layout.standard negative (Decimal.shortest rank)
    refine ⟨d, htext ▸ hread, ?_, fun t d' hd' => ?_⟩
    · unfold Decimal.toDouble
      congr 1
      rw [hvalue, Decimal.nearest_shortest hlt]
    · rw [Decimal.precision_congr hvalue]
      exact Decimal.precision_shortest_le hlt (signed.inj hd').2

end Double

end SmallLisp
