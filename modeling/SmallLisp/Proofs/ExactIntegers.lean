import SmallLisp.Operator.Comparison
import SmallLisp.Proofs.NearestRank

namespace SmallLisp

open Number

theorem Number.log2_lt_of_lt {n : Nat} (h : n < 2 ^ 53) : n.log2 < 1023 := by
  by_cases hn : n = 0
  · subst hn
    decide
  · have := (Nat.log2_lt hn).mpr h
    omega

theorem Number.Format.value_nearest_natCast {n : Nat} (h : n < 2 ^ 53) :
    Format.double.value (Format.double.nearest n) = n := by
  have hone : Format.double.unit 1074 = 1 := by rw [Format.unit, scale_eq_zpow]; rfl
  obtain ⟨rank, hrank⟩ := Format.exists_rank (f := .double) 1074 h
  rw [hone, mul_one] at hrank
  have hfinite : rank < Format.double.infinity := by
    refine not_le.mp fun hle => (Format.nearest_natCast_lt (log2_lt_of_lt h)).not_ge ?_
    rw [← hrank]
    calc Format.double.infinity = Format.double.nearest (Format.double.value Format.double.infinity) :=
          (Format.nearest_value le_rfl).symm
      _ ≤ Format.double.nearest (Format.double.value rank) :=
          Format.double.nearest_mono (Format.double.value_strictMono.monotone hle)
  rw [← hrank, Format.nearest_value hfinite.le]

namespace Double

theorem value_ofRat_intCast (zeroNegative : Bool) {n : Int} (h : n.natAbs < 2 ^ 53) :
    (ofRat zeroNegative n).value = n := by
  have hvalue : (ofRat zeroNegative n).value =
      if (if (n : Rat) = 0 then zeroNegative else decide ((n : Rat) < 0)) = true
      then -(n.natAbs : Rat) else n.natAbs := by
    rw [← Format.value_nearest_natCast h, ← magnitude_intCast]
    rfl
  rw [hvalue, Nat.cast_natAbs, Int.cast_abs]
  obtain hn | rfl | hn := lt_trichotomy n 0
  · have hn : (n : Rat) < 0 := by exact_mod_cast hn
    rw [if_neg hn.ne, if_pos (decide_eq_true hn), abs_of_neg hn, neg_neg]
  · simp
  · have hn : (0 : Rat) < n := by exact_mod_cast hn
    rw [if_neg hn.ne', if_neg (by simpa using hn.le), abs_of_pos hn]

def atPlace (p : Int) : Rat :=
  if p < 0 then -Format.double.value p.natAbs else Format.double.value p.natAbs

theorem value_of_place? {x : Double} {p : Int} (h : x.place? = some p) : x.value = atPlace p := by
  cases x with
  | nan => cases h
  | signed negative rank _ =>
    cases h
    cases negative with
    | false =>
      change Format.double.value rank = atPlace rank
      rw [atPlace, if_neg (by omega), Int.natAbs_natCast]
    | true =>
      change -Format.double.value rank = atPlace (-rank)
      rw [atPlace, Int.natAbs_neg, Int.natAbs_natCast]
      cases rank with
      | zero => rw [if_neg (by decide), Format.value_zero, neg_zero]
      | succ rank => rw [if_pos (by omega)]

theorem exists_place {x : Double} (h : x ≠ nan) : ∃ p, x.place? = some p := by
  cases x with
  | nan => exact absurd rfl h
  | signed negative rank _ => exact ⟨_, rfl⟩

theorem place?_ofRat_inj {m n : Int} (hm : m.natAbs < 2 ^ 53) (hn : n.natAbs < 2 ^ 53)
    (h : (ofRat false m).place? = (ofRat false n).place?) : m = n := by
  obtain ⟨p, hp⟩ := exists_place (x := ofRat false m) nofun
  have hvalue := (value_of_place? hp).trans (value_of_place? (h ▸ hp)).symm
  rw [value_ofRat_intCast false hm, value_ofRat_intCast false hn] at hvalue
  exact_mod_cast hvalue

end Double

theorem Operator.widen_of_natAbs_lt {n : Int} (h : n.natAbs < 2 ^ 53) :
    widen n = .ok (Double.ofRat false n) := by
  have hne := Double.ofInt?_ne_none (log2_lt_of_lt h)
  unfold Double.ofInt? at hne
  unfold widen Double.ofInt?
  dsimp only at hne ⊢
  split at hne
  · next hfinite => rw [if_pos hfinite]
  · exact absurd rfl hne

end SmallLisp
