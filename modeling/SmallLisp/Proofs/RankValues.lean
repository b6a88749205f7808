import Mathlib.Order.Monotone.Basic
import Mathlib.Tactic.Ring
import SmallLisp.Proofs.PowerBounds

namespace SmallLisp.Number.Format

variable (f : Format)

def block : Nat := 2 ^ f.fractionBits

def unit (k : Nat) : Rat := scale 2 (f.minExponent + k)

theorem block_pos : 0 < f.block := Nat.two_pow_pos _

theorem unit_pos (k : Nat) : 0 < f.unit k := scale_two_pos _

theorem unit_succ (k : Nat) : f.unit (k + 1) = 2 * f.unit k := by
  have htwo : scale 2 1 = 2 := by rw [scale_eq_zpow, zpow_one, Nat.cast_ofNat]
  rw [unit, unit, Nat.cast_succ, ← Int.add_assoc, scale_add two_ne_zero, htwo, mul_comm]

theorem unit_add (k j : Nat) : f.unit (k + j) = 2 ^ j * f.unit k := by
  induction j with
  | zero => rw [pow_zero, one_mul, Nat.add_zero]
  | succ j ih =>
    rw [← Nat.add_assoc, unit_succ, ih]
    ring

theorem unit_mono : Monotone f.unit := fun k k' h => by
  obtain ⟨j, rfl⟩ := Nat.exists_eq_add_of_le h
  rw [unit_add]
  exact le_mul_of_one_le_left (f.unit_pos k).le (one_le_pow₀ (by norm_num))

/-- A rank counts `count` units after `doublings` doublings. Only the ranks before the first
doubling have counts below a block. -/
structure Place (rank doublings count : Nat) : Prop where
  rank_eq : rank = doublings * f.block + count
  count_lt : count < 2 * f.block
  block_le : doublings = 0 ∨ f.block ≤ count

theorem exists_place (rank : Nat) : ∃ k m, f.Place rank k m := by
  have hdiv := Nat.div_add_mod rank f.block
  have hmod := Nat.mod_lt rank f.block_pos
  rw [mul_comm] at hdiv
  cases hk : rank / f.block with
  | zero =>
    rw [hk, zero_mul] at hdiv
    exact ⟨0, rank, by omega, by omega, .inl rfl⟩
  | succ k =>
    rw [hk, Nat.succ_mul] at hdiv
    exact ⟨k, f.block + rank % f.block, by omega, by omega, .inr (Nat.le_add_right _ _)⟩

theorem value_of_lt {rank : Nat} (h : rank < f.block) : f.value rank = rank * f.unit 0 := by
  have h : rank < Nat.pow 2 f.fractionBits := h
  rw [value, if_pos h, unit, Nat.cast_zero, Int.add_zero]

theorem value_of_le {k m : Nat} (hl : f.block ≤ m) (hu : m < 2 * f.block) :
    f.value (k * f.block + m) = m * f.unit k := by
  obtain ⟨j, rfl⟩ := Nat.exists_eq_add_of_le hl
  have hj : j < f.block := by omega
  have hrank : k * f.block + (f.block + j) = f.block * (k + 1) + j := by ring
  have hdiv : (k * f.block + (f.block + j)) / f.block = k + 1 := by
    rw [hrank, Nat.mul_add_div f.block_pos, Nat.div_eq_of_lt hj]
  have hmod : (k * f.block + (f.block + j)) % f.block = j := by
    rw [hrank, Nat.mul_add_mod, Nat.mod_eq_of_lt hj]
  have hge : ¬ k * f.block + (f.block + j) < f.block := by omega
  change (if _ < f.block then _ else ((f.block + _ % f.block : Nat) : Rat) *
    scale 2 (f.minExponent + (_ / f.block - 1 : Nat))) = _
  rw [if_neg hge, hdiv, hmod, Nat.add_sub_cancel, unit]

variable {f}

theorem value_eq {k m : Nat} (hm : m ≤ 2 * f.block) (hk : k = 0 ∨ f.block ≤ m) :
    f.value (k * f.block + m) = m * f.unit k := by
  obtain hlt | rfl := Nat.lt_or_eq_of_le hm
  · obtain hl | hl := Nat.lt_or_ge m f.block
    · obtain rfl := hk.resolve_right (Nat.not_le.mpr hl)
      rw [Nat.zero_mul, Nat.zero_add, f.value_of_lt hl]
    · exact f.value_of_le hl hlt
  · have hrank : k * f.block + 2 * f.block = (k + 1) * f.block + f.block := by ring
    rw [hrank, f.value_of_le le_rfl (by have := f.block_pos; omega), f.unit_succ]
    push_cast
    ring

namespace Place

variable {rank k m : Nat} (p : f.Place rank k m)

include p

theorem value_eq : f.value rank = m * f.unit k := by
  rw [p.rank_eq, Format.value_eq p.count_lt.le p.block_le]

theorem value_succ : f.value (rank + 1) = (m + 1) * f.unit k := by
  have hk : k = 0 ∨ f.block ≤ m + 1 := p.block_le.imp id Nat.le_succ_of_le
  rw [p.rank_eq, Nat.add_assoc, Format.value_eq p.count_lt hk, Nat.cast_succ]

end Place

variable (f) in
theorem value_strictMono : StrictMono f.value := by
  refine strictMono_nat_of_lt_succ fun rank => ?_
  obtain ⟨k, m, p⟩ := f.exists_place rank
  rw [p.value_eq, p.value_succ, add_mul, one_mul]
  exact lt_add_of_pos_right _ (f.unit_pos k)

variable (f) in
@[simp] theorem value_zero : f.value 0 = 0 := by
  rw [f.value_of_lt f.block_pos, Nat.cast_zero, zero_mul]

theorem value_nonneg (rank : Nat) : 0 ≤ f.value rank := by
  rw [← f.value_zero]
  exact f.value_strictMono.monotone (Nat.zero_le rank)

theorem value_pos {rank : Nat} (h : rank ≠ 0) : 0 < f.value rank := by
  rw [← f.value_zero]
  exact f.value_strictMono (Nat.pos_of_ne_zero h)

variable (f) in
def midpoint (rank : Nat) : Rat := (f.value rank + f.value (rank + 1)) / 2

theorem Place.midpoint_eq {rank k m : Nat} (p : f.Place rank k m) :
    f.midpoint rank = (m + 1 / 2) * f.unit k := by
  rw [midpoint, p.value_eq, p.value_succ]
  ring

theorem value_lt_midpoint (rank : Nat) : f.value rank < f.midpoint rank := by
  have h := f.value_strictMono (Nat.lt_succ_self rank)
  rw [midpoint]
  linarith

theorem midpoint_lt_value (rank : Nat) : f.midpoint rank < f.value (rank + 1) := by
  have h := f.value_strictMono (Nat.lt_succ_self rank)
  rw [midpoint]
  linarith

theorem exists_rank (k : Nat) {n : Nat} (hn : n < 2 * f.block) : ∃ rank, f.value rank = n * f.unit k := by
  induction k generalizing n with
  | zero => exact ⟨0 * f.block + n, Format.value_eq hn.le (.inl rfl)⟩
  | succ k ih =>
    obtain hl | hl := Nat.lt_or_ge n f.block
    · obtain ⟨rank, hrank⟩ := ih (n := 2 * n) (by omega)
      refine ⟨rank, ?_⟩
      rw [hrank, f.unit_succ]
      push_cast
      ring
    · exact ⟨(k + 1) * f.block + n, Format.value_eq hn.le (.inr hl)⟩

end SmallLisp.Number.Format
