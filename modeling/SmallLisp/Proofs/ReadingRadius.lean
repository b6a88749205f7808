import SmallLisp.Proofs.SingleRounding

namespace SmallLisp.Number

namespace Format

/-- The unit of double precision for the numbers from `2 ^ l` to `2 ^ (l + 1)` units of single
precision. -/
def fineUnit (k l : Nat) : Rat := double.unit (k + l + 873)

theorem double_count_bounds {l e a : Nat} (he : 51 = l + e) (hlow : 2 ^ (l + 1) < a)
    (hhigh : a < 2 ^ (l + 2)) : double.block < a * 2 ^ e ∧ a * 2 ^ e < 2 * double.block := by
  have hpow := Nat.two_pow_pos e
  have hblock : double.block = 2 ^ (l + 1) * 2 ^ e := by
    rw [← Nat.pow_add]
    change 2 ^ 52 = _
    congr 1
    omega
  have htop : 2 * double.block = 2 ^ (l + 2) * 2 ^ e := by
    rw [hblock]
    ring
  rw [htop, hblock]
  exact ⟨Nat.mul_lt_mul_of_pos_right hlow hpow, Nat.mul_lt_mul_of_pos_right hhigh hpow⟩

section

variable {k l a : Nat} (hk : k < 254) (hl : l < 24) (hlow : 2 ^ (l + 1) < a) (hhigh : a < 2 ^ (l + 2))

include hk hl hlow hhigh

/-- Between two powers of two, any number of halves of a unit of single precision has an even
rank in double precision, and neighbours at equal distances. -/
theorem exists_double_halves :
    ∃ r, r + 1 < double.infinity ∧ r % 2 = 1 ∧ double.value (r + 1) = a / 2 * single.unit k ∧
      double.midpoint r = a / 2 * single.unit k - fineUnit k l / 2 ∧
      double.midpoint (r + 1) = a / 2 * single.unit k + fineUnit k l / 2 := by
  obtain ⟨e, he⟩ := Nat.exists_eq_add_of_le (show l ≤ 51 by omega)
  obtain ⟨hl', hu'⟩ := double_count_bounds he hlow hhigh
  -- Double precision has at least 28 more bits, so the count of its units is even.
  have heven : a * 2 ^ e = a * 2 ^ (e - 1) * 2 := by
    rw [Nat.mul_assoc, ← Nat.pow_succ, Nat.succ_eq_add_one, Nat.sub_add_cancel (by omega)]
  have hbits : double.block = 0x10000000000000 := rfl
  have hinf : double.infinity = 0x7ff0000000000000 := rfl
  set c := a * 2 ^ e with hc
  obtain ⟨r, hr⟩ : ∃ r, (k + l + 873) * double.block + c = r + 1 :=
    Nat.exists_eq_succ_of_ne_zero (by omega)
  have hplace : double.Place (r + 1) (k + l + 873) c := ⟨hr.symm, hu', .inr hl'.le⟩
  have hunit : single.unit k = 2 ^ (e + 1) * double.unit (k + l + 873) := by
    rw [single_unit, ← unit_add]
    congr 1
    omega
  have hvalue : (c : Rat) * double.unit (k + l + 873) = a / 2 * single.unit k := by
    rw [hc, hunit]
    push_cast
    ring
  rw [hbits] at hr hu'
  refine ⟨r, by omega, by omega, hplace.value_eq.trans hvalue, ?_, ?_⟩
  · rw [hplace.midpoint_pred_of_lt (.inr hl'), ← hvalue, fineUnit]
    ring
  · rw [hplace.midpoint_eq, ← hvalue, fineUnit]
    ring

theorem value_nearest_le_halves_iff (x : Rat) :
    double.value (double.nearest x) ≤ a / 2 * single.unit k ↔
      x ≤ a / 2 * single.unit k + fineUnit k l / 2 := by
  obtain ⟨r, hr, hodd, hvalue, _, hafter⟩ := exists_double_halves hk hl hlow hhigh
  rw [← hafter, ← hvalue, double.value_strictMono.le_iff_le, nearest_le_iff_of_even hr x (by omega)]

theorem value_nearest_lt_halves_iff (x : Rat) :
    double.value (double.nearest x) < a / 2 * single.unit k ↔
      x < a / 2 * single.unit k - fineUnit k l / 2 := by
  obtain ⟨r, hr, hodd, hvalue, hbefore, _⟩ := exists_double_halves hk hl hlow hhigh
  rw [← hbefore, ← hvalue, double.value_strictMono.lt_iff_lt, Nat.lt_succ_iff,
    nearest_le_iff_of_odd (Nat.lt_of_succ_lt hr) x hodd]

end

theorem Place.single_bounds {rank k m : Nat} (p : single.Place rank k m) (h : rank < single.infinity) :
    k < 254 ∧ m < 2 ^ 24 := by
  have hblock : single.block = 2 ^ 23 := rfl
  have hinf : single.infinity = 255 * 2 ^ 23 := rfl
  have hrank := p.rank_eq
  have hcount := p.count_lt
  have hfirst := p.block_le
  rw [hblock] at hrank hcount hfirst
  omega

end Format

open Format

section

variable {s k m : Nat} (p : single.Place (s + 1) k m)

include p

theorem midpoint_after : single.midpoint (s + 1) = (2 * m + 1 : Nat) / 2 * single.unit k := by
  rw [p.midpoint_eq]
  push_cast
  ring

variable {l : Nat} (hlow : 2 ^ l < m)

include hlow

theorem doublings_lt (h : s + 1 < single.infinity) : k < 254 ∧ l < 24 := by
  obtain ⟨hk, hm⟩ := p.single_bounds h
  exact ⟨hk, (Nat.pow_lt_pow_iff_right (by decide)).mp (hlow.trans hm)⟩

variable (hhigh : m < 2 ^ (l + 1))

include hhigh

theorem block_lt_of_between : k = 0 ∨ single.block < m := by
  have hblock : single.block = 2 ^ 23 := rfl
  refine p.block_le.imp id fun hle => Nat.lt_of_le_of_ne hle fun heq => ?_
  rw [← heq, hblock] at hlow hhigh
  have := (Nat.pow_lt_pow_iff_right (by decide)).mp hlow
  have := (Nat.pow_lt_pow_iff_right (by decide)).mp hhigh
  omega

theorem midpoint_before : single.midpoint s = (2 * m - 1 : Nat) / 2 * single.unit k := by
  rw [p.midpoint_pred_of_lt (block_lt_of_between p hlow hhigh), Nat.cast_sub (by omega)]
  push_cast
  ring

end

theorem halves_between {m l : Nat} (hlow : 2 ^ l < m) (hhigh : m < 2 ^ (l + 1)) :
    2 ^ (l + 1) < 2 * m - 1 ∧ 2 * m + 1 < 2 ^ (l + 2) := by
  rw [Nat.pow_succ] at hhigh
  rw [Nat.pow_succ, Nat.pow_succ, Nat.pow_succ]
  omega

section

variable {s k m l : Nat} (p : single.Place (s + 1) k m) (h : s + 1 < single.infinity)
  (hlow : 2 ^ l < m) (hhigh : m < 2 ^ (l + 1))

include p h hlow hhigh

theorem twiceRounded_eq_iff_of_even (heven : (s + 1) % 2 = 0) (x : Rat) :
    twiceRounded x = s + 1 ↔ |x - single.value (s + 1)| ≤ (single.unit k + fineUnit k l) / 2 := by
  obtain ⟨hk, hl⟩ := doublings_lt p hlow h
  obtain ⟨hfirst, hlast⟩ := halves_between hlow hhigh
  rw [twiceRounded, nearest_eq_iff_of_even h _ heven, midpoint_after p, midpoint_before p hlow hhigh,
    value_nearest_le_halves_iff hk hl (by omega) hlast,
    value_nearest_lt_halves_iff hk hl hfirst (by omega), not_lt, p.value_eq, Nat.cast_sub (by omega),
    abs_le]
  push_cast
  constructor <;> rintro ⟨_, _⟩ <;> constructor <;> linarith

theorem twiceRounded_eq_iff_of_odd (hodd : (s + 1) % 2 = 1) (x : Rat) :
    twiceRounded x = s + 1 ↔ |x - single.value (s + 1)| < (single.unit k - fineUnit k l) / 2 := by
  obtain ⟨hk, hl⟩ := doublings_lt p hlow h
  obtain ⟨hfirst, hlast⟩ := halves_between hlow hhigh
  rw [twiceRounded, nearest_eq_iff_of_odd h _ hodd, midpoint_after p, midpoint_before p hlow hhigh,
    value_nearest_lt_halves_iff hk hl (by omega) hlast,
    value_nearest_le_halves_iff hk hl hfirst (by omega), not_le, p.value_eq, Nat.cast_sub (by omega),
    abs_lt]
  push_cast
  constructor <;> rintro ⟨_, _⟩ <;> constructor <;> linarith

/-- Away from the powers of two, what is read as a number of single precision depends on the
distance from it only. -/
theorem twiceRounded_of_nearer {x y : Rat} (hx : twiceRounded x = s + 1)
    (hy : |y - single.value (s + 1)| ≤ |x - single.value (s + 1)|) : twiceRounded y = s + 1 := by
  obtain heven | hodd := Nat.mod_two_eq_zero_or_one (s + 1)
  · rw [twiceRounded_eq_iff_of_even p h hlow hhigh heven] at hx ⊢
    exact hy.trans hx
  · rw [twiceRounded_eq_iff_of_odd p h hlow hhigh hodd] at hx ⊢
    exact hy.trans_lt hx

end

end SmallLisp.Number
