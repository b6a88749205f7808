import Mathlib.Data.List.TakeWhile
import SmallLisp.Number.Layout
import SmallLisp.Proofs.PowerBounds

namespace SmallLisp

open Number

namespace Decimal

def precision (d : Decimal) : Nat := d.spread.1.length

/-- A number that is written with at most `n` significant digits. -/
def HasDigits (n : Nat) (x : Rat) : Prop := ∃ m < 10 ^ n, ∃ e : Int, x = (m : Nat) * scale 10 e

def strip (digits : List Char) : List Char := (digits.reverse.dropWhile (· == '0')).reverse

theorem strip_concat_zero (digits : List Char) : strip (digits ++ ['0']) = strip digits := by
  rw [strip, List.reverse_concat, List.dropWhile_cons_of_pos rfl, strip]

theorem exists_eq_strip_append (digits : List Char) :
    ∃ z, digits = strip digits ++ List.replicate z '0' := by
  have hsplit := List.takeWhile_append_dropWhile (p := (· == '0')) (l := digits.reverse)
  have hzeros : digits.reverse.takeWhile (· == '0') =
      List.replicate (digits.reverse.takeWhile (· == '0')).length '0' :=
    List.eq_replicate_iff.mpr
      ⟨rfl, fun c hc => beq_iff_eq.mp (List.mem_takeWhile_imp (p := (· == '0')) hc)⟩
  refine ⟨(digits.reverse.takeWhile (· == '0')).length, ?_⟩
  rw [← List.reverse_inj, List.reverse_append, List.reverse_replicate, ← hzeros, strip,
    List.reverse_reverse, hsplit]

theorem spread_eq (d : Decimal) :
    d.spread = (strip (Nat.toDigits 10 d.digits), d.exponent + (Nat.toDigits 10 d.digits).length) := rfl

theorem toDigits_mul_ten {n : Nat} (hn : 0 < n) : Nat.toDigits 10 (10 * n) = Nat.toDigits 10 n ++ ['0'] :=
  (Nat.toDigits_append_toDigits (b := 10) (d := 0) (by decide) hn (by decide)).symm

theorem strip_toDigits_mul_pow (m j : Nat) :
    strip (Nat.toDigits 10 (m * 10 ^ j)) = strip (Nat.toDigits 10 m) := by
  obtain rfl | hm := Nat.eq_zero_or_pos m
  · rw [Nat.zero_mul]
  induction j with
  | zero => rw [Nat.pow_zero, Nat.mul_one]
  | succ j ih =>
    have hpos : 0 < m * 10 ^ j := Nat.mul_pos hm (Nat.pow_pos (by decide))
    rw [Nat.pow_succ, ← Nat.mul_assoc, Nat.mul_comm _ 10, toDigits_mul_ten hpos, strip_concat_zero, ih]

theorem length_strip_le (digits : List Char) : (strip digits).length ≤ digits.length := by
  rw [strip, List.length_reverse]
  exact (List.dropWhile_sublist _).length_le.trans_eq List.length_reverse

theorem precision_le_of_digits {d : Decimal} {m j n : Nat} (hd : d.digits = m * 10 ^ j)
    (hm : m < 10 ^ n) : d.precision ≤ n := by
  rw [precision, spread_eq, hd]
  dsimp only
  rw [strip_toDigits_mul_pow]
  obtain rfl | hpos := Nat.eq_zero_or_pos m
  · exact Nat.zero_le n
  · have hn : 0 < n := Nat.pos_of_ne_zero fun hn => by
      rw [hn, Nat.pow_zero] at hm
      omega
    exact (length_strip_le _).trans ((Nat.length_toDigits_le_iff (by decide) hn).mpr hm)

theorem exists_spread (d : Decimal) : ∃ z : Nat,
    d.digits = Nat.ofDigitChars 10 d.spread.1 0 * 10 ^ z ∧
      d.spread.2 = d.exponent + d.spread.1.length + z := by
  obtain ⟨z, hz⟩ := exists_eq_strip_append (Nat.toDigits 10 d.digits)
  refine ⟨z, ?_, ?_⟩
  · have hdigits := Nat.ofDigitChars_ten_toDigits (n := d.digits)
    rw [hz, Nat.ofDigitChars_append, Nat.ofDigitChars_replicate_zero, Nat.mul_comm] at hdigits
    exact hdigits.symm
  · have hlength := congrArg List.length hz
    rw [List.length_append, List.length_replicate] at hlength
    rw [spread_eq]
    dsimp only
    omega

theorem value_eq_spread (d : Decimal) :
    d.value = Nat.ofDigitChars 10 d.spread.1 0 * scale 10 (d.spread.2 - d.spread.1.length) := by
  obtain ⟨z, hdigits, hplace⟩ := d.exists_spread
  have hexponent : d.spread.2 - d.spread.1.length = z + d.exponent := by omega
  rw [value, hdigits, hexponent, scale_add (by decide), scale_natCast]
  push_cast
  ring

theorem ofDigitChars_spread_lt (d : Decimal) : Nat.ofDigitChars 10 d.spread.1 0 < 10 ^ d.precision := by
  obtain ⟨z, hdigits, hplace⟩ := d.exists_spread
  have hlength : (Nat.toDigits 10 d.digits).length = d.precision + z := by
    rw [precision]
    rw [spread_eq] at hplace ⊢
    dsimp only at hplace ⊢
    omega
  have hlt : d.digits < 10 ^ (d.precision + z) :=
    (Nat.length_toDigits_le_iff (by decide) (hlength ▸ Nat.length_toDigits_pos)).mp hlength.le
  rw [hdigits, Nat.pow_add] at hlt
  exact Nat.lt_of_mul_lt_mul_right hlt

theorem eq_mul_pow_of_scale {a b j : Nat} {e : Int} (h : (a : Rat) * scale 10 e = b * scale 10 (e + j)) :
    a = b * 10 ^ j := by
  rw [Int.add_comm, scale_add (by decide), ← mul_assoc, scale_natCast] at h
  exact_mod_cast mul_right_cancel₀ (scale_pos (by decide) e).ne' h

/-- The precision is the least number of digits that the value can be written with. -/
theorem precision_le_iff {d : Decimal} {n : Nat} : d.precision ≤ n ↔ HasDigits n d.value := by
  constructor
  · intro h
    have hlt := d.ofDigitChars_spread_lt.trans_le (Nat.pow_le_pow_right (by decide) h)
    exact ⟨_, hlt, _, d.value_eq_spread⟩
  · rintro ⟨m, hm, e, hvalue⟩
    rw [value] at hvalue
    obtain hle | hlt := le_or_gt d.exponent e
    · obtain ⟨j, hj⟩ := Int.le.dest hle
      exact precision_le_of_digits (eq_mul_pow_of_scale (hj.symm ▸ hvalue)) hm
    · obtain ⟨j, hj⟩ := Int.le.dest hlt.le
      have hdigits : m = d.digits * 10 ^ j := eq_mul_pow_of_scale (hj.symm ▸ hvalue.symm)
      have hle : d.digits ≤ m := hdigits ▸ Nat.le_mul_of_pos_right _ (Nat.pow_pos (by decide))
      exact precision_le_of_digits (j := 0) (Nat.mul_one _).symm (hle.trans_lt hm)

end Decimal

end SmallLisp
