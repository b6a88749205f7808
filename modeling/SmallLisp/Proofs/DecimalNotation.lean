import SmallLisp.Proofs.AtomText
import SmallLisp.Proofs.DecimalDigits

namespace SmallLisp

open Number

namespace Decimal

def mantissa? (s : List Char) : Option Decimal :=
  let whole := s.takeWhile (· != '.')
  let fraction := (s.dropWhile (· != '.')).drop 1
  (Atom.natural? (whole ++ fraction)).map fun n => ⟨n, -fraction.length⟩

def exponent? : List Char → Option Int
  | '+' :: digits => (Atom.natural? digits).map fun (n : Nat) => (n : Int)
  | s => Atom.integer? s

def unsigned? (s : List Char) : Option Decimal :=
  match s.dropWhile (· != 'e') with
  | [] => mantissa? s
  | _ :: rest => do
    let d ← mantissa? (s.takeWhile (· != 'e'))
    let e ← exponent? rest
    return ⟨d.digits, d.exponent + e⟩

def ofText? (s : String) : Option (Bool × Decimal) :=
  match s.toList with
  | '-' :: rest => (unsigned? rest).map fun d => (true, d)
  | rest => (unsigned? rest).map fun d => (false, d)

theorem ne_of_isDigit {c k : Char} (h : c.isDigit = true) (hk : k.isDigit = false) : (c != k) = true := by
  rw [bne_iff_ne]
  rintro rfl
  rw [h] at hk
  cases hk

section

variable {whole fraction : List Char} (hw : ∀ c ∈ whole, c.isDigit = true)
  (hf : ∀ c ∈ fraction, c.isDigit = true) (hne : whole ≠ [])

include hw hne

theorem mantissa?_whole : mantissa? whole = some ⟨Nat.ofDigitChars 10 whole 0, 0⟩ := by
  have hpoint : ∀ c ∈ whole, (c != '.') = true := fun c hc => ne_of_isDigit (hw c hc) rfl
  unfold mantissa?
  rw [List.takeWhile_eq_self_iff.mpr hpoint, List.dropWhile_eq_nil_iff.mpr hpoint]
  dsimp only
  rw [List.drop_nil, List.append_nil, Atom.natural?_of_isDigit hne hw]
  rfl

include hf

theorem mantissa?_point : mantissa? (whole ++ '.' :: fraction) =
    some ⟨Nat.ofDigitChars 10 (whole ++ fraction) 0, -fraction.length⟩ := by
  have hpoint : ∀ c ∈ whole, (c != '.') = true := fun c hc => ne_of_isDigit (hw c hc) rfl
  have hdigits := List.forall_mem_append.mpr ⟨hw, hf⟩
  unfold mantissa?
  rw [List.takeWhile_append_of_pos hpoint, List.dropWhile_append_of_pos hpoint,
    List.takeWhile_cons_of_neg (by decide), List.dropWhile_cons_of_neg (by decide)]
  dsimp only
  rw [List.append_nil, List.drop_one, List.tail_cons,
    Atom.natural?_of_isDigit (List.append_ne_nil_of_left_ne_nil hne _) hdigits]
  rfl

end

theorem unsigned?_mantissa {s : List Char} (h : ∀ c ∈ s, (c != 'e') = true) :
    unsigned? s = mantissa? s := by
  unfold unsigned?
  rw [List.dropWhile_eq_nil_iff.mpr h]

theorem unsigned?_exponent {s rest : List Char} (h : ∀ c ∈ s, (c != 'e') = true) {d : Decimal} {e : Int}
    (hs : mantissa? s = some d) (he : exponent? rest = some e) :
    unsigned? (s ++ 'e' :: rest) = some ⟨d.digits, d.exponent + e⟩ := by
  unfold unsigned?
  rw [List.takeWhile_append_of_pos h, List.dropWhile_append_of_pos h,
    List.takeWhile_cons_of_neg (by decide), List.dropWhile_cons_of_neg (by decide)]
  dsimp only
  rw [List.append_nil, hs, he]
  rfl

theorem isDigit_replicate (z : Nat) : ∀ c ∈ List.replicate z '0', c.isDigit = true := by
  intro c hc
  rw [List.eq_of_mem_replicate hc]
  rfl

theorem isDigit_toDigits (n : Nat) : ∀ c ∈ Nat.toDigits 10 n, c.isDigit = true :=
  fun _ hc => Nat.isDigit_of_mem_toDigits (by decide) (by decide) hc

theorem exponent?_signed (z : Nat) (e : Int) :
    exponent? ((if e < 0 then '-' else '+') :: (List.replicate z '0' ++ Nat.toDigits 10 e.natAbs)) =
      some e := by
  have hnatural : Atom.natural? (List.replicate z '0' ++ Nat.toDigits 10 e.natAbs) = some e.natAbs := by
    rw [Atom.natural?_of_isDigit (List.append_ne_nil_of_right_ne_nil _ Nat.toDigits_ne_nil)
        (List.forall_mem_append.mpr ⟨isDigit_replicate z, isDigit_toDigits _⟩),
      Nat.ofDigitChars_append, Nat.ofDigitChars_replicate_zero, Nat.mul_zero, Nat.ofDigitChars_ten_toDigits]
  split
  · next he =>
    have hvalue : -(e.natAbs : Int) = e := by omega
    change (Atom.natural? _).map (fun (n : Nat) => -(n : Int)) = _
    rw [hnatural]
    exact congrArg some hvalue
  · next he =>
    have hvalue : (e.natAbs : Int) = e := by omega
    change (Atom.natural? _).map (fun (n : Nat) => (n : Int)) = _
    rw [hnatural]
    exact congrArg some hvalue

section

variable {digits : List Char} (hd : ∀ c ∈ digits, c.isDigit = true) (hne : digits ≠ [])

include hd hne

theorem mantissa?_positional (place : Int) :
    ∃ d, mantissa? (Layout.positional digits place) = some d ∧
      d.value = Nat.ofDigitChars 10 digits 0 * scale 10 (place - digits.length) := by
  unfold Layout.positional
  split
  · next hplace =>
    have hfraction := List.forall_mem_append.mpr ⟨isDigit_replicate (-place).toNat, hd⟩
    have hdigits : Nat.ofDigitChars 10 (['0'] ++ (List.replicate (-place).toNat '0' ++ digits)) 0 =
        Nat.ofDigitChars 10 digits 0 := by
      rw [Nat.ofDigitChars_append, Nat.ofDigitChars_append, Nat.ofDigitChars_replicate_zero]
      rfl
    have hexponent : -((List.replicate (-place).toNat '0' ++ digits).length : Int) =
        place - digits.length := by
      rw [List.length_append, List.length_replicate]
      omega
    have hzero : ∀ c ∈ ['0'], c.isDigit = true := List.forall_mem_singleton.mpr rfl
    refine ⟨_, mantissa?_point hzero hfraction (List.cons_ne_nil _ _), ?_⟩
    rw [value, hdigits, hexponent]
  · next hplace =>
    dsimp only
    obtain hlt | hle := Nat.lt_or_ge place.toNat digits.length
    · have hsub : place.toNat - digits.length = 0 := by omega
      have hdrop : digits.drop place.toNat ≠ [] := fun h => by
        have := List.drop_eq_nil_iff.mp h
        omega
      have htake : digits.take place.toNat ≠ [] := fun h =>
        (List.take_eq_nil_iff.mp h).elim (by omega) hne
      have hexponent : -((digits.drop place.toNat).length : Int) = place - digits.length := by
        rw [List.length_drop]
        omega
      rw [hsub, List.replicate_zero, List.append_nil, List.isEmpty_eq_false_iff.mpr hdrop,
        if_neg Bool.false_ne_true]
      refine ⟨_, mantissa?_point (fun c hc => hd c (List.mem_of_mem_take hc))
        (fun c hc => hd c (List.mem_of_mem_drop hc)) htake, ?_⟩
      rw [value, List.take_append_drop, hexponent]
    · obtain ⟨z, hz⟩ := Nat.exists_eq_add_of_le hle
      have hzeros : place.toNat - digits.length = z := by omega
      have hplace : place - digits.length = z := by omega
      have hwhole := List.forall_mem_append.mpr ⟨hd, isDigit_replicate z⟩
      have hvalue : Nat.ofDigitChars 10 (digits ++ List.replicate z '0' ++ ['0']) 0 =
          Nat.ofDigitChars 10 digits 0 * 10 ^ z * 10 := by
        rw [Nat.ofDigitChars_append, Nat.ofDigitChars_append, Nat.ofDigitChars_replicate_zero,
          Nat.mul_comm (10 ^ z)]
        exact Nat.mul_comm _ _
      rw [List.drop_eq_nil_iff.mpr hle, List.isEmpty_nil, if_pos rfl, List.take_of_length_le hle, hzeros]
      refine ⟨_, mantissa?_point hwhole (List.forall_mem_singleton.mpr rfl)
        (List.append_ne_nil_of_left_ne_nil hne _), ?_⟩
      have htenth : scale 10 (-(['0'].length : Int)) = 1 / 10 := by decide +kernel
      rw [value, hvalue, hplace, scale_natCast, htenth]
      push_cast
      ring

omit hne in
theorem bne_e_of_mem_positional (place : Int) :
    ∀ c ∈ Layout.positional digits place, (c != 'e') = true := by
  have hnot : ∀ s : List Char, (∀ c ∈ s, c.isDigit = true) → ∀ c ∈ s, (c != 'e') = true :=
    fun s h c hc => ne_of_isDigit (h c hc) rfl
  unfold Layout.positional
  split
  · have hfraction := List.forall_mem_append.mpr ⟨hnot _ (isDigit_replicate (-place).toNat), hnot _ hd⟩
    exact List.forall_mem_cons.mpr ⟨by decide, List.forall_mem_cons.mpr ⟨by decide, hfraction⟩⟩
  · refine List.forall_mem_append.mpr ⟨List.forall_mem_append.mpr
      ⟨hnot _ fun c hc => hd c (List.mem_of_mem_take hc), hnot _ (isDigit_replicate _)⟩,
      List.forall_mem_cons.mpr ⟨by decide, ?_⟩⟩
    split
    · exact List.forall_mem_singleton.mpr rfl
    · exact hnot _ fun c hc => hd c (List.mem_of_mem_drop hc)

theorem unsigned?_scientific (l : Layout) (e : Int) :
    ∃ d, unsigned? (l.scientific digits e) = some d ∧
      d.value = Nat.ofDigitChars 10 digits 0 * scale 10 (e + 1 - digits.length) := by
  obtain ⟨c, rest, rfl⟩ := List.exists_cons_of_ne_nil hne
  obtain ⟨hc, hrest⟩ := List.forall_mem_cons.mp hd
  have hnot : (c != 'e') = true := ne_of_isDigit hc rfl
  have hexponent := exponent?_signed (l.exponentDigits - (Nat.toDigits 10 e.natAbs).length) e
  unfold Layout.scientific
  dsimp only
  rw [List.take_succ_cons, List.take_zero, List.drop_one, List.tail_cons]
  split
  · next hlength =>
    have hnil : rest = [] := List.eq_nil_of_length_eq_zero (by rw [List.length_cons] at hlength; omega)
    subst hnil
    refine ⟨_, unsigned?_exponent (by simpa using hnot) (mantissa?_whole hd hne) hexponent, ?_⟩
    rw [value, List.length_singleton, Nat.cast_one, Int.add_sub_cancel, Int.zero_add, List.append_nil]
  · have hmantissa : ∀ k ∈ [c] ++ '.' :: rest, (k != 'e') = true :=
      List.forall_mem_cons.mpr ⟨hnot, List.forall_mem_cons.mpr
        ⟨by decide, fun k hk => ne_of_isDigit (hrest k hk) rfl⟩⟩
    have hfirst : ∀ k ∈ [c], k.isDigit = true := by simpa using hc
    have hpoint := mantissa?_point hfirst hrest (List.cons_ne_nil _ _)
    refine ⟨_, unsigned?_exponent hmantissa hpoint hexponent, ?_⟩
    have hplace : -(rest.length : Int) + e = e + 1 - (c :: rest).length := by
      rw [List.length_cons]
      omega
    rw [value, hplace, List.singleton_append]

end

theorem isDigit_spread (d : Decimal) : ∀ c ∈ d.spread.1, c.isDigit = true := by
  obtain ⟨z, hz⟩ := exists_eq_strip_append (Nat.toDigits 10 d.digits)
  have hdigits := isDigit_toDigits d.digits
  rw [hz] at hdigits
  exact (List.forall_mem_append.mp hdigits).1

theorem unsigned?_decimal (l : Layout) (d : Decimal) :
    ∃ d', unsigned? (l.decimal d) = some d' ∧ d'.value = d.value := by
  have hdigits := d.isDigit_spread
  rw [d.value_eq_spread, Layout.decimal]
  generalize d.spread = spread at hdigits
  obtain ⟨digits, place⟩ := spread
  cases digits with
  | nil =>
    have hread : unsigned? ['0', '.', '0'] = some ⟨0, -1⟩ := by decide
    exact ⟨⟨0, -1⟩, hread, by simp [value]⟩
  | cons c rest =>
    dsimp only
    split
    · rw [unsigned?_mantissa (bne_e_of_mem_positional hdigits place)]
      exact mantissa?_positional hdigits (List.cons_ne_nil _ _) place
    · have hread := unsigned?_scientific hdigits (List.cons_ne_nil _ _) l (place - 1)
      rwa [Int.sub_add_cancel] at hread

theorem unsigned?_minus (s : List Char) : unsigned? ('-' :: s) = none := by
  have hmantissa : ∀ s, mantissa? ('-' :: s) = none := fun s => by
    unfold mantissa?
    rw [List.takeWhile_cons_of_pos (by decide)]
    rfl
  unfold unsigned?
  rw [List.takeWhile_cons_of_pos (by decide), hmantissa, hmantissa]
  split <;> rfl

/-- The laid out text of a number is read as a number of the same value. -/
theorem ofText?_signed (l : Layout) (negative : Bool) (d : Decimal) :
    ∃ d', ofText? (l.signed negative d) = some (negative, d') ∧ d'.value = d.value := by
  obtain ⟨d', hread, hvalue⟩ := unsigned?_decimal l d
  refine ⟨d', ?_, hvalue⟩
  unfold ofText? Layout.signed
  rw [String.toList_ofList]
  cases negative with
  | false =>
    rw [if_neg Bool.false_ne_true]
    split
    · next s hs =>
      rw [hs, unsigned?_minus] at hread
      cases hread
    · rw [hread]
      rfl
  | true =>
    change (unsigned? (l.decimal d)).map _ = _
    rw [hread]
    rfl

example : ofText? (Layout.standard.signed true ⟨150, -7⟩) = some (true, ⟨15, -6⟩) := by decide +kernel

end Decimal

end SmallLisp
