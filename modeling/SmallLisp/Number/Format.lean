import SmallLisp.Number.Rounding

namespace SmallLisp.Number

/-- A binary floating-point format. Its non-negative numbers are numbered in
increasing order, from zero at rank 0 up to `infinity`; a rank is also the bit
pattern of its number. Below `2 ^ fractionBits` a rank counts units of
`2 ^ minExponent`, and the unit doubles after every further `2 ^ fractionBits`
ranks. -/
structure Format where
  fractionBits : Nat
  minExponent : Int
  infinity : Nat

namespace Format

def single : Format := ⟨23, -149, 0x7f800000⟩

def double : Format := ⟨52, -1074, 0x7ff0000000000000⟩

def value (f : Format) (rank : Nat) : Rat :=
  let block := Nat.pow 2 f.fractionBits
  if rank < block then (rank : Rat) * scale 2 f.minExponent
  else ((block + rank % block : Nat) : Rat) * scale 2 (f.minExponent + (rank / block - 1 : Nat))

/-- The rank of the number nearest to a non-negative `x`, the even one of two.
What rounds past the largest number is infinite. -/
def nearest (f : Format) (x : Rat) : Nat :=
  if x ≤ 0 then 0
  else
    let e := max f.minExponent (binaryExponent x - f.fractionBits)
    let units := (roundHalfEven (x / scale 2 e)).toNat
    min f.infinity ((e - f.minExponent).toNat * Nat.pow 2 f.fractionBits + units)

theorem nearest_le_infinity (f : Format) (x : Rat) : f.nearest x ≤ f.infinity := by
  unfold nearest
  split
  · exact Nat.zero_le _
  · exact Nat.min_le_left _ _

end Format

end SmallLisp.Number
