import SmallLisp.Number.Double

namespace SmallLisp

open Number

structure Decimal where
  digits : Nat
  exponent : Int
  deriving DecidableEq, Repr

namespace Decimal

def value (d : Decimal) : Rat := (d.digits : Rat) * scale 10 d.exponent

def lastPlace (n : Nat) (x : Rat) : Int := decimalExponent x + 1 - n

def significant (n : Nat) (x : Rat) : Decimal :=
  if x ≤ 0 then ⟨0, 0⟩
  else
    let e := lastPlace n x
    ⟨(roundHalfEven (x / scale 10 e)).toNat, e⟩

/-- The two numbers of `n` significant digits around a positive `x`, the nearer one
first. -/
def around (n : Nat) (x : Rat) : List Decimal :=
  let e := lastPlace n x
  let low := (x / scale 10 e).floor.toNat
  let near := (roundHalfEven (x / scale 10 e)).toNat
  if near = low then [⟨low, e⟩, ⟨low + 1, e⟩] else [⟨low + 1, e⟩, ⟨low, e⟩]

def reads (rank : Nat) (d : Decimal) : Bool := Format.double.nearest d.value == rank

/-- The decimal number with the fewest digits that is read as the number of the given
rank, and of those the nearest to it. Seventeen digits are always enough. -/
def shortest (rank : Nat) : Decimal :=
  if rank = 0 then ⟨0, 0⟩
  else
    let x := Format.double.value rank
    ((List.range' 1 17).findSome? fun n => (around n x).find? (reads rank)).getD (significant 17 x)

def toDouble (negative : Bool) (d : Decimal) : Double :=
  .signed negative (Format.double.nearest d.value) (Format.nearest_le_infinity _ _)

end Decimal

end SmallLisp
