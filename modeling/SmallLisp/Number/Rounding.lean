namespace SmallLisp.Number

def scale (base : Nat) : Int → Rat
  | .ofNat e => (base.pow e : Rat)
  | .negSucc e => mkRat 1 (base.pow (e + 1))

def roundHalfEven (x : Rat) : Int :=
  let low := x.floor
  let part := x - (low : Rat)
  if part < mkRat 1 2 then low
  else if mkRat 1 2 < part then low + 1
  else if low % 2 = 0 then low
  else low + 1

def decimalLog (n : Nat) : Nat :=
  if n < 10 then 0 else decimalLog (n / 10) + 1
termination_by n
decreasing_by omega

/-- The exponent of the highest power of two that is at most the positive `x`. The
quotient of two numbers falls short of the difference of their exponents by at
most one. -/
def binaryExponent (x : Rat) : Int :=
  let e := (x.num.natAbs.log2 : Int) - (x.den.log2 : Int)
  if scale 2 e ≤ x then e else e - 1

def decimalExponent (x : Rat) : Int :=
  let e := (decimalLog x.num.natAbs : Int) - (decimalLog x.den : Int)
  if scale 10 e ≤ x then e else e - 1

end SmallLisp.Number
