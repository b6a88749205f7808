import SmallLisp.Number.Format

namespace SmallLisp

open Number

/-- A double-precision number: a sign and the rank of its magnitude, or no number.
Both zeros are kept apart, and so are both infinities. -/
inductive Double where
  | nan
  | signed (negative : Bool) (rank : Nat) (rank_le : rank ≤ Format.double.infinity)
  deriving DecidableEq

namespace Double

def ofRank (negative : Bool) (rank : Nat) : Double :=
  .signed negative (min rank Format.double.infinity) (Nat.min_le_right _ _)

def infinity (negative : Bool) : Double := ofRank negative Format.double.infinity

def zero (negative : Bool) : Double := ofRank negative 0

def ofBits (bits : Nat) : Double :=
  let rank := bits % 0x8000000000000000
  if h : rank ≤ Format.double.infinity then
    .signed (decide (0x8000000000000000 ≤ bits % 0x10000000000000000)) rank h
  else .nan

def toBits : Double → Nat
  | nan => 0x7ff8000000000000
  | signed negative rank _ => (if negative then 0x8000000000000000 else 0) + rank

def isFinite : Double → Bool
  | nan => false
  | signed _ rank _ => decide (rank < Format.double.infinity)

def magnitude : Double → Rat
  | nan => 0
  | signed _ rank _ => Format.double.value rank

def value : Double → Rat
  | nan => 0
  | signed negative rank _ =>
    if negative then -Format.double.value rank else Format.double.value rank

def isNegative : Double → Bool
  | nan => false
  | signed negative _ _ => negative

/-- The number nearest to `x`. The sign of zero is that of `x`, if it has one. -/
def ofRat (zeroNegative : Bool) (x : Rat) : Double :=
  let negative := if x = 0 then zeroNegative else decide (x < 0)
  .signed negative (Format.double.nearest (if x < 0 then -x else x))
    (Format.nearest_le_infinity _ _)

def ofInt? (n : Int) : Option Double :=
  let x := ofRat false (n : Rat)
  if x.isFinite then some x else none

/-- The nearest single-precision number. Numbers out of its range become infinite. -/
def toSingle : Double → Double
  | nan => nan
  | signed negative rank h =>
    if rank = Format.double.infinity then signed negative rank h
    else
      let narrow := Format.single.nearest (Format.double.value rank)
      if narrow = Format.single.infinity then infinity negative
      else ofRank negative (Format.double.nearest (Format.single.value narrow))

def neg : Double → Double
  | nan => nan
  | signed negative rank h => signed (!negative) rank h

/-- Each operation takes the exact result to the nearest number. An exact zero is
negative only as the sum of two negative zeros. -/
def add (x y : Double) : Double :=
  match x, y with
  | nan, _ | _, nan => nan
  | signed s _ _, signed t _ _ =>
    match x.isFinite, y.isFinite with
    | true, true => ofRat (s && t) (x.value + y.value)
    | false, true => x
    | true, false => y
    | false, false => if s = t then x else nan

def sub (x y : Double) : Double := add x y.neg

def mul (x y : Double) : Double :=
  match x, y with
  | nan, _ | _, nan => nan
  | signed s a _, signed t b _ =>
    if x.isFinite && y.isFinite then ofRat (s ^^ t) (x.value * y.value)
    else if a = 0 ∨ b = 0 then nan
    else infinity (s ^^ t)

def div (x y : Double) : Double :=
  match x, y with
  | nan, _ | _, nan => nan
  | signed s a _, signed t b _ =>
    match x.isFinite, y.isFinite with
    | true, true =>
      if b = 0 then if a = 0 then nan else infinity (s ^^ t)
      else ofRat (s ^^ t) (x.value / y.value)
    | true, false => zero (s ^^ t)
    | false, true => infinity (s ^^ t)
    | false, false => nan

/-- The place of a number on the line of all numbers, on which both zeros share a
place. -/
def place? : Double → Option Int
  | nan => none
  | signed negative rank _ => some (if negative then -(rank : Int) else rank)

/-- No comparison with `nan` holds, not even equality with itself. -/
def compareWith (holds : Int → Int → Bool) (x y : Double) : Bool :=
  match x.place?, y.place? with
  | some a, some b => holds a b
  | _, _ => false

def eq (x y : Double) : Bool := x.compareWith (· == ·) y

def eqInt (x : Double) (n : Int) : Bool := x.isFinite && decide (x.value = (n : Rat))

def isZero (x : Double) : Bool := x.eq (zero false)

end Double

end SmallLisp
