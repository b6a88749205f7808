import SmallLisp.Number.Decimal

namespace SmallLisp

def Decimal.spread (d : Decimal) : List Char × Int :=
  let all := Nat.toDigits 10 d.digits
  (((all.reverse.dropWhile (· == '0')).reverse), d.exponent + all.length)

/-- Rules for writing numbers: the least and greatest place of the point with which a
number is written without an exponent, and the least number of digits of an
exponent. -/
structure Layout where
  leastPlace : Int
  greatestPlace : Int
  exponentDigits : Nat

namespace Layout

def standard : Layout := ⟨-3, 16, 2⟩

def positional (digits : List Char) (place : Int) : List Char :=
  if place ≤ 0 then '0' :: '.' :: (List.replicate (-place).toNat '0' ++ digits)
  else
    let whole := digits.take place.toNat
    let fraction := digits.drop place.toNat
    whole ++ List.replicate (place.toNat - digits.length) '0' ++ '.' ::
      (if fraction.isEmpty then ['0'] else fraction)

def scientific (l : Layout) (digits : List Char) (exponent : Int) : List Char :=
  let size := Nat.toDigits 10 exponent.natAbs
  digits.take 1 ++ (if digits.length ≤ 1 then [] else '.' :: digits.drop 1) ++ 'e' ::
    (if exponent < 0 then '-' else '+') ::
    (List.replicate (l.exponentDigits - size.length) '0' ++ size)

def decimal (l : Layout) (d : Decimal) : List Char :=
  match d.spread with
  | ([], _) => ['0', '.', '0']
  | (digits, place) =>
    if l.leastPlace ≤ place ∧ place ≤ l.greatestPlace then positional digits place
    else l.scientific digits (place - 1)

def signed (l : Layout) (negative : Bool) (d : Decimal) : String :=
  String.ofList (if negative then '-' :: l.decimal d else l.decimal d)

end Layout

namespace Double

def text : Double → String
  | nan => "nan"
  | signed negative rank _ =>
    if rank = Number.Format.double.infinity then if negative then "-inf" else "inf"
    else Layout.standard.signed negative (Decimal.shortest rank)

/-- A decimal number of up to nine digits that becomes the given number when it is
taken to single precision, with the fewest digits. -/
def singleDecimal? (x : Double) : Option Decimal :=
  ((List.range' 1 9).map fun n => Decimal.significant n x.magnitude).find? fun d =>
    (d.toDouble x.isNegative).toSingle.eq x

def display (x : Double) : String :=
  if x.isFinite then
    match x.singleDecimal? with
    | some d => (d.toDouble x.isNegative).text
    | none => x.text
  else x.text

end Double

end SmallLisp
