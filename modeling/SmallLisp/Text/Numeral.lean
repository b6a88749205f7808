import SmallLisp.Text.Blank
import SmallLisp.Text.Digit

namespace SmallLisp.Text

/-- White space that may surround a numeral. The separators of records may not. -/
def isPadding (c : Char) : Bool := isBlank c && !(0x1C ≤ c.toNat && c.toNat ≤ 0x1F)

/-- The digits of a numeral. A single underscore may stand between two digits. -/
def digitGroups? : List Char → Option (List Nat)
  | [] => none
  | [c] => (digitValue? c).map ([·])
  | c :: '_' :: rest => do return (← digitValue? c) :: (← digitGroups? rest)
  | c :: rest => do return (← digitValue? c) :: (← digitGroups? rest)

def maxDigits : Nat := 4300

def natural? (s : List Char) : Option Nat := do
  let digits ← digitGroups? s
  if digits.length ≤ maxDigits then return digits.foldl (fun n d => 10 * n + d) 0 else none

/-- The integer that a setting or an option is written as: digits of any script,
with an optional sign, in optional white space. -/
def integer? (s : String) : Option Int :=
  match trimEnds isPadding s.toList with
  | '-' :: rest => (natural? rest).map fun (n : Nat) => -(n : Int)
  | '+' :: rest => (natural? rest).map fun (n : Nat) => (n : Int)
  | rest => (natural? rest).map fun (n : Nat) => (n : Int)

end SmallLisp.Text
