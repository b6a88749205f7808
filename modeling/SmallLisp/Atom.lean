import SmallLisp.Number.Word
import SmallLisp.Text.Numeral
import SmallLisp.Value

namespace SmallLisp

inductive ReadError where
  | endOfInput
  | listNotClosed
  | listNotOpened
  | tooDeep (limit : Nat)
  | emptyName
  | tooManyDigits (count : Nat)
  deriving DecidableEq, Repr

def ReadError.message : ReadError → String
  | endOfInput => "Unexpected end of input"
  | listNotClosed => "Unexpected end of input: list was not closed"
  | listNotOpened => "Found ')' with no open list"
  | tooDeep limit => "Lists nested deeper than " ++ toString limit ++ " levels"
  | emptyName => "Symbol names must be non-empty"
  | tooManyDigits count =>
    "Exceeds the limit (" ++ toString Text.maxDigits ++
      " digits) for integer string conversion: value has " ++ toString count ++
      " digits; use sys.set_int_max_str_digits() to increase the limit"

namespace Atom

def natural? (digits : List Char) : Option Nat :=
  if !digits.isEmpty && digits.all Char.isDigit then
    some (digits.foldl (fun n c => 10 * n + (c.toNat - '0'.toNat)) 0)
  else none

def integer? : List Char → Option Int
  | '-' :: digits => (natural? digits).map fun (n : Nat) => -(n : Int)
  | digits => (natural? digits).map fun (n : Nat) => (n : Int)

/-- The number of digits of a token that writes an integer, if they are too many to be
converted. -/
def overlong? (token : List Char) : Option Nat :=
  let digits := if token.head? = some '-' then token.tail else token
  if Text.maxDigits < digits.length ∧ digits.all Char.isDigit then some digits.length else none

def word? (token : List Char) : Option Int :=
  (integer? token).filter fun n => decide (Number.intMin ≤ n ∧ n ≤ Number.intMax)

def literal? (token : String) : Option Value :=
  if token = "true" then some (.bool true)
  else if token = "false" then some (.bool false)
  else if token = "nil" then some .nil
  else none

def stringBody? (token : List Char) : Option (List Char) :=
  if 2 ≤ token.length ∧ token.head? = some '\x22' ∧ token.getLast? = some '\x22' then
    some (token.drop 1).dropLast
  else none

/-- What is neither an integer nor a literal nor a text is a symbol. -/
def resolve (token : String) : Except ReadError Value :=
  match word? token.toList with
  | some n => .ok (.int n)
  | none =>
    match literal? token with
    | some v => .ok v
    | none =>
      match stringBody? token.toList with
      | some body => .ok (.str (String.ofList body))
      | none =>
        match Symbol.ofName? token with
        | some s => .ok (.sym s)
        | none => .error .emptyName

def read (token : String) : Except ReadError Value :=
  match overlong? token.toList with
  | some count => .error (.tooManyDigits count)
  | none => resolve token

theorem lt_of_overlong? {token : List Char} {count : Nat} (h : overlong? token = some count) :
    Text.maxDigits < count := by
  obtain ⟨hd, hcount⟩ := Option.ite_none_right_eq_some.mp h
  exact Option.some.inj hcount ▸ hd.1

theorem read_of_short {token : String} (h : overlong? token.toList = none) :
    read token = resolve token := by
  rw [read, h]

theorem read_of_overlong {token : String} {count : Nat} (h : overlong? token.toList = some count) :
    read token = .error (.tooManyDigits count) := by
  rw [read, h]

theorem read_eq_ok_iff {token : String} {v : Value} :
    read token = .ok v ↔ overlong? token.toList = none ∧ resolve token = .ok v := by
  cases h : overlong? token.toList with
  | none => rw [read_of_short h, eq_self, true_and]
  | some count =>
    rw [read_of_overlong h]
    exact ⟨nofun, nofun⟩

end Atom

end SmallLisp
