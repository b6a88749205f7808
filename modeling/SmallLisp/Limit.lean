namespace SmallLisp

/-- What is asked for as a limit. A request can be empty where a number is due. -/
inductive LimitRequest where
  | number (n : Int)
  | empty
  deriving DecidableEq, Repr

def LimitRequest.text : LimitRequest → String
  | number n => toString n
  | empty => "[]"

inductive LimitError where
  | notPositive (n : Int)
  | tooLarge
  | notNumber
  deriving DecidableEq, Repr

def LimitError.message : LimitError → String
  | notPositive n => "max depth must be positive, got " ++ toString n
  | tooLarge => "Python int too large to convert to C int"
  | notNumber => "'<' not supported between instances of 'list' and 'int'"

namespace Limit

def standard : Nat := 10000

/-- Every level takes up to three frames of a stack, besides a reserve of a thousand,
and frames are counted in 32 bits. -/
def check (n : Int) : Except LimitError Nat :=
  if n < 1 then .error (.notPositive n)
  else if 0x7fffffff < 3 * n + 1000 then .error .tooLarge
  else .ok n.toNat

def grant : LimitRequest → Except LimitError Nat
  | .number n => check n
  | .empty => .error .notNumber

end Limit

end SmallLisp
