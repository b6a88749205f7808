import SmallLisp.EvalError
import SmallLisp.Number.Word

namespace SmallLisp

namespace Operator

def widen (n : Int) : Except EvalError Double :=
  match Double.ofInt? n with
  | some x => .ok x
  | none => .error .tooLarge

/-- Applies an arithmetic operator to two numbers: to integers in 32 bits, and
otherwise to doubles, with the result rounded to single precision. -/
def arithmetic (op : Operator) (onInts : Int → Int → Except EvalError Int)
    (onDoubles : Double → Double → Except EvalError Double) (a b : Value) :
    Except EvalError Value :=
  match a, b with
  | .int m, .int n => do return .int (Number.wrap (← onInts m n))
  | .int m, .float y => do return .float (← onDoubles (← widen m) y).toSingle
  | .float x, .int n => do return .float (← onDoubles x (← widen n)).toSingle
  | .float x, .float y => do return .float (← onDoubles x y).toSingle
  | _, _ => .error (.kind (.notNumeric op a.kind b.kind))

def divideInts (m n : Int) : Except EvalError Int :=
  if n = 0 then .error .divisionByZero else .ok (m.tdiv n)

def divideDoubles (x y : Double) : Except EvalError Double :=
  if y.isZero then .error .divisionByZero else .ok (x.div y)

end Operator

end SmallLisp
