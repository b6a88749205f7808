import SmallLisp.Operator.Arithmetic

namespace SmallLisp.Operator

/-- Compares two values of the same kind. Texts and symbols are ordered by their length
alone. -/
def compare (c : Comparison) (a b : Value) : Except EvalError Bool :=
  match a, b with
  | .int m, .int n => .ok (c.holds m n)
  | .float x, .float y => .ok (x.compareWith c.holds y)
  | .bool p, .bool q => .ok (c.holds p.toInt q.toInt)
  | .str s, .str t => .ok (c.holds s.length t.length)
  | .sym s, .sym t => .ok (c.holds s.name.length t.name.length)
  | _, _ =>
    if a.kind = b.kind then .error (.kind (.noOrder a.kind))
    else .error (.kind (.differentKinds (.order c) a.kind b.kind))

/-- Integers and floats are equal when they are the same as doubles. Otherwise only
values of the same kind are compared, and lists and functions are not. -/
def equal (a b : Value) : Except EvalError Bool :=
  match a, b with
  | .int m, .int n => do return (← widen m).eq (← widen n)
  | .int m, .float y => do return (← widen m).eq y
  | .float x, .int n => do return x.eq (← widen n)
  | .float x, .float y => .ok (x.eq y)
  | .bool p, .bool q => .ok (p == q)
  | .nil, .nil => .ok true
  | .str s, .str t => .ok (s == t)
  | .sym s, .sym t => .ok (s == t)
  | _, _ =>
    if a.kind = b.kind then .error (.kind (.noEquality a.kind))
    else .error (.kind (.differentKinds .eq a.kind b.kind))

end SmallLisp.Operator
