import SmallLisp.Operator.Comparison

namespace SmallLisp.Operator

def apply (op : Operator) (a b : Value) : Except EvalError Value :=
  match op with
  | add => op.arithmetic (fun m n => .ok (m + n)) (fun x y => .ok (x.add y)) a b
  | sub => op.arithmetic (fun m n => .ok (m - n)) (fun x y => .ok (x.sub y)) a b
  | mul => op.arithmetic (fun m n => .ok (m * n)) (fun x y => .ok (x.mul y)) a b
  | div => op.arithmetic divideInts divideDoubles a b
  | eq => (equal a b).map .bool
  | order c => (compare c a b).map .bool

end SmallLisp.Operator
