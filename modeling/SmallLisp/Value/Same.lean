import SmallLisp.Value

namespace SmallLisp.Value

mutual

/-- Equality of values as data. Integers, floats and truth values are compared as
numbers, and functions are never the same. -/
def same : Value → Value → Bool
  | int a, int b => a == b
  | int a, float y => y.eqInt a
  | int a, bool b => a == b.toInt
  | float x, int b => x.eqInt b
  | float x, float y => x.eq y
  | float x, bool b => x.eqInt b.toInt
  | bool a, int b => a.toInt == b
  | bool a, float y => y.eqInt a.toInt
  | bool a, bool b => a == b
  | nil, nil => true
  | str a, str b => a == b
  | sym a, sym b => a == b
  | list as, list bs => sameAll as bs
  | _, _ => false

def sameAll : List Value → List Value → Bool
  | [], [] => true
  | a :: as, b :: bs => same a b && sameAll as bs
  | _, _ => false

end

end SmallLisp.Value
