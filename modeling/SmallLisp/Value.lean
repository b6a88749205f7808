import SmallLisp.Number.Double
import SmallLisp.Operator

namespace SmallLisp

abbrev ScopeId := Nat

/-- A value, which is also a form: code is data. A closure holds the scope it was made
in. -/
inductive Value where
  | int (n : Int)
  | float (x : Double)
  | bool (b : Bool)
  | nil
  | str (text : String)
  | sym (name : Symbol)
  | list (items : List Value)
  | closure (params : List Symbol) (body : Value) (scope : ScopeId)
  | operator (op : Operator)

instance : Inhabited Value := ⟨.nil⟩

inductive Kind where
  | list
  | int
  | float
  | symbol
  | string
  | bool
  | nil
  | function
  deriving DecidableEq, Repr

def Kind.name : Kind → String
  | list => "list"
  | int => "int"
  | float => "float"
  | symbol => "symbol"
  | string => "string"
  | bool => "bool"
  | nil => "nil"
  | function => "function"

namespace Value

def kind : Value → Kind
  | int _ => .int
  | float _ => .float
  | bool _ => .bool
  | nil => .nil
  | str _ => .string
  | sym _ => .symbol
  | list _ => .list
  | closure .. => .function
  | operator _ => .function

def isNumeric : Value → Bool
  | int _ => true
  | float _ => true
  | _ => false

def isTruthy : Value → Bool
  | nil => false
  | bool b => b
  | _ => true

def size? : Value → Option Nat
  | str text => some text.length
  | sym s => some s.name.length
  | list items => some items.length
  | _ => none

end Value

end SmallLisp
