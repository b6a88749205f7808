import SmallLisp.Symbol

namespace SmallLisp

inductive Comparison where
  | lt
  | le
  | gt
  | ge
  deriving DecidableEq, Repr

namespace Comparison

def name : Comparison → String
  | lt => "<"
  | le => "<="
  | gt => ">"
  | ge => ">="

def holds : Comparison → Int → Int → Bool
  | lt, m, n => decide (m < n)
  | le, m, n => decide (m ≤ n)
  | gt, m, n => decide (n < m)
  | ge, m, n => decide (n ≤ m)

end Comparison

inductive Operator where
  | add
  | sub
  | mul
  | div
  | eq
  | order (c : Comparison)
  deriving DecidableEq, Repr

namespace Operator

def all : List Operator := [add, sub, mul, div, eq, order .lt, order .le, order .gt, order .ge]

def arity : Nat := 2

def name : Operator → String
  | add => "+"
  | sub => "-"
  | mul => "*"
  | div => "/"
  | eq => "="
  | order c => c.name

theorem mem_all (op : Operator) : op ∈ all := by
  rcases op with _ | _ | _ | _ | _ | c
  case order => cases c <;> decide
  all_goals decide

theorem name_ne (op : Operator) : op.name ≠ "" := by
  have hall : ∀ op ∈ all, op.name ≠ "" := by decide
  exact hall op op.mem_all

def symbol (op : Operator) : Symbol := ⟨op.name, op.name_ne⟩

def ofName? (name : String) : Option Operator := all.find? fun op => op.name == name

theorem ofName?_name (op : Operator) : ofName? op.name = some op := by
  have hall : ∀ op ∈ all, ofName? op.name = some op := by decide
  exact hall op op.mem_all

end Operator

end SmallLisp
