import SmallLisp.Form
import SmallLisp.Operator.Apply
import SmallLisp.Scope
import SmallLisp.Value.Display

namespace SmallLisp

structure Machine where
  store : Store
  shown : Array Value

namespace Machine

def printed (m : Machine) : Array String := m.shown.map Value.display

def print (v : Value) (m : Machine) : Machine := { m with shown := m.shown.push v }

theorem printed_print (v : Value) (m : Machine) : (m.print v).printed = m.printed.push v.display :=
  Array.map_push

theorem printed_print_eq {m n : Machine} {v w : Value} (h : m.printed = n.printed)
    (hv : v.display = w.display) : (m.print v).printed = (n.print w).printed := by
  rw [printed_print, printed_print, h, hv]

end Machine

/-- A computation that can fail. What it did before stays done. -/
abbrev Run := ExceptT EvalError (StateM Machine)

abbrev Evaluator := Value → ScopeId → Run Value

namespace Run

def ofExcept (x : Except EvalError Value) : Run Value :=
  match x with
  | .ok v => pure v
  | .error e => throw e

def find? (key : Symbol) (scope : ScopeId) : Run (Option Value) := do
  return (← get).store.find? key scope

def put (key : Symbol) (value : Value) (scope : ScopeId) : Run Unit :=
  modify fun m => { m with store := m.store.put scope key value }

def create (outer : ScopeId) : Run ScopeId :=
  modifyGet fun m =>
    let (inner, store) := m.store.create (some outer)
    (inner, { m with store })

def print (v : Value) : Run Unit := modify (Machine.print v)

end Run

namespace Eval

variable (ev : Evaluator)

def unboundValue (s : Symbol) : Value :=
  if s.name = "nil" then .nil
  else if s.name = "true" then .bool true
  else if s.name = "false" then .bool false
  else .sym s

def symbol (s : Symbol) (scope : ScopeId) : Run Value := do
  match ← Run.find? s scope with
  | some v => return v
  | none => return unboundValue s

def all (scope : ScopeId) : List Value → Run (List Value)
  | [] => return []
  | form :: forms => do
    let v ← ev form scope
    let vs ← all scope forms
    return v :: vs

def sequence (scope : ScopeId) : List Value → Run Value
  | [] => return .nil
  | [form] => ev form scope
  | form :: forms => do
    let _ ← ev form scope
    sequence scope forms

def putEach (scope : ScopeId) : List (Symbol × Value) → Run Unit
  | [] => return
  | (name, value) :: rest => do
    Run.put name value scope
    putEach scope rest

/-- Binds names one after the other, each to the value of its form, in which the
earlier names are bound already. -/
def bindEach (scope : ScopeId) : List (Symbol × Value) → Run Unit
  | [] => return
  | (name, form) :: rest => do
    let v ← ev form scope
    Run.put name v scope
    bindEach scope rest

def boolean (form : SpecialForm) (operand : Value) (scope : ScopeId) : Run Bool := do
  match ← ev operand scope with
  | .bool b => return b
  | v => throw (.kind (.booleanExpected form v.kind))

def items (form : SpecialForm) (operand : Value) (scope : ScopeId) : Run (List Value) := do
  match ← ev operand scope with
  | .list vs => return vs
  | v => throw (.kind (.listExpected form v.kind))

def combine : Connective → Bool → Bool → Bool
  | .and, a, b => a && b
  | .or, a, b => a || b
  | .xor, a, b => a ^^ b

/-- Evaluates a special form. Connectives evaluate both operands. -/
def form (scope : ScopeId) : Form → Run Value
  | .define name value => do
    let v ← ev value scope
    Run.put name v scope
    return v
  | .letStar bindings body => do
    let inner ← Run.create scope
    bindEach ev inner bindings
    ev body inner
  | .lambda params body => return .closure params body scope
  | .sequence forms => sequence ev scope forms
  | .conditional test yes no => do
    if (← ev test scope).isTruthy then ev yes scope
    else match no with
      | some form => ev form scope
      | none => return .nil
  | .connective c left right => do
    let a ← boolean ev (.connective c) left scope
    let b ← boolean ev (.connective c) right scope
    return .bool (combine c a b)
  | .negation operand => do return .bool !(← boolean ev .negation operand scope)
  | .print operand => do
    Run.print (← ev operand scope)
    return .nil
  | .literalList items => return .list items
  | .isList operand => do
    match ← ev operand scope with
    | .list _ => return .bool true
    | _ => return .bool false
  | .isEmpty operand => do return .bool (← items ev .isEmpty operand scope).isEmpty
  | .count operand => do return .int (← items ev .count operand scope).length
  | .sameKind left right => do
    let a ← ev left scope
    let b ← ev right scope
    return .bool (a.kind == b.kind)

def enterBody (params : List Symbol) (body : Value) (home : ScopeId) (values : List Value) :
    Run Value := do
  let inner ← Run.create home
  putEach inner (params.zip values)
  ev body inner

/-- Calls a closure. The number of arguments is checked before any is evaluated. The
body sees the scope of the closure, and not that of the caller. -/
def callClosure (params : List Symbol) (body : Value) (home : ScopeId) (args : List Value)
    (scope : ScopeId) : Run Value := do
  if params.length = args.length then
    let values ← all ev scope args
    enterBody ev params body home values
  else throw (.arity params.length args.length)

def callOperator (op : Operator) (args : List Value) (scope : ScopeId) : Run Value :=
  match args with
  | [left, right] => do
    let a ← ev left scope
    let b ← ev right scope
    Run.ofExcept (op.apply a b)
  | _ => throw (.arity Operator.arity args.length)

/-- Evaluates a list with at least one element. A head that is no function stands for
the whole list. -/
def application (head : Value) (tail : List Value) (scope : ScopeId) : Run Value :=
  match SpecialForm.ofHead? head with
  | some special =>
    match Form.ofTail special tail with
    | .ok f => form ev scope f
    | .error fault => throw (.shape special fault)
  | none => do
    match ← ev head scope with
    | .closure params body home => callClosure ev params body home tail scope
    | .operator op => callOperator ev op tail scope
    | v => return v

def step : Evaluator
  | .list [], _ => return .int 0
  | .list (head :: tail), scope => application ev head tail scope
  | .sym s, scope => symbol s scope
  | v, _ => return v

end Eval

/-- Evaluates a form with up to `levels` nested levels of evaluation. The error for a
deeper one names the limit. -/
def evalLevels (limit : Nat) : Nat → Evaluator
  | 0 => fun _ _ => throw (.tooDeep limit)
  | levels + 1 => Eval.step (evalLevels limit levels)

def eval (limit : Nat) (depth : Int) (form : Value) (scope : ScopeId) : Run Value :=
  evalLevels limit (limit - depth).toNat form scope

end SmallLisp
