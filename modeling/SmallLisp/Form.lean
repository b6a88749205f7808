import SmallLisp.EvalError

namespace SmallLisp

/-- A special form of the right shape, with its parts not yet evaluated. -/
inductive Form where
  | define (name : Symbol) (value : Value)
  | letStar (bindings : List (Symbol × Value)) (body : Value)
  | lambda (params : List Symbol) (body : Value)
  | sequence (forms : List Value)
  | conditional (test yes : Value) (no : Option Value)
  | connective (c : Connective) (left right : Value)
  | negation (operand : Value)
  | print (operand : Value)
  | literalList (items : List Value)
  | isList (operand : Value)
  | isEmpty (operand : Value)
  | count (operand : Value)
  | sameKind (left right : Value)

namespace Form

def defineOf : List Value → Except ShapeFault Form
  | [.sym name, value] => .ok (.define name value)
  | [got, _] => .error (.nameExpected got)
  | tail => .error (.wrongCount [2] tail.length)

def bindingsOf : List Value → Except ShapeFault (List (Symbol × Value))
  | [] => .ok []
  | [_] => .error .bindingsOdd
  | .sym name :: value :: rest => do return (name, value) :: (← bindingsOf rest)
  | got :: _ :: _ => .error (.bindingNotSymbol got)

def paramsOf : List Value → Except ShapeFault (List Symbol)
  | [] => .ok []
  | .sym name :: rest => do return name :: (← paramsOf rest)
  | got :: _ => .error (.parameterNotSymbol got)

def bodyOf : List Value → Except ShapeFault Value
  | [] => .error .bodyMissing
  | [form] => .ok form
  | forms => .ok (.list (.sym SpecialForm.sequenceSymbol :: forms))

def letStarOf : List Value → Except ShapeFault Form
  | .list bindings :: form :: forms => do
    if bindings.length % 2 ≠ 0 then throw .bindingsOdd
    return .letStar (← bindingsOf bindings) (← bodyOf (form :: forms))
  | _ :: _ :: _ => .error .bindingsNotList
  | _ => .error .bindingsOrBodyMissing

def lambdaOf : List Value → Except ShapeFault Form
  | .list params :: body => do return .lambda (← paramsOf params) (← bodyOf body)
  | _ :: _ => .error .parametersNotList
  | [] => .error .parametersMissing

def conditionalOf : List Value → Except ShapeFault Form
  | [test, yes] => .ok (.conditional test yes none)
  | [test, yes, no] => .ok (.conditional test yes (some no))
  | tail => .error (.wrongCount [2, 3] tail.length)

def unaryOf (make : Value → Form) : List Value → Except ShapeFault Form
  | [operand] => .ok (make operand)
  | tail => .error (.wrongCount [1] tail.length)

def binaryOf (make : Value → Value → Form) : List Value → Except ShapeFault Form
  | [left, right] => .ok (make left right)
  | tail => .error (.wrongCount [2] tail.length)

/-- Checks the shape of a special form by what follows its head, before anything is
evaluated. -/
def ofTail : SpecialForm → List Value → Except ShapeFault Form
  | .define => defineOf
  | .letStar => letStarOf
  | .lambda => lambdaOf
  | .sequence => fun forms => .ok (.sequence forms)
  | .conditional => conditionalOf
  | .connective c => binaryOf (.connective c)
  | .negation => unaryOf .negation
  | .print => unaryOf .print
  | .literalList => fun items => .ok (.literalList items)
  | .isList => unaryOf .isList
  | .isEmpty => unaryOf .isEmpty
  | .count => unaryOf .count
  | .sameKind => binaryOf .sameKind

end Form

end SmallLisp
