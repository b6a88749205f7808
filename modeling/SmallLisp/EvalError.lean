import SmallLisp.SpecialForm
import SmallLisp.Value.Inspect

namespace SmallLisp

inductive ShapeFault where
  | wrongCount (wanted : List Nat) (got : Nat)
  | nameExpected (got : Value)
  | bindingsOrBodyMissing
  | bindingsNotList
  | bindingsOdd
  | bindingNotSymbol (got : Value)
  | parametersMissing
  | parametersNotList
  | parameterNotSymbol (got : Value)
  | bodyMissing

namespace ShapeFault

def message : ShapeFault → String
  | wrongCount wanted got =>
    "expected " ++ " or ".intercalate (wanted.map toString) ++ " arguments, got " ++ toString got
  | nameExpected got => "cannot bind to " ++ got.inspect ++ ", expected a symbol"
  | bindingsOrBodyMissing => "requires a binding list and a body"
  | bindingsNotList => "binding list must be a list"
  | bindingsOdd => "binding list must have an even number of elements"
  | bindingNotSymbol got => "binding names must be symbols, got " ++ got.inspect
  | parametersMissing => "requires a parameter list"
  | parametersNotList => "parameters must be a list"
  | parameterNotSymbol got => "parameters must be symbols, got " ++ got.inspect
  | bodyMissing => "missing body"

end ShapeFault

inductive KindFault where
  | notNumeric (op : Operator) (left right : Kind)
  | differentKinds (op : Operator) (left right : Kind)
  | noOrder (kind : Kind)
  | noEquality (kind : Kind)
  | listExpected (form : SpecialForm) (got : Kind)
  | booleanExpected (form : SpecialForm) (got : Kind)
  | keyNotSymbol (got : Value)

namespace KindFault

def message : KindFault → String
  | notNumeric op left right =>
    "Attempted to apply '" ++ op.name ++ "' to " ++ left.name ++ " and " ++ right.name
  | differentKinds op left right =>
    "Cannot compare " ++ left.name ++ " with " ++ right.name ++ " using '" ++ op.name ++ "'"
  | noOrder kind => "Values of type " ++ kind.name ++ " cannot be ordered"
  | noEquality kind => "Equality is not supported for " ++ kind.name
  | listExpected form got => "\x22" ++ form.name ++ "\x22 expects a list, got " ++ got.name
  | booleanExpected form got =>
    "\x22" ++ form.name ++ "\x22 expects boolean operands, got " ++ got.name
  | keyNotSymbol got => "Cannot bind " ++ got.inspect ++ ": environment keys must be symbols"

end KindFault

inductive EvalError where
  | unbound (name : Symbol)
  | arity (expected got : Nat)
  | kind (fault : KindFault)
  | shape (form : SpecialForm) (fault : ShapeFault)
  | divisionByZero
  | tooLarge
  | tooDeep (limit : Nat)

namespace EvalError

def message : EvalError → String
  | unbound name => "Symbol '" ++ name.name ++ "' not found"
  | arity expected got =>
    "Expected " ++ toString expected ++ " arguments for function, was called with " ++ toString got
  | kind fault => fault.message
  | shape form fault => "Malformed \x22" ++ form.name ++ "\x22: " ++ fault.message
  | divisionByZero => "Division by zero"
  | tooLarge => "int too large to convert to float"
  | tooDeep limit => "Maximum evaluation depth of " ++ toString limit ++ " exceeded"

end EvalError

end SmallLisp
