import SmallLisp.Value

namespace SmallLisp

inductive Connective where
  | and
  | or
  | xor
  deriving DecidableEq, Repr

inductive SpecialForm where
  | define
  | letStar
  | lambda
  | sequence
  | conditional
  | connective (c : Connective)
  | negation
  | print
  | literalList
  | isList
  | isEmpty
  | count
  | sameKind
  deriving DecidableEq, Repr

namespace SpecialForm

def name : SpecialForm → String
  | define => "def!"
  | letStar => "let*"
  | lambda => "fn*"
  | sequence => "do"
  | conditional => "if"
  | connective .and => "and"
  | connective .or => "or"
  | connective .xor => "xor"
  | negation => "not"
  | print => "prn"
  | literalList => "list"
  | isList => "list?"
  | isEmpty => "empty?"
  | count => "count"
  | sameKind => "type?"

def table : List (String × SpecialForm) := [
  ("def!", define), ("let*", letStar), ("fn*", lambda), ("do", sequence),
  ("if", conditional), ("and", connective .and), ("&&", connective .and),
  ("or", connective .or), ("||", connective .or), ("xor", connective .xor),
  ("^", connective .xor), ("not", negation), ("!", negation), ("prn", print),
  ("list", literalList), ("list?", isList), ("empty?", isEmpty), ("count", count),
  ("type?", sameKind)]

def ofName? (name : String) : Option SpecialForm := table.lookup name

theorem ofName?_name (f : SpecialForm) : ofName? f.name = some f := by
  cases f with
  | connective c => cases c <;> rfl
  | _ => rfl

def ofHead? : Value → Option SpecialForm
  | .sym s => ofName? s.name
  | _ => none

theorem ofHead?_operator (op : Operator) : ofHead? (.sym op.symbol) = none := by
  have hall : ∀ op ∈ Operator.all, ofHead? (.sym op.symbol) = none := by decide
  exact hall op op.mem_all

def sequenceSymbol : Symbol := ⟨"do", by decide⟩

end SpecialForm

end SmallLisp
