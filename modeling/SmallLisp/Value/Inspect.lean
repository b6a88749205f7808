import SmallLisp.Number.Layout
import SmallLisp.Text.Quoted
import SmallLisp.Value

namespace SmallLisp

def Symbol.inspect (s : Symbol) : String := "Symbol(" ++ Text.quoted s.name ++ ")"

namespace Value

mutual

def inspect : Value → String
  | int n => toString n
  | float x => x.text
  | bool true => "True"
  | bool false => "False"
  | nil => "nil"
  | str text => Text.quoted text
  | sym s => s.inspect
  | list items => Text.bracketed (inspectEach items)
  | closure params body _ =>
    "Lambda(" ++ Text.bracketed (params.map Symbol.inspect) ++ ", " ++ inspect body ++ ")"
  | operator op => "Operator(" ++ Text.quoted op.name ++ ")"

def inspectEach : List Value → List String
  | [] => []
  | v :: rest => inspect v :: inspectEach rest

end

theorem inspectEach_eq_map (items : List Value) : inspectEach items = items.map inspect := by
  induction items with
  | nil => rfl
  | cons v rest ih => rw [inspectEach, ih, List.map_cons]

/-- As `inspect`, but texts and symbols stand for themselves. -/
def plain : Value → String
  | str text => text
  | sym s => s.name
  | v => v.inspect

end Value

end SmallLisp
