import SmallLisp.Number.Layout
import SmallLisp.Value

namespace SmallLisp.Value

mutual

/-- The text of a value as programs print it. Texts stand in double quotes as they
are, without escapes. -/
def display : Value → String
  | int n => toString n
  | float x => x.display
  | bool true => "true"
  | bool false => "false"
  | nil => "nil"
  | str text => "\x22" ++ text ++ "\x22"
  | sym s => s.name
  | list items => "(" ++ " ".intercalate (displayEach items) ++ ")"
  | closure .. => "#<function>"
  | operator op => "#<operator " ++ op.name ++ ">"

def displayEach : List Value → List String
  | [] => []
  | v :: rest => display v :: displayEach rest

end

theorem displayEach_eq_map (items : List Value) : displayEach items = items.map display := by
  induction items with
  | nil => rfl
  | cons v rest ih => rw [displayEach, ih, List.map_cons]

end SmallLisp.Value
