namespace SmallLisp

structure Symbol where
  name : String
  name_ne : name ≠ ""
  deriving DecidableEq

namespace Symbol

def ofName? (name : String) : Option Symbol :=
  if h : name = "" then none else some ⟨name, h⟩

theorem ext_name {s t : Symbol} (h : s.name = t.name) : s = t := by
  cases s
  cases t
  simpa using h

theorem ofName?_name (s : Symbol) : ofName? s.name = some s := by
  simp [ofName?, s.name_ne]

end Symbol

end SmallLisp
