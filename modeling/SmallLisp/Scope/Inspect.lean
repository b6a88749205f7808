import SmallLisp.Scope

namespace SmallLisp

def Bindings.inspect (b : Bindings) : String :=
  "\x7b" ++ ", ".intercalate (b.map fun entry => entry.1.name ++ ": " ++ entry.2.inspect) ++ "\x7d"

namespace Store

def inspect (s : Store) (scope : ScopeId) : String :=
  (s.bindings scope).inspect ++ if (s.chain scope).length ≤ 1 then "" else " -> ..."

def inspectChain (s : Store) (scope : ScopeId) : String :=
  "<Environment chain: " ++
    " -> ".intercalate ((s.chain scope).map fun i => (s.bindings i).inspect) ++ ">"

end Store

end SmallLisp
