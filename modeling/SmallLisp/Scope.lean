import SmallLisp.EvalError

namespace SmallLisp

/-- Names with their values, in order of first insertion. -/
abbrev Bindings := List (Symbol × Value)

namespace Bindings

def value? (key : Symbol) : Bindings → Option Value
  | [] => none
  | (k, v) :: rest => if k = key then some v else value? key rest

/-- Binds a name. A name that is bound already keeps its place. -/
def put (key : Symbol) (value : Value) : Bindings → Bindings
  | [] => [(key, value)]
  | (k, v) :: rest => if k = key then (k, value) :: rest else (k, v) :: put key value rest

def putAll (entries : List (Symbol × Value)) (b : Bindings) : Bindings :=
  entries.foldl (fun b entry => put entry.1 entry.2 b) b

def names (b : Bindings) : List Symbol := b.map (·.1)

theorem value?_put (b : Bindings) (key k : Symbol) (value : Value) :
    value? k (put key value b) = if k = key then some value else value? k b := by
  induction b with
  | nil => by_cases h : k = key <;> simp_all [put, value?, eq_comm]
  | cons entry rest ih =>
    obtain ⟨name, old⟩ := entry
    by_cases hn : name = key
    · subst name
      by_cases h : k = key <;> simp_all [put, value?, eq_comm]
    · by_cases h : name = k
      · subst name
        simp [put, value?, hn]
      · simp [put, value?, hn, h, ih]

theorem names_put (b : Bindings) (key : Symbol) (value : Value) :
    names (put key value b) = if key ∈ names b then names b else names b ++ [key] := by
  induction b with
  | nil => simp [put, names]
  | cons entry rest ih =>
    obtain ⟨name, old⟩ := entry
    by_cases hn : name = key
    · simp [put, names, hn]
    · have hk : ¬ key = name := fun h => hn h.symm
      by_cases hr : key ∈ names rest <;> simp_all [put, names]

end Bindings

structure Frame where
  bindings : Bindings
  outer : Option ScopeId

instance : Inhabited Frame := ⟨⟨[], none⟩⟩

/-- All scopes, numbered in order of creation. A scope stays when the call that made it
has returned, since closures can still hold it. -/
structure Store where
  frames : Array Frame

namespace Store

def empty : Store := ⟨#[]⟩

def create (s : Store) (outer : Option ScopeId) : ScopeId × Store :=
  (s.frames.size, ⟨s.frames.push ⟨[], outer⟩⟩)

def bindings (s : Store) (scope : ScopeId) : Bindings :=
  match s.frames[scope]? with
  | none => []
  | some f => f.bindings

def restore (s : Store) (scope : ScopeId) (saved : Bindings) : Store :=
  ⟨s.frames.modify scope fun f => ⟨saved, f.outer⟩⟩

def put (s : Store) (scope : ScopeId) (key : Symbol) (value : Value) : Store :=
  ⟨s.frames.modify scope fun f => ⟨f.bindings.put key value, f.outer⟩⟩

def putAll (s : Store) (scope : ScopeId) (entries : List (Symbol × Value)) : Store :=
  ⟨s.frames.modify scope fun f => ⟨f.bindings.putAll entries, f.outer⟩⟩

/-- The value of a name in the innermost scope that binds it. A scope lies inside
older ones only. -/
def find? (s : Store) (key : Symbol) (scope : ScopeId) : Option Value :=
  match s.frames[scope]? with
  | none => none
  | some f =>
    match f.bindings.value? key with
    | some v => some v
    | none =>
      match f.outer with
      | none => none
      | some outer => if outer < scope then s.find? key outer else none
termination_by scope

theorem size_put (s : Store) (scope : ScopeId) (key : Symbol) (value : Value) :
    (s.put scope key value).frames.size = s.frames.size := by
  simp [put]

theorem bindings_put (s : Store) (scope other : ScopeId) (key : Symbol) (value : Value) :
    (s.put scope key value).bindings other =
      if scope = other ∧ other < s.frames.size then (s.bindings other).put key value
      else s.bindings other := by
  simp only [bindings, put, Array.getElem?_modify]
  by_cases h : scope = other
  · by_cases hs : other < s.frames.size <;> simp [h, hs]
  · simp [h]

theorem bindings_restore (s : Store) (scope other : ScopeId) (saved : Bindings) :
    (s.restore scope saved).bindings other =
      if scope = other ∧ other < s.frames.size then saved else s.bindings other := by
  simp only [bindings, restore, Array.getElem?_modify]
  by_cases h : scope = other
  · by_cases hs : other < s.frames.size <;> simp [h, hs]
  · simp [h]

def get (s : Store) (key : Symbol) (scope : ScopeId) : Except EvalError Value :=
  match s.find? key scope with
  | some v => .ok v
  | none => .error (.unbound key)

def contains (s : Store) (key : Symbol) (scope : ScopeId) : Bool := (s.find? key scope).isSome

def chain (s : Store) (scope : ScopeId) : List ScopeId :=
  match s.frames[scope]? with
  | none => []
  | some f =>
    match f.outer with
    | none => [scope]
    | some outer => if outer < scope then scope :: s.chain outer else [scope]
termination_by scope

def putKey (s : Store) (scope : ScopeId) (key value : Value) : Except EvalError Store :=
  match key with
  | .sym k => .ok (s.put scope k value)
  | _ => .error (.kind (.keyNotSymbol key))

def enter (s : Store) (scope : ScopeId) (params : List Symbol) (values : List Value) :
    Except EvalError (ScopeId × Store) :=
  if params.length = values.length then
    let (inner, s) := s.create (some scope)
    .ok (inner, s.putAll inner (params.zip values))
  else .error (.arity params.length values.length)

end Store

end SmallLisp
