import SmallLisp.Eval
import SmallLisp.Limit
import SmallLisp.Program

namespace SmallLisp

def Store.putOperators (s : Store) (scope : ScopeId) : Store :=
  s.putAll scope (Operator.all.map fun op => (op.symbol, .operator op))

inductive Fault where
  | reading (error : ReadError)
  | evaluation (error : EvalError)

def Fault.message : Fault → String
  | reading error => error.message
  | evaluation error => error.message

/-- What an input gives: its value, and the values that it printed, also when it
fails. -/
structure Reply where
  result : Except Fault Value
  shown : Array Value

namespace Reply

def printed (r : Reply) : Array String := r.shown.map Value.display

theorem printed_empty (result : Except Fault Value) : (Reply.mk result #[]).printed = #[] :=
  Array.map_empty

end Reply

structure Session where
  store : Store

namespace Session

def root : ScopeId := 0

def fresh : Session :=
  let (scope, store) := Store.empty.create none
  ⟨store.putOperators scope⟩

def bindings (s : Session) : Bindings := s.store.bindings root

/-- Evaluates a form at the root. The root's bindings are put back when it fails. -/
def evaluate (limit : Nat) (form : Value) (s : Session) : Reply × Session :=
  let saved := s.bindings
  match (eval limit 0 form root).run ⟨s.store, #[]⟩ with
  | (.ok v, m) => (⟨.ok v, m.shown⟩, ⟨m.store⟩)
  | (.error e, m) => (⟨.error (.evaluation e), m.shown⟩, ⟨m.store.restore root saved⟩)

def submit (limit : Nat) (text : String) (s : Session) : Reply × Session :=
  match Program.read limit text with
  | .ok form => s.evaluate limit form
  | .error e => (⟨.error (.reading e), #[]⟩, s)

def bind (key : Symbol) (value : Value) (s : Session) : Session :=
  ⟨s.store.put root key value⟩

end Session

structure Workspace where
  limit : Nat
  sessions : Array Session

namespace Workspace

def empty : Workspace := ⟨Limit.standard, #[]⟩

/-- Starts a session. A limit that is given with it holds for all sessions. -/
def start (limit : Option Int) (w : Workspace) : Except LimitError Workspace := do
  let limit ← limit.elim (.ok w.limit) Limit.check
  return ⟨limit, w.sessions.push Session.fresh⟩

def step? (i : Nat) (f : Nat → Session → α × Session) (w : Workspace) : Option (α × Workspace) :=
  (w.sessions[i]?).map fun s =>
    let (a, s) := f w.limit s
    (a, ⟨w.limit, w.sessions.setIfInBounds i s⟩)

end Workspace

end SmallLisp
