import SmallLisp.Proofs.StoreFrames
import SmallLisp.Scope.Inspect
import SmallLisp.Session

namespace SmallLisp

inductive Step where
  | submit (text : String)
  | evaluate (form : Value)
  | bind (key : Symbol) (value : Value)

def Step.values : Step → List Value
  | submit _ => []
  | evaluate form => [form]
  | bind _ value => [value]

namespace Session

theorem frames_fresh : fresh.store.frames =
    #[⟨Bindings.putAll (Operator.all.map fun op => (op.symbol, .operator op)) [], none⟩] := rfl

theorem frame_fresh {i : ScopeId} {f : Frame} (h : fresh.store.frames[i]? = some f) :
    f.outer = none ∧ ∀ p ∈ f.bindings, ∃ op : Operator, p = (op.symbol, .operator op) := by
  rw [frames_fresh] at h
  obtain ⟨hi, rfl⟩ := Array.getElem?_eq_some_iff.mp h
  obtain rfl : i = 0 := Nat.lt_one_iff.mp hi
  refine ⟨rfl, ?_⟩
  refine Bindings.forall_putAll _ nofun fun p hp => ?_
  obtain ⟨op, _, rfl⟩ := List.mem_map.mp hp
  exact ⟨op, rfl⟩

theorem evaluate_of_ok {s : Session} {limit : Nat} {form v : Value} {m : Machine}
    (h : (eval limit 0 form root).run ⟨s.store, #[]⟩ = (.ok v, m)) :
    s.evaluate limit form = (⟨.ok v, m.shown⟩, ⟨m.store⟩) := by
  rw [evaluate, h]

theorem evaluate_of_error {s : Session} {limit : Nat} {form : Value} {e : EvalError} {m : Machine}
    (h : (eval limit 0 form root).run ⟨s.store, #[]⟩ = (.error e, m)) :
    s.evaluate limit form =
      (⟨.error (.evaluation e), m.shown⟩, ⟨m.store.restore root s.bindings⟩) := by
  rw [evaluate, h]

theorem submit_of_read {s : Session} {limit : Nat} {text : String} {form : Value}
    (h : Program.read limit text = .ok form) : s.submit limit text = s.evaluate limit form := by
  rw [submit, h]

theorem submit_of_unread {s : Session} {limit : Nat} {text : String} {e : ReadError}
    (h : Program.read limit text = .error e) :
    s.submit limit text = (⟨.error (.reading e), #[]⟩, s) := by
  rw [submit, h]

/-- A session takes a step under the limit of the moment. Only a `bind` has no reply. -/
def take (limit : Nat) (step : Step) (s : Session) : Option Reply × Session :=
  match step with
  | .submit text => (some (s.submit limit text).1, (s.submit limit text).2)
  | .evaluate form => (some (s.evaluate limit form).1, (s.evaluate limit form).2)
  | .bind key value => (none, s.bind key value)

/-- The sessions that come from a fresh one by steps that are allowed where they are
taken. -/
inductive Reached (Allowed : Session → Step → Prop) : Session → Prop
  | fresh : Reached Allowed Session.fresh
  | step {s : Session} (h : Reached Allowed s) (limit : Nat) {step : Step} (ha : Allowed s step) :
      Reached Allowed (s.take limit step).2

theorem holds_of_reached {Allowed : Session → Step → Prop} {P : Session → Prop}
    (hfresh : P Session.fresh)
    (hstep : ∀ s limit step, P s → Allowed s step → P (s.take limit step).2) {s : Session}
    (h : Reached Allowed s) : P s := by
  induction h with
  | fresh => exact hfresh
  | step _ limit ha ih => exact hstep _ limit _ ih ha

end Session

inductive FaultClass where
  | reading
  | emptyName
  | digits
  | unbound
  | arity
  | kind
  | shape
  | division
  | overflow
  | depth
  deriving DecidableEq, Repr

structure FaultReport where
  category : FaultClass
  texts : List String
  numbers : List Nat
  message : String
  deriving DecidableEq, Repr

def ReadError.report (e : ReadError) : FaultReport :=
  match e with
  | .emptyName => ⟨.emptyName, [], [], e.message⟩
  | .tooManyDigits _ => ⟨.digits, [], [], e.message⟩
  | _ => ⟨.reading, [e.message], [], e.message⟩

def EvalError.report (e : EvalError) : FaultReport :=
  match e with
  | .unbound name => ⟨.unbound, [name.name], [], e.message⟩
  | .arity expected got => ⟨.arity, [], [expected, got], e.message⟩
  | .kind fault => ⟨.kind, [fault.message], [], e.message⟩
  | .shape form fault => ⟨.shape, [form.name, fault.message], [], e.message⟩
  | .divisionByZero => ⟨.division, [], [], e.message⟩
  | .tooLarge => ⟨.overflow, [], [], e.message⟩
  | .tooDeep limit => ⟨.depth, [], [limit], e.message⟩

def Fault.report : Fault → FaultReport
  | reading error => error.report
  | evaluation error => error.report

/-- What shows of a step: the outcome and the printed lines, if it has a reply, and the
bindings of the root after it, in their order. -/
structure Answer where
  result : Option (Except FaultReport String)
  printed : Array String
  root : List (String × String × String)

namespace Session

def shownRoot (s : Session) : List (String × String × String) :=
  s.bindings.map fun entry => (entry.1.name, entry.2.display, entry.2.inspect)

def answer (reply : Option Reply) (s : Session) : Answer where
  result := reply.map fun r => (r.result.map Value.display).mapError Fault.report
  printed := (reply.map (·.printed)).getD #[]
  root := s.shownRoot

/-- The answers to a sequence of steps, each of them under its own limit. -/
def answers (s : Session) : List (Nat × Step) → List Answer
  | [] => []
  | (limit, step) :: steps =>
    answer (s.take limit step).1 (s.take limit step).2 :: answers (s.take limit step).2 steps

end Session

end SmallLisp
