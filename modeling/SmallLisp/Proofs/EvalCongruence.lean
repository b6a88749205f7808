import SmallLisp.Eval
import SmallLisp.Proofs.OperatorResult

namespace SmallLisp

/-- A relation between computations that relates each single effect to itself, and is kept
when computations are put one after the other. Only the error of the limit need not be
related to itself. -/
structure Run.Congruence (R : (α : Type) → Run α → Run α → Prop) : Prop where
  pure : ∀ {α : Type} (a : α), R α (pure a) (pure a)
  throw : ∀ {α : Type} {e : EvalError}, (∀ limit, e ≠ .tooDeep limit) → R α (throw e) (throw e)
  bind : ∀ {α β : Type} {x y : Run α} {f g : α → Run β}, R α x y → (∀ a, R β (f a) (g a)) →
    R β (x >>= f) (y >>= g)
  find? : ∀ key scope, R _ (Run.find? key scope) (Run.find? key scope)
  put : ∀ key value scope, R _ (Run.put key value scope) (Run.put key value scope)
  create : ∀ outer, R _ (Run.create outer) (Run.create outer)
  print : ∀ v, R _ (Run.print v) (Run.print v)

namespace Eval

variable {R : (α : Type) → Run α → Run α → Prop} (C : Run.Congruence R)

include C

theorem symbol_related (key : Symbol) (scope : ScopeId) :
    R _ (symbol key scope) (symbol key scope) := by
  refine C.bind (C.find? key scope) fun x => ?_
  cases x with
  | none => exact C.pure _
  | some v => exact C.pure v

theorem putEach_related (scope : ScopeId) (entries : List (Symbol × Value)) :
    R _ (putEach scope entries) (putEach scope entries) := by
  induction entries with
  | nil => exact C.pure ()
  | cons entry entries ih => exact C.bind (C.put _ _ _) fun _ => ih

theorem apply_related (op : Operator) (a b : Value) :
    R _ (Run.ofExcept (op.apply a b)) (Run.ofExcept (op.apply a b)) := by
  cases h : op.apply a b with
  | ok v => exact C.pure v
  | error e =>
    refine C.throw fun limit he => ?_
    subst he
    cases Operator.apply_error h

variable {ev ev' : Evaluator} (hev : ∀ form scope, R _ (ev form scope) (ev' form scope))

include hev

theorem all_related (scope : ScopeId) (forms : List Value) :
    R _ (all ev scope forms) (all ev' scope forms) := by
  induction forms with
  | nil => exact C.pure []
  | cons form forms ih => exact C.bind (hev form scope) fun v => C.bind ih fun vs => C.pure (v :: vs)

theorem sequence_related (scope : ScopeId) (forms : List Value) :
    R _ (sequence ev scope forms) (sequence ev' scope forms) := by
  induction forms with
  | nil => exact C.pure _
  | cons form forms ih =>
    cases forms with
    | nil => exact hev form scope
    | cons _ _ => exact C.bind (hev form scope) fun _ => ih

theorem bindEach_related (scope : ScopeId) (entries : List (Symbol × Value)) :
    R _ (bindEach ev scope entries) (bindEach ev' scope entries) := by
  induction entries with
  | nil => exact C.pure ()
  | cons entry entries ih => exact C.bind (hev _ scope) fun v => C.bind (C.put _ v _) fun _ => ih

theorem boolean_related (special : SpecialForm) (operand : Value) (scope : ScopeId) :
    R _ (boolean ev special operand scope) (boolean ev' special operand scope) := by
  refine C.bind (hev operand scope) fun v => ?_
  cases v with
  | bool b => exact C.pure b
  | _ => exact C.throw nofun

theorem items_related (special : SpecialForm) (operand : Value) (scope : ScopeId) :
    R _ (items ev special operand scope) (items ev' special operand scope) := by
  refine C.bind (hev operand scope) fun v => ?_
  cases v with
  | list vs => exact C.pure vs
  | _ => exact C.throw nofun

theorem form_related (scope : ScopeId) (f : Form) :
    R _ (form ev scope f) (form ev' scope f) := by
  cases f with
  | define name value =>
    exact C.bind (hev value scope) fun v => C.bind (C.put name v scope) fun _ => C.pure v
  | letStar bindings body =>
    exact C.bind (C.create scope) fun inner =>
      C.bind (bindEach_related C hev inner bindings) fun _ => hev body inner
  | lambda params body => exact C.pure _
  | sequence forms => exact sequence_related C hev scope forms
  | conditional test yes no =>
    refine C.bind (hev test scope) fun v => ?_
    split
    · exact hev yes scope
    · cases no with
      | none => exact C.pure _
      | some form => exact hev form scope
  | connective c left right =>
    exact C.bind (boolean_related C hev _ left scope) fun _ =>
      C.bind (boolean_related C hev _ right scope) fun _ => C.pure _
  | negation operand => exact C.bind (boolean_related C hev _ operand scope) fun _ => C.pure _
  | print operand =>
    exact C.bind (hev operand scope) fun v => C.bind (C.print v) fun _ => C.pure _
  | literalList items => exact C.pure _
  | isList operand =>
    refine C.bind (hev operand scope) fun v => ?_
    cases v <;> exact C.pure _
  | isEmpty operand => exact C.bind (items_related C hev _ operand scope) fun _ => C.pure _
  | count operand => exact C.bind (items_related C hev _ operand scope) fun _ => C.pure _
  | sameKind left right =>
    exact C.bind (hev left scope) fun _ => C.bind (hev right scope) fun _ => C.pure _

theorem enterBody_related (params : List Symbol) (body : Value) (home : ScopeId)
    (values : List Value) :
    R _ (enterBody ev params body home values) (enterBody ev' params body home values) :=
  C.bind (C.create home) fun inner =>
    C.bind (putEach_related C inner (params.zip values)) fun _ => hev body inner

theorem callClosure_related (params : List Symbol) (body : Value) (home : ScopeId)
    (args : List Value) (scope : ScopeId) :
    R _ (callClosure ev params body home args scope) (callClosure ev' params body home args scope) := by
  unfold callClosure
  split
  · exact C.bind (all_related C hev scope args) fun values =>
      enterBody_related C hev params body home values
  · exact C.throw nofun

theorem callOperator_related (op : Operator) (args : List Value) (scope : ScopeId) :
    R _ (callOperator ev op args scope) (callOperator ev' op args scope) := by
  unfold callOperator
  split
  · exact C.bind (hev _ scope) fun a => C.bind (hev _ scope) fun b => apply_related C op a b
  · exact C.throw nofun

theorem application_related (head : Value) (tail : List Value) (scope : ScopeId) :
    R _ (application ev head tail scope) (application ev' head tail scope) := by
  unfold application
  split
  · split
    · exact form_related C hev scope _
    · exact C.throw nofun
  · refine C.bind (hev head scope) fun v => ?_
    cases v with
    | closure params body home => exact callClosure_related C hev params body home tail scope
    | operator op => exact callOperator_related C hev op tail scope
    | _ => exact C.pure _

theorem step_related (form : Value) (scope : ScopeId) :
    R _ (step ev form scope) (step ev' form scope) := by
  unfold step
  split
  · exact C.pure _
  · exact application_related C hev _ _ scope
  · exact symbol_related C _ scope
  · exact C.pure _

end Eval

/-- Evaluations with different numbers of levels are related, if they are where the first
has none left. -/
theorem evalLevels_related {R : (α : Type) → Run α → Run α → Prop} (C : Run.Congruence R)
    (limit limit' extra : Nat)
    (hend : ∀ form scope, R _ (throw (.tooDeep limit)) (evalLevels limit' extra form scope))
    (levels : Nat) (form : Value) (scope : ScopeId) :
    R _ (evalLevels limit levels form scope) (evalLevels limit' (extra + levels) form scope) := by
  induction levels generalizing form scope with
  | zero => exact hend form scope
  | succ levels ih => exact Eval.step_related C ih form scope

end SmallLisp
