import SmallLisp.Proofs.FormShape
import SmallLisp.Proofs.OperatorResult
import SmallLisp.Proofs.SourceValues
import SmallLisp.Proofs.StoreFrames

namespace SmallLisp

def Store.FromText (s : Store) : Prop := s.Binds fun _ p => p.1.FromText ∧ p.2.FromText

structure Machine.FromText (m : Machine) : Prop where
  store : m.store.FromText
  shown : ∀ v ∈ m.shown, v.FromText

namespace Run

variable {α β : Type} {Q : α → Prop} {R : β → Prop} {x : Run α}

/-- Whatever machine from texts the computation starts on, it ends on one, and gives a result
with the property if it gives any. -/
def Yields (Q : α → Prop) (x : Run α) : Prop :=
  ∀ m : Machine, m.FromText → (x.run m).2.FromText ∧ ∀ a, (x.run m).1 = .ok a → Q a

theorem yields_pure {a : α} (h : Q a) : Yields Q (pure a) :=
  fun _ hm => ⟨hm, fun _ hb => Except.ok.inj hb ▸ h⟩

theorem yields_throw (e : EvalError) : Yields Q (throw e) := fun _ hm => ⟨hm, nofun⟩

theorem yields_bind {f : α → Run β} (hx : x.Yields Q) (hf : ∀ a, Q a → (f a).Yields R) :
    (x >>= f).Yields R := by
  intro m hm
  obtain ⟨hm', ha⟩ := hx m hm
  rw [run_bind]
  rcases hxm : x.run m with ⟨e | a, n⟩
  · rw [hxm] at hm'
    exact ⟨hm', nofun⟩
  · rw [hxm] at hm' ha
    exact hf a (ha a rfl) n hm'

theorem yields_find (key : Symbol) (scope : ScopeId) :
    (find? key scope).Yields fun x => ∀ v ∈ x, v.FromText := by
  refine fun m hm => ⟨hm, fun x hx v hv => ?_⟩
  obtain rfl := Except.ok.inj hx
  obtain ⟨_, hbound⟩ := Store.of_find? hm.store hv
  exact hbound.2

theorem yields_put {key : Symbol} {value : Value} (hk : key.FromText) (hv : value.FromText)
    (scope : ScopeId) : (put key value scope).Yields fun _ => True :=
  fun _ hm => ⟨⟨Store.binds_put hm.store scope fun _ => ⟨hk, hv⟩, hm.shown⟩, fun _ _ => trivial⟩

theorem yields_create (outer : ScopeId) : (create outer).Yields fun _ => True :=
  fun _ hm => ⟨⟨Store.binds_create hm.store _, hm.shown⟩, fun _ _ => trivial⟩

theorem yields_print {v : Value} (hv : v.FromText) :
    (print v).Yields fun _ => True := by
  refine fun m hm => ⟨⟨hm.store, fun w hw => ?_⟩, fun _ _ => trivial⟩
  obtain hw | rfl := Array.mem_push.mp hw
  · exact hm.shown w hw
  · exact hv

end Run

inductive Form.FromText : Form → Prop
  | define {name : Symbol} {v : Value} (hn : name.FromText) (h : v.FromText) :
      FromText (.define name v)
  | letStar {bs : Bindings} {body : Value} (hbs : ∀ b ∈ bs, b.1.FromText ∧ b.2.FromText)
      (h : body.FromText) : FromText (.letStar bs body)
  | lambda {params : List Symbol} {body : Value} (hp : ∀ k ∈ params, k.FromText)
      (h : body.FromText) : FromText (.lambda params body)
  | sequence {vs : List Value} (h : ∀ v ∈ vs, v.FromText) : FromText (.sequence vs)
  | conditional {test yes : Value} {no : Option Value} (ht : test.FromText) (hy : yes.FromText)
      (hn : ∀ v ∈ no, v.FromText) : FromText (.conditional test yes no)
  | connective (c : Connective) {left right : Value} (hl : left.FromText) (hr : right.FromText) :
      FromText (.connective c left right)
  | negation {v : Value} (h : v.FromText) : FromText (.negation v)
  | print {v : Value} (h : v.FromText) : FromText (.print v)
  | literalList {vs : List Value} (h : (Value.list vs).FromText) : FromText (.literalList vs)
  | isList {v : Value} (h : v.FromText) : FromText (.isList v)
  | isEmpty {v : Value} (h : v.FromText) : FromText (.isEmpty v)
  | count {v : Value} (h : v.FromText) : FromText (.count v)
  | sameKind {left right : Value} (hl : left.FromText) (hr : right.FromText) :
      FromText (.sameKind left right)

namespace Form

variable {tail : List Value} {f : Form}

theorem fromText_of_bodyOf {forms : List Value} {body : Value} (h : bodyOf forms = .ok body)
    (hlength : (forms.length : Int) < Number.intMax) (hforms : ∀ v ∈ forms, v.FromText) :
    body.FromText := by
  obtain hmem | rfl := bodyOf_ok h
  · exact hforms body hmem
  · refine .list ?_ (List.forall_mem_cons.mpr ⟨.sym ⟨by decide +kernel, rfl⟩, hforms⟩)
    rw [List.length_cons]
    omega

theorem fromText_of_bindingsOf {items : List Value} {bs : Bindings} (h : bindingsOf items = .ok bs)
    (hitems : ∀ v ∈ items, v.FromText) : ∀ b ∈ bs, b.1.FromText ∧ b.2.FromText := by
  fun_induction bindingsOf items generalizing bs with
  | case1 =>
    cases h
    exact List.forall_mem_nil _
  | case2 => cases h
  | case3 name value rest ih =>
    obtain ⟨more, hmore, h⟩ := bind_eq_ok.mp h
    cases h
    simp only [List.forall_mem_cons] at hitems
    obtain ⟨hname, hvalue, hrest⟩ := hitems
    exact List.forall_mem_cons.mpr ⟨⟨Symbol.fromText_of_sym hname, hvalue⟩, ih hmore hrest⟩
  | case4 => cases h

theorem fromText_of_paramsOf {items : List Value} {params : List Symbol}
    (h : paramsOf items = .ok params) (hitems : ∀ v ∈ items, v.FromText) :
    ∀ k ∈ params, k.FromText := by
  fun_induction paramsOf items generalizing params with
  | case1 =>
    cases h
    exact List.forall_mem_nil _
  | case2 name rest ih =>
    obtain ⟨more, hmore, h⟩ := bind_eq_ok.mp h
    cases h
    obtain ⟨hname, hrest⟩ := List.forall_mem_cons.mp hitems
    exact List.forall_mem_cons.mpr ⟨Symbol.fromText_of_sym hname, ih hmore hrest⟩
  | case3 => cases h

theorem fromText_of_ofTail {special : SpecialForm} {head : Value}
    (h : ofTail special tail = .ok f) (ht : (Value.list (head :: tail)).FromText) :
    f.FromText := by
  obtain ⟨hlength, hitems⟩ := Value.fromText_items ht
  rw [List.length_cons] at hlength
  obtain ⟨_, hitems⟩ := List.forall_mem_cons.mp hitems
  cases special with
  | define =>
    obtain ⟨name, value, rfl, rfl⟩ := defineOf_ok h
    simp only [List.forall_mem_cons] at hitems
    exact .define (Symbol.fromText_of_sym hitems.1) hitems.2.1
  | letStar =>
    obtain ⟨items, forms, bs, body, rfl, hbs, hb, rfl⟩ := letStarOf_ok h
    obtain ⟨hlist, hforms⟩ := List.forall_mem_cons.mp hitems
    obtain ⟨_, hi⟩ := Value.fromText_items hlist
    rw [List.length_cons] at hlength
    exact .letStar (fromText_of_bindingsOf hbs hi) (fromText_of_bodyOf hb (by omega) hforms)
  | lambda =>
    obtain ⟨items, forms, params, body, rfl, hp, hb, rfl⟩ := lambdaOf_ok h
    obtain ⟨hlist, hforms⟩ := List.forall_mem_cons.mp hitems
    obtain ⟨_, hi⟩ := Value.fromText_items hlist
    rw [List.length_cons] at hlength
    exact .lambda (fromText_of_paramsOf hp hi) (fromText_of_bodyOf hb (by omega) hforms)
  | sequence =>
    obtain rfl := Except.ok.inj h
    exact .sequence hitems
  | conditional =>
    obtain ⟨test, yes, no, rfl, rfl⟩ := conditionalOf_ok h
    simp only [List.forall_mem_cons, Option.mem_toList] at hitems
    exact .conditional hitems.1 hitems.2.1 hitems.2.2
  | literalList =>
    obtain rfl := Except.ok.inj h
    exact .literalList (.list (by omega) hitems)
  | connective c =>
    obtain ⟨left, right, rfl, rfl⟩ := binaryOf_ok h
    exact .connective c (hitems left (by simp)) (hitems right (by simp))
  | sameKind =>
    obtain ⟨left, right, rfl, rfl⟩ := binaryOf_ok h
    exact .sameKind (hitems left (by simp)) (hitems right (by simp))
  | negation =>
    obtain ⟨operand, rfl, rfl⟩ := unaryOf_ok h
    exact .negation (hitems operand (.head _))
  | print =>
    obtain ⟨operand, rfl, rfl⟩ := unaryOf_ok h
    exact .print (hitems operand (.head _))
  | isList =>
    obtain ⟨operand, rfl, rfl⟩ := unaryOf_ok h
    exact .isList (hitems operand (.head _))
  | isEmpty =>
    obtain ⟨operand, rfl, rfl⟩ := unaryOf_ok h
    exact .isEmpty (hitems operand (.head _))
  | count =>
    obtain ⟨operand, rfl, rfl⟩ := unaryOf_ok h
    exact .count (hitems operand (.head _))

end Form

theorem Operator.fromText_of_apply {op : Operator} {v w x : Value} (h : op.apply v w = .ok x)
    (hv : v.FromText) (hw : w.FromText) : x.FromText := by
  cases Operator.apply_ok h with
  | int n => exact .int (Number.wrap_mem n).1 (Number.wrap_mem n).2
  | bool b => exact .bool b
  | float y =>
    obtain hkind | hkind := Operator.apply_float h
    · exact absurd hkind (Value.kind_of_fromText hv)
    · exact absurd hkind (Value.kind_of_fromText hw)

def Evaluator.Sourced (ev : Evaluator) : Prop :=
  ∀ (v : Value) (scope : ScopeId), v.FromText → (ev v scope).Yields Value.FromText

namespace Eval

open Run

variable {ev : Evaluator} {scope : ScopeId}

theorem unboundValue_fromText {s : Symbol} (hs : s.FromText) : (unboundValue s).FromText := by
  unfold unboundValue
  split_ifs
  · exact .nil
  · exact .bool true
  · exact .bool false
  · exact .sym hs

theorem symbol_yields {s : Symbol} (hs : s.FromText) (scope : ScopeId) :
    (symbol s scope).Yields Value.FromText := by
  refine yields_bind (yields_find s scope) fun x hx => ?_
  cases x with
  | some v => exact yields_pure (hx v rfl)
  | none => exact yields_pure (unboundValue_fromText hs)

theorem all_yields (hev : ev.Sourced) (scope : ScopeId) {forms : List Value}
    (h : ∀ v ∈ forms, v.FromText) : (all ev scope forms).Yields fun vs => ∀ v ∈ vs, v.FromText := by
  induction forms with
  | nil => exact yields_pure (List.forall_mem_nil _)
  | cons form forms ih =>
    obtain ⟨hform, hforms⟩ := List.forall_mem_cons.mp h
    refine yields_bind (hev form scope hform) fun v hv => ?_
    refine yields_bind (ih hforms) fun vs hvs => ?_
    exact yields_pure (List.forall_mem_cons.mpr ⟨hv, hvs⟩)

theorem sequence_yields (hev : ev.Sourced) (scope : ScopeId) {forms : List Value}
    (h : ∀ v ∈ forms, v.FromText) : (sequence ev scope forms).Yields Value.FromText := by
  induction forms with
  | nil => exact yields_pure .nil
  | cons form forms ih =>
    obtain ⟨hform, hforms⟩ := List.forall_mem_cons.mp h
    cases forms with
    | nil => exact hev form scope hform
    | cons next rest => exact yields_bind (hev form scope hform) fun _ _ => ih hforms

theorem putEach_yields (scope : ScopeId) {bs : List (Symbol × Value)}
    (h : ∀ b ∈ bs, b.1.FromText ∧ b.2.FromText) : (putEach scope bs).Yields fun _ => True := by
  induction bs with
  | nil => exact yields_pure trivial
  | cons b bs ih =>
    obtain ⟨⟨hname, hvalue⟩, hbs⟩ := List.forall_mem_cons.mp h
    exact yields_bind (yields_put hname hvalue scope) fun _ _ => ih hbs

theorem bindEach_yields (hev : ev.Sourced) (scope : ScopeId) {bs : List (Symbol × Value)}
    (h : ∀ b ∈ bs, b.1.FromText ∧ b.2.FromText) : (bindEach ev scope bs).Yields fun _ => True := by
  induction bs with
  | nil => exact yields_pure trivial
  | cons b bs ih =>
    obtain ⟨⟨hname, hform⟩, hbs⟩ := List.forall_mem_cons.mp h
    refine yields_bind (hev b.2 scope hform) fun v hv => ?_
    exact yields_bind (yields_put hname hv scope) fun _ _ => ih hbs

theorem boolean_yields (hev : ev.Sourced) (special : SpecialForm) {operand : Value}
    (h : operand.FromText) (scope : ScopeId) :
    (boolean ev special operand scope).Yields fun _ => True := by
  refine yields_bind (hev operand scope h) fun v _ => ?_
  cases v with
  | bool b => exact yields_pure trivial
  | _ => exact yields_throw _

theorem items_yields (hev : ev.Sourced) (special : SpecialForm) {operand : Value}
    (h : operand.FromText) (scope : ScopeId) :
    (items ev special operand scope).Yields fun vs => (Value.list vs).FromText := by
  refine yields_bind (hev operand scope h) fun v hv => ?_
  cases v with
  | list vs => exact yields_pure hv
  | _ => exact yields_throw _

theorem form_yields (hev : ev.Sourced) (scope : ScopeId) {f : Form} (h : f.FromText) :
    (form ev scope f).Yields Value.FromText := by
  cases h with
  | define hn h =>
    refine yields_bind (hev _ scope h) fun v hv => ?_
    exact yields_bind (yields_put hn hv scope) fun _ _ => yields_pure hv
  | letStar hbs h =>
    refine yields_bind (yields_create scope) fun inner _ => ?_
    exact yields_bind (bindEach_yields hev inner hbs) fun _ _ => hev _ inner h
  | lambda hp h => exact yields_pure (.closure hp h)
  | sequence h => exact sequence_yields hev scope h
  | @conditional _ _ no ht hy hn =>
    refine yields_bind (hev _ scope ht) fun v _ => ?_
    split
    · exact hev _ scope hy
    · cases no with
      | some form => exact hev form scope (hn form rfl)
      | none => exact yields_pure .nil
  | connective c hl hr =>
    refine yields_bind (boolean_yields hev _ hl scope) fun a _ => ?_
    exact yields_bind (boolean_yields hev _ hr scope) fun b _ => yields_pure (.bool _)
  | negation h => exact yields_bind (boolean_yields hev _ h scope) fun b _ => yields_pure (.bool _)
  | print h =>
    refine yields_bind (hev _ scope h) fun v hv => ?_
    exact yields_bind (yields_print hv) fun _ _ => yields_pure .nil
  | literalList h => exact yields_pure h
  | isList h =>
    refine yields_bind (hev _ scope h) fun v _ => ?_
    cases v <;> exact yields_pure (.bool _)
  | isEmpty h => exact yields_bind (items_yields hev _ h scope) fun vs _ => yields_pure (.bool _)
  | count h =>
    refine yields_bind (items_yields hev _ h scope) fun vs hvs => yields_pure ?_
    -- A count is in range since the list is not too long.
    obtain ⟨hlength, _⟩ := Value.fromText_items hvs
    exact .int (Int.le_trans (by decide) (Int.natCast_nonneg _)) hlength
  | sameKind hl hr =>
    refine yields_bind (hev _ scope hl) fun a _ => ?_
    exact yields_bind (hev _ scope hr) fun b _ => yields_pure (.bool _)

theorem enterBody_yields (hev : ev.Sourced) {params : List Symbol} {body : Value} (home : ScopeId)
    (hp : ∀ k ∈ params, k.FromText) (hbody : body.FromText) {values : List Value}
    (h : ∀ v ∈ values, v.FromText) :
    (enterBody ev params body home values).Yields Value.FromText := by
  refine yields_bind (yields_create home) fun inner _ => ?_
  refine yields_bind (putEach_yields inner fun b hb => ?_) fun _ _ => hev body inner hbody
  obtain ⟨hname, hvalue⟩ := List.of_mem_zip hb
  exact ⟨hp b.1 hname, h b.2 hvalue⟩

theorem callClosure_yields (hev : ev.Sourced) {params : List Symbol} {body : Value}
    (home : ScopeId) (hp : ∀ k ∈ params, k.FromText) (hbody : body.FromText) {args : List Value}
    (h : ∀ v ∈ args, v.FromText) (scope : ScopeId) :
    (callClosure ev params body home args scope).Yields Value.FromText := by
  unfold callClosure
  split
  · exact yields_bind (all_yields hev scope h) fun vs hvs => enterBody_yields hev home hp hbody hvs
  · exact yields_throw _

theorem callOperator_yields (hev : ev.Sourced) (op : Operator) {args : List Value}
    (h : ∀ v ∈ args, v.FromText) (scope : ScopeId) :
    (callOperator ev op args scope).Yields Value.FromText := by
  unfold callOperator
  split
  · next left right =>
    refine yields_bind (hev left scope (h left (by simp))) fun a ha => ?_
    refine yields_bind (hev right scope (h right (by simp))) fun b hb => ?_
    cases hop : op.apply a b with
    | ok v => exact yields_pure (Operator.fromText_of_apply hop ha hb)
    | error e => exact yields_throw e
  · exact yields_throw _

theorem application_yields (hev : ev.Sourced) {head : Value} {tail : List Value}
    (h : (Value.list (head :: tail)).FromText) (scope : ScopeId) :
    (application ev head tail scope).Yields Value.FromText := by
  obtain ⟨hhead, htail⟩ := List.forall_mem_cons.mp (Value.fromText_items h).2
  unfold application
  split
  · split
    · next f hf => exact form_yields hev scope (Form.fromText_of_ofTail hf h)
    · exact yields_throw _
  · refine yields_bind (hev head scope hhead) fun v hv => ?_
    split
    · cases hv with
      | closure hp hbody => exact callClosure_yields hev _ hp hbody htail scope
    · exact callOperator_yields hev _ htail scope
    · exact yields_pure hv

theorem step_sourced (hev : ev.Sourced) : Evaluator.Sourced (step ev) := by
  intro v scope h
  unfold step
  split
  · exact yields_pure (.int (by decide) (by decide))
  · exact application_yields hev h scope
  · exact symbol_yields (Symbol.fromText_of_sym h) scope
  · exact yields_pure h

end Eval

theorem evalLevels_sourced (limit levels : Nat) : Evaluator.Sourced (evalLevels limit levels) := by
  induction levels with
  | zero => exact fun _ _ _ => Run.yields_throw _
  | succ levels ih => exact Eval.step_sourced ih

end SmallLisp
