import SmallLisp.Eval
import SmallLisp.Proofs.Alike
import SmallLisp.Proofs.Outcome

namespace SmallLisp

namespace Form

def parts : Form → List Value
  | .define _ v => [v]
  | .letStar .. => []
  | .lambda .. => []
  | .sequence vs => vs
  | .conditional v w x => v :: w :: x.toList
  | .connective _ v w => [v, w]
  | .negation v => [v]
  | .print v => [v]
  | .literalList _ => []
  | .isList v => [v]
  | .isEmpty v => [v]
  | .count v => [v]
  | .sameKind v w => [v, w]

/-- The parts of a form that are evaluated in a new scope inside that of the form, at
once or by later calls. -/
def innerParts : Form → List Value
  | .letStar bs v => v :: bs.map (·.2)
  | .lambda _ v => [v]
  | _ => []

def binds : Form → List Symbol
  | .define name _ => [name]
  | _ => []

end Form

/-- Conditions under which two evaluations of alike forms stay in step. A `World` says
what is known of both machines, and it can only become later. The relations compare
what the first evaluation works on with what the second works on. -/
structure Lockstep where
  World : Type
  Later : World → World → Prop
  /-- What holds of all atoms and lists. -/
  node : Value → Prop
  /-- Two scopes that closures with a given body may hold. -/
  holds : World → Value → ScopeId → ScopeId → Prop
  /-- Two scopes in which a given form may be evaluated. -/
  reads : World → Value → ScopeId → ScopeId → Prop
  /-- Two scopes in which a given name may be bound. -/
  writes : World → Symbol → ScopeId → ScopeId → Prop
  /-- Two scopes inside which a new scope may be made for a given form. -/
  opens : World → Value → ScopeId → ScopeId → Prop := holds
  machine : World → Machine → Machine → Prop
  error : EvalError → EvalError → Prop
  refl : ∀ W, Later W W
  trans : ∀ {W X Y}, Later W X → Later X Y → Later W Y
  holds_mono : ∀ {W X v i j}, Later W X → holds W v i j → holds X v i j
  reads_mono : ∀ {W X v s t}, Later W X → reads W v s t → reads X v s t
  writes_mono : ∀ {W X k s t}, Later W X → writes W k s t → writes X k s t
  opens_of_holds : ∀ {W v i j}, holds W v i j → opens W v i j := by exact fun h => h
  holds_of_lambda : ∀ {W v vs s t special params w}, reads W (.list (v :: vs)) s t →
    SpecialForm.ofHead? v = some special → Form.ofTail special vs = .ok (.lambda params w) →
    opens W w s t → holds W w s t := by exact fun _ _ _ h => h
  node_zero : node (.int 0)
  node_nil : node .nil
  node_bool : ∀ b, node (.bool b)
  node_sequence : node (.sym SpecialForm.sequenceSymbol)
  node_length : ∀ {vs}, node (.list vs) → node (.int vs.length)
  node_list : ∀ {vs ws : List Value}, node (.list vs) → ws.length ≤ vs.length → node (.list ws)
  node_apply : ∀ {op : Operator} {v w x}, (v.IsAtom → node v) → (w.IsAtom → node w) →
    op.apply v w = .ok x → node x
  error_apply : ∀ {op : Operator} {v w e}, (v.IsAtom → node v) → (w.IsAtom → node w) →
    op.apply v w = .error e → error e e
  error_arity : ∀ m n, error (.arity m n) (.arity m n)
  error_boolean : ∀ f k, error (.kind (.booleanExpected f k)) (.kind (.booleanExpected f k))
  error_list : ∀ f k, error (.kind (.listExpected f k)) (.kind (.listExpected f k))
  error_shape : ∀ {W f x y}, x.Alike (Value.Alike node (holds W)) y → error (.shape f x) (.shape f y)
  reads_call : ∀ {W v vs s t}, reads W (.list (v :: vs)) s t → SpecialForm.ofHead? v = none →
    ∀ w ∈ v :: vs, reads W w s t
  reads_form : ∀ {W v vs s t special form}, reads W (.list (v :: vs)) s t →
    SpecialForm.ofHead? v = some special → Form.ofTail special vs = .ok form →
    (∀ w ∈ form.parts, reads W w s t) ∧ (∀ w ∈ form.innerParts, opens W w s t) ∧
      ∀ k ∈ form.binds, writes W k s t
  find : ∀ {W m n k s t}, machine W m n → reads W (.sym k) s t →
    Option.Rel (Value.Alike node (holds W)) (m.store.find? k s) (n.store.find? k t)
  put : ∀ {W m n k v w s t}, machine W m n → writes W k s t → Value.Alike node (holds W) v w →
    machine W { m with store := m.store.put s k v } { n with store := n.store.put t k w }
  create : ∀ {W m n v s t}, machine W m n → opens W v s t →
    ∃ X, Later W X ∧
      machine X { m with store := (m.store.create (some s)).2 }
        { n with store := (n.store.create (some t)).2 } ∧
      (∀ w, opens W w s t →
        reads X w (m.store.create (some s)).1 (n.store.create (some t)).1) ∧
      ∀ k, writes X k (m.store.create (some s)).1 (n.store.create (some t)).1
  print : ∀ {W m n v w}, machine W m n → Value.Alike node (holds W) v w →
    machine W (m.print v) (n.print w)

theorem Run.run_bind {α β : Type} (x : Run α) (f : α → Run β) (m : Machine) :
    (x >>= f).run m = match x.run m with
      | (.ok a, n) => (f a).run n
      | (.error e, n) => (.error e, n) := by
  change (match x.run m with | (a, n) => ExceptT.bindCont f a n) = _
  rcases x.run m with ⟨_ | a, n⟩ <;> rfl

namespace Lockstep

variable (L : Lockstep) {α β γ δ : Type}

abbrev Alike (W : L.World) : Value → Value → Prop := Value.Alike L.node (L.holds W)

/-- From machines that correspond, both computations lead to machines and to results
that do. -/
def Runs (W : L.World) (A : L.World → α → β → Prop) (x : Run α) (y : Run β) : Prop :=
  ∀ m n, L.machine W m n → ∃ X, L.Later W X ∧ L.machine X (x.run m).2 (y.run n).2 ∧
    Agree L.error (A X) (x.run m).1 (y.run n).1

def Evaluates (ev ev' : Evaluator) : Prop :=
  ∀ W v w s t, L.Alike W v w → L.reads W v s t → L.Runs W L.Alike (ev v s) (ev' w t)

variable {L} {W X : L.World} {A : L.World → α → β → Prop} {B : L.World → γ → δ → Prop}

theorem alike_later (hX : L.Later W X) {v w : Value} (h : L.Alike W v w) : L.Alike X v w :=
  h.mono fun _ _ _ => L.holds_mono hX

theorem runs_pure {a : α} {b : β} (h : A W a b) : L.Runs W A (pure a) (pure b) :=
  fun _ _ hm => ⟨W, L.refl W, hm, .ok h⟩

theorem runs_throw {e e' : EvalError} (h : L.error e e') : L.Runs W A (throw e) (throw e') :=
  fun _ _ hm => ⟨W, L.refl W, hm, .error h⟩

theorem runs_bind {x : Run α} {y : Run β} {f : α → Run γ} {g : β → Run δ} (hx : L.Runs W A x y)
    (hf : ∀ X a b, L.Later W X → A X a b → L.Runs X B (f a) (g b)) :
    L.Runs W B (x >>= f) (y >>= g) := by
  intro m n hm
  obtain ⟨X, hX, hm', hr⟩ := hx m n hm
  rw [Run.run_bind, Run.run_bind]
  rcases hxm : x.run m with ⟨r, m'⟩
  rcases hyn : y.run n with ⟨q, n'⟩
  rw [hxm, hyn] at hm' hr
  cases hr with
  | ok h =>
    obtain ⟨Y, hY, hm'', hr'⟩ := hf X _ _ hX h m' n' hm'
    exact ⟨Y, L.trans hX hY, hm'', hr'⟩
  | error h => exact ⟨X, hX, hm', .error h⟩

theorem runs_find {k : Symbol} {s t : ScopeId} (h : L.reads W (.sym k) s t) :
    L.Runs W (fun X => Option.Rel (L.Alike X)) (Run.find? k s) (Run.find? k t) :=
  fun _ _ hm => ⟨W, L.refl W, hm, .ok (L.find hm h)⟩

theorem runs_put {k : Symbol} {v w : Value} {s t : ScopeId} (h : L.writes W k s t)
    (hv : L.Alike W v w) : L.Runs W (fun _ _ _ => True) (Run.put k v s) (Run.put k w t) :=
  fun _ _ hm => ⟨W, L.refl W, L.put hm h hv, .ok trivial⟩

theorem runs_create {v : Value} {s t : ScopeId} (h : L.opens W v s t) :
    L.Runs W (fun X i j => (∀ w, L.opens W w s t → L.reads X w i j) ∧ ∀ k, L.writes X k i j)
      (Run.create s) (Run.create t) := by
  intro m n hm
  obtain ⟨X, hX, hm', hr, hw⟩ := L.create hm h
  exact ⟨X, hX, hm', .ok ⟨hr, hw⟩⟩

theorem runs_print {v w : Value} (h : L.Alike W v w) :
    L.Runs W (fun _ _ _ => True) (Run.print v) (Run.print w) :=
  fun _ _ hm => ⟨W, L.refl W, L.print hm h, .ok trivial⟩

end Lockstep

end SmallLisp
