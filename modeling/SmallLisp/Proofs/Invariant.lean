import SmallLisp.Proofs.LockstepEval
import SmallLisp.Proofs.StoreFrames

namespace SmallLisp

/-- A value of which every atom and list satisfies `node`, and every closure holds a
scope that satisfies `home`. -/
def Value.Fits (node : Value → Prop) (home : ScopeId → Prop) (v : Value) : Prop :=
  v.Alike node (fun _ i j => i = j ∧ home i) v

/-- Conditions that an evaluation keeps up: of the values that it works on, of the
machine, and of the scopes in which forms are evaluated. -/
structure Invariant where
  World : Type
  Later : World → World → Prop
  node : Value → Prop
  home : World → ScopeId → Prop
  opens : World → ScopeId → Prop
  machine : World → Machine → Prop
  error : EvalError → Prop
  refl : ∀ W, Later W W
  trans : ∀ {W X Y}, Later W X → Later X Y → Later W Y
  home_mono : ∀ {W X i}, Later W X → home W i → home X i
  opens_mono : ∀ {W X i}, Later W X → opens W i → opens X i
  home_of_opens : ∀ {W i}, opens W i → home W i
  node_zero : node (.int 0)
  node_nil : node .nil
  node_bool : ∀ b, node (.bool b)
  node_sequence : node (.sym SpecialForm.sequenceSymbol)
  node_length : ∀ {vs}, node (.list vs) → node (.int vs.length)
  node_list : ∀ {vs ws : List Value}, node (.list vs) → ws.length ≤ vs.length → node (.list ws)
  node_apply : ∀ {op : Operator} {v w x}, (v.IsAtom → node v) → (w.IsAtom → node w) →
    op.apply v w = .ok x → node x
  error_apply : ∀ {op : Operator} {v w e}, (v.IsAtom → node v) → (w.IsAtom → node w) →
    op.apply v w = .error e → error e
  error_arity : ∀ m n, error (.arity m n)
  error_boolean : ∀ f k, error (.kind (.booleanExpected f k))
  error_list : ∀ f k, error (.kind (.listExpected f k))
  error_shape : ∀ f x, error (.shape f x)
  bound : ∀ {W m} {i : ScopeId} {f : Frame} {k v}, machine W m → m.store.frames[i]? = some f →
    (k, v) ∈ f.bindings → v.Fits node (home W)
  put : ∀ {W m k v s}, machine W m → opens W s → v.Fits node (home W) →
    machine W { m with store := m.store.put s k v }
  create : ∀ {W m s}, machine W m → home W s →
    ∃ X, Later W X ∧ machine X { m with store := (m.store.create (some s)).2 } ∧
      opens X (m.store.create (some s)).1
  print : ∀ {W m v}, machine W m → v.Fits node (home W) → machine W (m.print v)

namespace Invariant

variable (I : Invariant)

abbrev Fits (W : I.World) (v : Value) : Prop := v.Fits I.node (I.home W)

theorem eq_of_alike {W : I.World} {v w : Value}
    (h : v.Alike I.node (fun _ i j => i = j ∧ I.home W i) w) : v = w :=
  h.eq_of_link fun _ _ _ h => h.1

def lockstep : Lockstep where
  World := I.World
  Later := I.Later
  node := I.node
  holds W _ i j := i = j ∧ I.home W i
  reads W _ s t := s = t ∧ I.opens W s
  writes W _ s t := s = t ∧ I.opens W s
  machine W m n := m = n ∧ I.machine W m
  error e e' := e = e' ∧ I.error e
  refl := I.refl
  trans := I.trans
  holds_mono hX h := ⟨h.1, I.home_mono hX h.2⟩
  reads_mono hX h := ⟨h.1, I.opens_mono hX h.2⟩
  writes_mono hX h := ⟨h.1, I.opens_mono hX h.2⟩
  node_zero := I.node_zero
  node_nil := I.node_nil
  node_bool := I.node_bool
  node_sequence := I.node_sequence
  node_length := I.node_length
  node_list := I.node_list
  node_apply := I.node_apply
  error_apply hv hw h := ⟨rfl, I.error_apply hv hw h⟩
  error_arity m n := ⟨rfl, I.error_arity m n⟩
  error_boolean f k := ⟨rfl, I.error_boolean f k⟩
  error_list f k := ⟨rfl, I.error_list f k⟩
  error_shape h := ⟨by rw [h.eq fun _ _ => I.eq_of_alike], I.error_shape _ _⟩
  reads_call h _ := fun _ _ => h
  reads_form h _ _ := ⟨fun _ _ => h, fun _ _ => ⟨h.1, I.home_of_opens h.2⟩, fun _ _ => h⟩
  find := by
    rintro W m n k s t ⟨rfl, hm⟩ ⟨rfl, hs⟩
    cases hf : m.store.find? k s with
    | none => exact .none
    | some v =>
      obtain ⟨i, f, hi, hv⟩ := Store.exists_of_find? _ _ hf
      exact .some (I.bound hm hi hv)
  put := by
    rintro W m n k v w s t ⟨rfl, hm⟩ ⟨rfl, hs⟩ hv
    obtain rfl := I.eq_of_alike hv
    exact ⟨rfl, I.put hm hs hv⟩
  create := by
    rintro W m n v s t ⟨rfl, hm⟩ ⟨rfl, hs⟩
    obtain ⟨X, hX, hm', ho⟩ := I.create hm hs
    exact ⟨X, hX, ⟨rfl, hm'⟩, fun _ _ => ⟨rfl, ho⟩, fun _ => ⟨rfl, ho⟩⟩
  print := by
    rintro W m n v w ⟨rfl, hm⟩ hv
    obtain rfl := I.eq_of_alike hv
    exact ⟨rfl, I.print hm hv⟩

def Ends (W : I.World) (A : I.World → α → Prop) (r : Except EvalError α × Machine) : Prop :=
  ∃ X, I.Later W X ∧ I.machine X r.2 ∧ match r.1 with
    | .ok a => A X a
    | .error e => I.error e

theorem ends_of_runs {W : I.World} {A : I.World → α → Prop} {B : I.World → α → α → Prop}
    (hB : ∀ X a b, B X a b → A X a) {x : Run α} (h : I.lockstep.Runs W B x x) {m : Machine}
    (hm : I.machine W m) : I.Ends W A (x.run m) := by
  obtain ⟨X, hX, hm', hr⟩ := h m m ⟨rfl, hm⟩
  refine ⟨X, hX, hm'.2, ?_⟩
  generalize (x.run m).1 = r at hr
  cases hr with
  | ok h => exact hB _ _ _ h
  | error h => exact h.2

theorem eval_ends (limit : Nat) (hl : I.error (.tooDeep limit)) (depth : Int) (W : I.World)
    (m : Machine) (form : Value) (scope : ScopeId) (hm : I.machine W m) (hf : I.Fits W form)
    (hs : I.opens W scope) : I.Ends W I.Fits ((eval limit depth form scope).run m) := by
  refine I.ends_of_runs (B := I.lockstep.Alike) (fun X v w h => ?_)
    (I.lockstep.evalLevels_evaluates limit limit ⟨rfl, hl⟩ _ W form form scope scope hf ⟨rfl, hs⟩) hm
  obtain rfl := I.eq_of_alike h
  exact h

end Invariant
end SmallLisp
