import SmallLisp.Proofs.StoreFrames
import SmallLisp.Proofs.Subvalue

namespace SmallLisp.Store

/-- The scopes that one comes to from a scope: to the outside, and by the closures in the
values that are bound. -/
inductive Reaches (s : Store) (start : ScopeId) : ScopeId → Prop
  | start : Reaches s start start
  | outer {i o : ScopeId} {f : Frame} (h : Reaches s start i) (hf : s.frames[i]? = some f)
      (ho : f.outer = some o) : Reaches s start o
  | closure {i scope : ScopeId} {f : Frame} {p : Symbol × Value} {params : List Symbol}
      {body : Value} (h : Reaches s start i) (hf : s.frames[i]? = some f) (hp : p ∈ f.bindings)
      (ho : (Value.closure params body scope).Occurs p.2) : Reaches s start scope

/-- Whatever scope the root reaches, the lookup in it ends at the root. -/
def Rooted (root : ScopeId) (s : Store) : Prop :=
  ∀ scope, s.Reaches root scope → (s.chain scope).getLast? = some root

/-- Scopes with the root among them, and with all that each of them refers to. Only the root
is outermost. -/
structure Region (root : ScopeId) (P : ScopeId → Prop) (s : Store) : Prop where
  contains : P root
  outer : ∀ i, P i → ∃ f, s.frames[i]? = some f ∧
    ((f.outer = none ∧ i = root) ∨ ∃ o, f.outer = some o ∧ o < i ∧ P o)
  closure : ∀ (i : ScopeId) (f : Frame), P i → s.frames[i]? = some f → ∀ p ∈ f.bindings,
    ∀ params body scope, (Value.closure params body scope).Occurs p.2 → P scope

variable {root : ScopeId} {P : ScopeId → Prop} {s : Store}

theorem getLast?_chain (h : s.Region root P) {scope : ScopeId} (hs : P scope) :
    (s.chain scope).getLast? = some root := by
  induction scope using Nat.strongRecOn with
  | ind scope ih =>
    obtain ⟨f, hf, ⟨ho, rfl⟩ | ⟨o, ho, hlt, hP⟩⟩ := h.outer scope hs
    · simp only [chain, hf, ho, List.getLast?_singleton]
    · rw [chain]
      simp only [hf, ho, hlt, ↓reduceIte, List.getLast?_cons, ih o hlt hP, Option.getD_some]

theorem of_reaches (h : s.Region root P) {scope : ScopeId} (hr : s.Reaches root scope) :
    P scope := by
  induction hr with
  | start => exact h.contains
  | outer _ hf ho ih =>
    obtain ⟨f, hf', ⟨hnone, _⟩ | ⟨o, ho', _, hP⟩⟩ := h.outer _ ih
    · obtain rfl := Option.some.inj (hf.symm.trans hf')
      rw [ho] at hnone
      cases hnone
    · obtain rfl := Option.some.inj (hf.symm.trans hf')
      exact Option.some.inj (ho.symm.trans ho') ▸ hP
  | closure _ hf hp ho ih => exact h.closure _ _ ih hf _ hp _ _ _ ho

theorem rooted_of_region (h : s.Region root P) : s.Rooted root :=
  fun _ hr => getLast?_chain h (of_reaches h hr)

end SmallLisp.Store
