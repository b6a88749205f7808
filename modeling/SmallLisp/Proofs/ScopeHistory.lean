import SmallLisp.Proofs.StoreFrames

namespace SmallLisp

/-- What a program does with its scopes. The key of a binding may be any value, a call
binds its parameters in a new scope, and snapshots are numbered as they are taken. -/
inductive ScopeAction where
  | create (outer : Option ScopeId)
  | set (scope : ScopeId) (key value : Value)
  | update (scope : ScopeId) (entries : List (Value × Value))
  | bind (home : ScopeId) (params : List Symbol) (values : List Value)
  | snapshot (scope : ScopeId)
  | restore (scope : ScopeId) (saved : Nat)

def symbolEntries : List (Value × Value) → List (Symbol × Value)
  | (.sym key, value) :: rest => (key, value) :: symbolEntries rest
  | _ => []

namespace Store

def update (s : Store) (scope : ScopeId) : List (Value × Value) → Store
  | [] => s
  | (key, value) :: rest =>
    match s.putKey scope key value with
    | .ok s => s.update scope rest
    | .error _ => s

theorem update_eq_putAll (s : Store) (scope : ScopeId) (entries : List (Value × Value)) :
    s.update scope entries = s.putAll scope (symbolEntries entries) := by
  induction entries generalizing s with
  | nil => exact (s.putAll_nil scope).symm
  | cons entry rest ih =>
    obtain ⟨key, value⟩ := entry
    cases key with
    | sym key => exact (ih _).trans (s.putAll_cons scope key value _).symm
    | _ => exact (s.putAll_nil scope).symm

def opened (s : Store) (outer : Option ScopeId) (entries : List (Symbol × Value)) : Store :=
  (s.create outer).2.putAll s.frames.size entries

theorem opened_nil (s : Store) (outer : Option ScopeId) :
    s.opened outer [] = (s.create outer).2 :=
  putAll_nil _ _

def link? (s : Store) (i : ScopeId) : Option (Option ScopeId) := s.frames[i]?.map (·.outer)

section Links

variable (s : Store) (scope i : ScopeId)

theorem link?_putAll (entries : List (Symbol × Value)) :
    (s.putAll scope entries).link? i = s.link? i := by
  rw [link?, frame_putAll, link?]
  by_cases h : scope = i
  · rw [if_pos h, Option.map_map]
    rfl
  · rw [if_neg h]

theorem link?_restore (saved : Bindings) : (s.restore scope saved).link? i = s.link? i := by
  rw [link?, frame_restore, link?]
  by_cases h : scope = i
  · rw [if_pos h, Option.map_map]
    rfl
  · rw [if_neg h]

theorem link?_opened (outer : Option ScopeId) (entries : List (Symbol × Value)) :
    (s.opened outer entries).link? i = if i = s.frames.size then some outer else s.link? i := by
  rw [opened, link?_putAll, link?, frame_create, apply_ite (Option.map _)]
  rfl

theorem frame_opened (outer : Option ScopeId) (entries : List (Symbol × Value)) :
    (s.opened outer entries).frames[i]? =
      if i = s.frames.size then some ⟨Bindings.putAll entries [], outer⟩ else s.frames[i]? :=
  s.frame_putAll_create i outer entries

end Links

def Forest (s : Store) : Prop := ∀ i outer, s.link? i = some (some outer) → outer < i

end Store

/-- The scopes of a program, with the snapshots it has taken of them. -/
@[ext]
structure Scopes where
  store : Store
  snapshots : Array Bindings

namespace Scopes

def empty : Scopes := ⟨Store.empty, #[]⟩

abbrev size (s : Scopes) : Nat := s.store.frames.size

/-- A program can only name the scopes and snapshots that it has. -/
def Knows (s : Scopes) : ScopeAction → Prop
  | .create outer => ∀ o ∈ outer, o < s.size
  | .set scope _ _ | .update scope _ | .bind scope _ _ | .snapshot scope => scope < s.size
  | .restore scope saved => scope < s.size ∧ saved < s.snapshots.size

instance (s : Scopes) : (a : ScopeAction) → Decidable (s.Knows a)
  | .create none => .isTrue (by simp [Knows])
  | .create (some o) => decidable_of_iff (o < s.size) (by simp [Knows])
  | .set .. | .update .. | .bind .. | .snapshot _ => Nat.decLt _ _
  | .restore .. => instDecidableAnd

/-- A binding or a call that fails leaves everything as it is. Of a list of bindings, those
in front of the one that fails stay. -/
def perform (s : Scopes) : ScopeAction → Scopes
  | .create outer => ⟨(s.store.create outer).2, s.snapshots⟩
  | .set scope key value =>
    match s.store.putKey scope key value with
    | .ok store => ⟨store, s.snapshots⟩
    | .error _ => s
  | .update scope entries => ⟨s.store.update scope entries, s.snapshots⟩
  | .bind home params values =>
    match s.store.enter home params values with
    | .ok (_, store) => ⟨store, s.snapshots⟩
    | .error _ => s
  | .snapshot scope => ⟨s.store, s.snapshots.push (s.store.bindings scope)⟩
  | .restore scope saved => ⟨s.store.restore scope s.snapshots[saved]!, s.snapshots⟩

def act (s : Scopes) (a : ScopeAction) : Scopes := if s.Knows a then s.perform a else s

theorem perform_set (s : Scopes) (scope : ScopeId) (key value : Value) :
    s.perform (.set scope key value) = s.perform (.update scope [(key, value)]) := by
  cases key <;> rfl

theorem act_of_knows {s : Scopes} {a : ScopeAction} (h : s.Knows a) : s.act a = s.perform a :=
  if_pos h

def actAll (s : Scopes) (actions : List ScopeAction) : Scopes := actions.foldl act s

theorem actAll_append (s : Scopes) (actions later : List ScopeAction) :
    s.actAll (actions ++ later) = (s.actAll actions).actAll later :=
  List.foldl_append

inductive Step (s : Scopes) : Scopes → Prop
  | idle : Step s s
  | opens (outer : Option ScopeId) (entries : List (Symbol × Value))
      (ho : ∀ o ∈ outer, o < s.size) : Step s ⟨s.store.opened outer entries, s.snapshots⟩
  | writes (scope : ScopeId) (entries : List (Symbol × Value)) :
      Step s ⟨s.store.putAll scope entries, s.snapshots⟩
  | saves (scope : ScopeId) : Step s ⟨s.store, s.snapshots.push (s.store.bindings scope)⟩
  | refills (scope : ScopeId) (saved : Bindings) (hs : saved ∈ s.snapshots) :
      Step s ⟨s.store.restore scope saved, s.snapshots⟩

theorem step_act (s : Scopes) (a : ScopeAction) : s.Step (s.act a) := by
  by_cases hk : s.Knows a
  · rw [act_of_knows hk]
    cases a with
    | create outer =>
      rw [perform, ← Store.opened_nil]
      exact .opens outer [] hk
    | set scope key value =>
      rw [perform_set, perform, Store.update_eq_putAll]
      exact .writes scope _
    | update scope entries =>
      rw [perform, Store.update_eq_putAll]
      exact .writes scope _
    | bind home params values =>
      by_cases hlen : params.length = values.length
      · rw [perform, Store.enter, if_pos hlen]
        exact .opens (some home) _ fun o ho => Option.mem_some.mp ho ▸ hk
      · rw [perform, Store.enter, if_neg hlen]
        exact .idle
    | snapshot scope => exact .saves scope
    | restore scope saved =>
      refine .refills scope _ ?_
      rw [getElem!_pos s.snapshots saved hk.2]
      exact Array.getElem_mem hk.2
  · rw [act, if_neg hk]
    exact .idle

variable {s t : Scopes}

theorem forest_of_step (h : s.Step t) (hs : s.store.Forest) : t.store.Forest := by
  cases h with
  | idle => exact hs
  | opens outer entries ho =>
    intro i o hlink
    rw [Store.link?_opened] at hlink
    split at hlink
    · next hi => exact hi ▸ ho o (Option.some.inj hlink)
    · exact hs i o hlink
  | writes scope entries => exact fun i o h => hs i o (Store.link?_putAll .. ▸ h)
  | saves => exact hs
  | refills scope saved => exact fun i o h => hs i o (Store.link?_restore .. ▸ h)

theorem actAll_induction {P : Scopes → Prop} (hstep : ∀ {s t}, Step s t → P s → P t) (hs : P s)
    (actions : List ScopeAction) : P (s.actAll actions) := by
  induction actions generalizing s with
  | nil => exact hs
  | cons a actions ih => exact ih (hstep (s.step_act a) hs)

theorem forest_actAll (actions : List ScopeAction) : (empty.actAll actions).store.Forest := by
  refine actAll_induction (fun h => forest_of_step h) ?_ actions
  intro i o h
  cases h

end Scopes

end SmallLisp
