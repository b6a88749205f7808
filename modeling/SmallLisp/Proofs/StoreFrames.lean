import SmallLisp.Scope

namespace SmallLisp

namespace Frame

def put (f : Frame) (key : Symbol) (value : Value) : Frame := ⟨f.bindings.put key value, f.outer⟩

end Frame

namespace Bindings

theorem mem_of_value? {b : Bindings} {key : Symbol} {v : Value} (h : b.value? key = some v) :
    (key, v) ∈ b := by
  induction b with
  | nil => cases h
  | cons entry rest ih =>
    obtain ⟨k, w⟩ := entry
    by_cases hk : k = key
    · subst k
      simp only [value?, ↓reduceIte, Option.some.injEq] at h
      exact h ▸ .head _
    · simp only [value?, if_neg hk] at h
      exact .tail _ (ih h)

theorem mem_put {b : Bindings} {key : Symbol} {value : Value} {p : Symbol × Value}
    (h : p ∈ b.put key value) : p ∈ b ∨ p = (key, value) := by
  induction b with
  | nil => exact .inr (List.mem_singleton.mp h)
  | cons entry rest ih =>
    obtain ⟨l, w⟩ := entry
    rw [put] at h
    split at h
    · next hl =>
      obtain h | h := List.mem_cons.mp h
      · exact .inr (hl ▸ h)
      · exact .inl (.tail _ h)
    · obtain h | h := List.mem_cons.mp h
      · exact .inl (h ▸ .head _)
      · exact (ih h).imp (.tail _) id

theorem forall_putAll {P : Symbol × Value → Prop} {b : Bindings} (entries : List (Symbol × Value))
    (hb : ∀ p ∈ b, P p) (he : ∀ p ∈ entries, P p) : ∀ p ∈ b.putAll entries, P p := by
  induction entries generalizing b with
  | nil => exact hb
  | cons entry entries ih =>
    refine ih ?_ fun p hp => he p (.tail _ hp)
    intro p hp
    obtain h | h := mem_put hp
    · exact hb p h
    · exact h ▸ he entry (.head _)

theorem value?_putAll_of_ne {entries : List (Symbol × Value)} {key : Symbol}
    (h : ∀ p ∈ entries, p.1 ≠ key) (b : Bindings) : (b.putAll entries).value? key = b.value? key := by
  induction entries generalizing b with
  | nil => rfl
  | cons p rest ih =>
    obtain ⟨hp, hrest⟩ := List.forall_mem_cons.mp h
    have hput : (b.put p.1 p.2).value? key = b.value? key := by
      rw [value?_put, if_neg (Ne.symm hp)]
    exact (ih hrest (b.put p.1 p.2)).trans hput

theorem names_prefix_put (b : Bindings) (key : Symbol) (value : Value) :
    b.names <+: (b.put key value).names := by
  rw [names_put]
  split
  · exact List.prefix_refl _
  · exact List.prefix_append _ _

end Bindings

namespace Store

variable (s : Store) (scope i : ScopeId)

theorem frame_put (key : Symbol) (value : Value) :
    (s.put scope key value).frames[i]? =
      if scope = i then s.frames[i]?.map (·.put key value) else s.frames[i]? :=
  Array.getElem?_modify

theorem frame_restore (saved : Bindings) :
    (s.restore scope saved).frames[i]? =
      if scope = i then s.frames[i]?.map (fun f => ⟨saved, f.outer⟩) else s.frames[i]? :=
  Array.getElem?_modify

theorem size_restore (saved : Bindings) : (s.restore scope saved).frames.size = s.frames.size := by
  simp [restore]

theorem frame_create (outer : Option ScopeId) :
    (s.create outer).2.frames[i]? = if i = s.frames.size then some ⟨[], outer⟩ else s.frames[i]? :=
  Array.getElem?_push

theorem size_create (outer : Option ScopeId) : (s.create outer).2.frames.size = s.frames.size + 1 :=
  Array.size_push _

theorem frame_putAll (entries : List (Symbol × Value)) :
    (s.putAll scope entries).frames[i]? =
      if scope = i then s.frames[i]?.map (fun f => ⟨f.bindings.putAll entries, f.outer⟩)
      else s.frames[i]? :=
  Array.getElem?_modify

theorem size_putAll (entries : List (Symbol × Value)) :
    (s.putAll scope entries).frames.size = s.frames.size := by
  simp [putAll]

theorem putAll_nil : s.putAll scope [] = s := by
  refine congrArg Store.mk (Array.ext_getElem? fun i => (s.frame_putAll scope i []).trans ?_)
  split
  · exact Option.map_id'
  · rfl

theorem putAll_cons (key : Symbol) (value : Value) (entries : List (Symbol × Value)) :
    s.putAll scope ((key, value) :: entries) = (s.put scope key value).putAll scope entries := by
  have hframe (i : ScopeId) : (s.putAll scope ((key, value) :: entries)).frames[i]? =
      ((s.put scope key value).putAll scope entries).frames[i]? := by
    rw [frame_putAll, frame_putAll, frame_put]
    split
    · rw [Option.map_map]
      rfl
    · rfl
  exact congrArg Store.mk (Array.ext_getElem? hframe)

theorem frame_putAll_create (outer : Option ScopeId) (bs : Bindings) :
    ((s.create outer).2.putAll s.frames.size bs).frames[i]? =
      if i = s.frames.size then some ⟨Bindings.putAll bs [], outer⟩ else s.frames[i]? := by
  rw [frame_putAll, frame_create]
  by_cases hi : i = s.frames.size
  · rw [if_pos hi.symm, if_pos hi, if_pos hi]
    rfl
  · rw [if_neg (Ne.symm hi), if_neg hi, if_neg hi]

theorem of_frame_put {key : Symbol} {value : Value} {i : ScopeId} {f : Frame}
    (h : (s.put scope key value).frames[i]? = some f) :
    ∃ g, s.frames[i]? = some g ∧ f.outer = g.outer ∧
      ∀ p ∈ f.bindings, p ∈ g.bindings ∨ p = (key, value) := by
  rw [frame_put] at h
  split at h
  · obtain ⟨g, hg, rfl⟩ := Option.map_eq_some_iff.mp h
    exact ⟨g, hg, rfl, fun _ => Bindings.mem_put⟩
  · exact ⟨f, h, rfl, fun _ => .inl⟩

theorem of_frame_restore {saved : Bindings} {i : ScopeId} {f : Frame}
    (h : (s.restore scope saved).frames[i]? = some f) :
    ∃ g, s.frames[i]? = some g ∧ f.outer = g.outer ∧
      ∀ p ∈ f.bindings, p ∈ g.bindings ∨ p ∈ saved := by
  rw [frame_restore] at h
  split at h
  · obtain ⟨g, hg, rfl⟩ := Option.map_eq_some_iff.mp h
    exact ⟨g, hg, rfl, fun _ => .inr⟩
  · exact ⟨f, h, rfl, fun _ => .inl⟩

theorem exists_of_find? {key : Symbol} {v : Value} (h : s.find? key scope = some v) :
    ∃ (i : ScopeId) (f : Frame), s.frames[i]? = some f ∧ (key, v) ∈ f.bindings := by
  revert h
  fun_induction find? s key scope with
  | case2 scope f hf w hw =>
    intro h
    rw [Option.some.inj h] at hw
    exact ⟨scope, f, hf, Bindings.mem_of_value? hw⟩
  | case4 scope f hf _ outer _ _ ih => exact ih
  | _ => exact nofun

section Binds

variable {s : Store} {P : ScopeId → Symbol × Value → Prop}

def Binds (P : ScopeId → Symbol × Value → Prop) (s : Store) : Prop :=
  ∀ (i : ScopeId) (f : Frame), s.frames[i]? = some f → ∀ p ∈ f.bindings, P i p

theorem binds_put (h : s.Binds P) (scope : ScopeId) {key : Symbol} {value : Value}
    (hv : ∀ i, P i (key, value)) : (s.put scope key value).Binds P := by
  intro i f hf p hp
  obtain ⟨g, hg, _, hb⟩ := of_frame_put s scope hf
  obtain hp | rfl := hb p hp
  · exact h i g hg p hp
  · exact hv i

theorem binds_restore (h : s.Binds P) (scope : ScopeId) {saved : Bindings}
    (hsaved : ∀ i, ∀ p ∈ saved, P i p) : (s.restore scope saved).Binds P := by
  intro i f hf p hp
  obtain ⟨g, hg, _, hb⟩ := of_frame_restore s scope hf
  obtain hp | hp := hb p hp
  · exact h i g hg p hp
  · exact hsaved i p hp

theorem binds_create (h : s.Binds P) (outer : Option ScopeId) : (s.create outer).2.Binds P := by
  intro i f hf
  rw [frame_create] at hf
  split at hf
  · exact Option.some.inj hf ▸ nofun
  · exact h i f hf

theorem forall_bindings (h : s.Binds P) (scope : ScopeId) : ∀ p ∈ s.bindings scope, P scope p := by
  unfold bindings
  split
  · exact List.forall_mem_nil _
  · next f hf => exact h scope f hf

theorem of_find? (h : s.Binds P) {key : Symbol} {scope : ScopeId} {v : Value}
    (hv : s.find? key scope = some v) : ∃ i, P i (key, v) := by
  obtain ⟨i, f, hf, hmem⟩ := exists_of_find? s scope hv
  exact ⟨i, h i f hf _ hmem⟩

end Binds

end Store

end SmallLisp
