import SmallLisp.Proofs.LockstepEval
import SmallLisp.Proofs.SessionSteps
import SmallLisp.Proofs.StoreFrames

namespace SmallLisp

namespace Bindings

variable {R : Value → Value → Prop} {b c : Bindings}

theorem value?_alike (h : b.Alike R c) (key : Symbol) :
    Option.Rel R (b.value? key) (c.value? key) := by
  induction h with
  | nil => exact .none
  | @cons p q b c hpq _ ih =>
    obtain ⟨k, v⟩ := p
    obtain ⟨l, w⟩ := q
    obtain ⟨rfl, hv⟩ : k = l ∧ R v w := hpq
    by_cases hk : k = key
    · simpa only [value?, hk, ↓reduceIte] using Option.Rel.some hv
    · simpa only [value?, if_neg hk] using ih

theorem put_alike (h : b.Alike R c) (key : Symbol) {v w : Value} (hv : R v w) :
    (b.put key v).Alike R (c.put key w) := by
  induction h with
  | nil => exact .cons ⟨rfl, hv⟩ .nil
  | @cons p q b c hpq h ih =>
    obtain ⟨k, v'⟩ := p
    obtain ⟨l, w'⟩ := q
    obtain ⟨rfl, hv'⟩ : k = l ∧ R v' w' := hpq
    by_cases hk : k = key
    · rw [put, put, if_pos hk, if_pos hk]
      exact .cons ⟨rfl, hv⟩ h
    · rw [put, put, if_neg hk, if_neg hk]
      exact .cons ⟨rfl, hv'⟩ ih

end Bindings

/-- The place of a scope when `g` scopes are put in after the first `n`. -/
def shift (n g i : Nat) : Nat := if i < n then i else i + g

theorem shift_lt_iff (n g i j : Nat) : shift n g i < shift n g j ↔ i < j := by
  unfold shift
  split <;> split <;> omega

theorem shift_injective (n g : Nat) : Function.Injective (shift n g) := by
  intro i j h
  unfold shift at h
  split at h <;> split at h <;> omega

theorem shift_of_lt {n g i : Nat} (h : i < n) : shift n g i = i := if_pos h

theorem shift_of_le {n g i : Nat} (h : n ≤ i) : shift n g i = i + g := if_neg (by omega)

namespace Value

mutual

def mapScopes (f : ScopeId → ScopeId) : Value → Value
  | list items => .list (mapScopesEach f items)
  | closure params body scope => .closure params (mapScopes f body) (f scope)
  | v => v

def mapScopesEach (f : ScopeId → ScopeId) : List Value → List Value
  | [] => []
  | v :: rest => mapScopes f v :: mapScopesEach f rest

end

abbrev Shifted (n g : Nat) : Value → Value → Prop :=
  Alike (fun _ => True) fun _ i j => j = shift n g i

theorem mapScopesEach_eq_map (f : ScopeId → ScopeId) (items : List Value) :
    mapScopesEach f items = items.map (mapScopes f) := by
  induction items with
  | nil => rfl
  | cons v rest ih => rw [mapScopesEach, ih, List.map_cons]

theorem shifted_mapScopes (n g : Nat) (v : Value) : Shifted n g v (v.mapScopes (shift n g)) := by
  induction v with
  | atom v ha =>
    have hv : v.mapScopes (shift n g) = v := by cases v <;> first | rfl | cases ha
    rw [hv]
    exact .atom ha trivial
  | list items ih =>
    rw [mapScopes, mapScopesEach_eq_map]
    exact .list trivial (List.forall₂_map_right_iff.mpr (List.forall₂_same.mpr ih))
  | closure params body scope ih =>
    rw [mapScopes]
    exact .closure ih rfl

end Value

namespace Store

/-- The second store has `g` more frames after the first `n`. All others correspond to
those of the first store, in order. -/
structure Shifted (n g : Nat) (s t : Store) : Prop where
  le : n ≤ s.frames.size
  size : t.frames.size = s.frames.size + g
  frame : ∀ (i : ScopeId) (f : Frame), s.frames[i]? = some f → ∃ f', t.frames[shift n g i]? = some f' ∧
    f'.outer = f.outer.map (shift n g) ∧ f.bindings.Alike (Value.Shifted n g) f'.bindings

variable {n g : Nat} {s t : Store}

theorem size_shifted (h : Shifted n g s t) : t.frames.size = shift n g s.frames.size := by
  rw [h.size, shift_of_le h.le]

theorem find?_shifted (h : Shifted n g s t) (key : Symbol) (scope : ScopeId) :
    Option.Rel (Value.Shifted n g) (s.find? key scope) (t.find? key (shift n g scope)) := by
  induction scope using Nat.strongRecOn with
  | ind scope ih =>
    rw [find?, find?]
    cases hf : s.frames[scope]? with
    | none =>
      have hs : s.frames.size ≤ scope := Array.getElem?_eq_none_iff.mp hf
      have ht : t.frames[shift n g scope]? = none := by
        rw [Array.getElem?_eq_none_iff, h.size, shift_of_le (Nat.le_trans h.le hs)]
        exact Nat.add_le_add_right hs g
      rw [ht]
      exact .none
    | some f =>
      obtain ⟨f', hf', ho, hb⟩ := h.frame scope f hf
      have hrel := Bindings.value?_alike hb key
      rw [hf']
      dsimp only
      rw [ho]
      generalize f.bindings.value? key = x at hrel
      generalize f'.bindings.value? key = y at hrel
      cases hrel with
      | some hv => exact .some hv
      | none =>
        cases f.outer with
        | none => exact .none
        | some outer =>
          -- A shift keeps the order of scopes, so both searches go on or neither does.
          simp only [Option.map_some, shift_lt_iff]
          split
          · next hlt => exact ih outer hlt
          · exact .none

theorem shifted_put (h : Shifted n g s t) (scope : ScopeId) (key : Symbol) {v w : Value}
    (hv : Value.Shifted n g v w) :
    Shifted n g (s.put scope key v) (t.put (shift n g scope) key w) := by
  refine ⟨by rw [size_put]; exact h.le, by rw [size_put, size_put, h.size], fun i f hf => ?_⟩
  rw [frame_put] at hf ⊢
  by_cases hi : scope = i
  · subst i
    rw [if_pos rfl] at hf
    obtain ⟨f₀, hf₀, rfl⟩ := Option.map_eq_some_iff.mp hf
    obtain ⟨f', hf', ho, hb⟩ := h.frame scope f₀ hf₀
    refine ⟨f'.put key w, by rw [if_pos rfl, hf']; rfl, ho, Bindings.put_alike hb key hv⟩
  · rw [if_neg hi] at hf
    rw [if_neg fun he => hi (shift_injective n g he)]
    exact h.frame i f hf

theorem shifted_restore (h : Shifted n g s t) (scope : ScopeId) {b c : Bindings}
    (hb : b.Alike (Value.Shifted n g) c) :
    Shifted n g (s.restore scope b) (t.restore (shift n g scope) c) := by
  refine ⟨by rw [size_restore]; exact h.le, by rw [size_restore, size_restore, h.size],
    fun i f hf => ?_⟩
  rw [frame_restore] at hf ⊢
  by_cases hi : scope = i
  · subst i
    rw [if_pos rfl] at hf
    obtain ⟨f₀, hf₀, rfl⟩ := Option.map_eq_some_iff.mp hf
    obtain ⟨f', hf', ho, _⟩ := h.frame scope f₀ hf₀
    refine ⟨⟨c, f'.outer⟩, by rw [if_pos rfl, hf']; rfl, ho, hb⟩
  · rw [if_neg hi] at hf
    rw [if_neg fun he => hi (shift_injective n g he)]
    exact h.frame i f hf

theorem shifted_create (h : Shifted n g s t) (outer : ScopeId) :
    Shifted n g (s.create (some outer)).2 (t.create (some (shift n g outer))).2 := by
  have hle := h.le
  have hsize := h.size
  refine ⟨by rw [size_create]; omega, by rw [size_create, size_create]; omega, fun i f hf => ?_⟩
  rw [frame_create] at hf ⊢
  by_cases hi : i = s.frames.size
  · subst i
    rw [if_pos rfl] at hf
    obtain rfl := Option.some.inj hf
    exact ⟨⟨[], some (shift n g outer)⟩, if_pos (size_shifted h).symm, rfl, .nil⟩
  · rw [if_neg hi] at hf
    rw [size_shifted h, if_neg fun he => hi (shift_injective n g he)]
    exact h.frame i f hf

theorem bindings_shifted (h : Shifted n g s t) (scope : ScopeId) (hs : scope < s.frames.size) :
    (s.bindings scope).Alike (Value.Shifted n g) (t.bindings (shift n g scope)) := by
  have hf : s.frames[scope]? = some s.frames[scope] := Array.getElem?_eq_getElem hs
  obtain ⟨f', hf', _, hb⟩ := h.frame scope _ hf
  rw [bindings, bindings, hf, hf']
  exact hb

end Store

def EvalError.SameReport (e e' : EvalError) : Prop := e.report = e'.report

theorem EvalError.sameReport_refl (e : EvalError) : e.SameReport e := rfl

def shapeReport (form : SpecialForm) (message : String) : FaultReport :=
  ⟨.shape, [form.name, message], [], "Malformed \x22" ++ form.name ++ "\x22: " ++ message⟩

def scopesShifted (n g : Nat) : Lockstep where
  World := Unit
  Later _ _ := True
  node _ := True
  holds _ _ i j := j = shift n g i
  reads _ _ i j := j = shift n g i
  writes _ _ i j := j = shift n g i
  machine _ m m' := m.store.Shifted n g m'.store ∧ m.printed = m'.printed
  error e e' := e.report = e'.report
  refl _ := trivial
  trans _ _ := trivial
  holds_mono _ h := h
  reads_mono _ h := h
  writes_mono _ h := h
  node_zero := trivial
  node_nil := trivial
  node_bool _ := trivial
  node_sequence := trivial
  node_length _ := trivial
  node_list _ _ := trivial
  node_apply _ _ _ := trivial
  error_apply _ _ _ := rfl
  error_arity _ _ := rfl
  error_boolean _ _ := rfl
  error_list _ _ := rfl
  error_shape {_ f _ _} h := congrArg (shapeReport f) h.message_eq
  reads_call h _ _ _ := h
  reads_form h _ _ := ⟨fun _ _ => h, fun _ _ => h, fun _ _ => h⟩
  find := by
    rintro _ m m' k s t ⟨hm, _⟩ rfl
    exact Store.find?_shifted hm k s
  put := by
    rintro _ m m' k v w s t ⟨hm, hp⟩ rfl hv
    exact ⟨Store.shifted_put hm s k hv, hp⟩
  create := by
    rintro _ m m' v s t ⟨hm, hp⟩ rfl
    have hi : m'.store.frames.size = shift n g m.store.frames.size := Store.size_shifted hm
    exact ⟨(), trivial, ⟨Store.shifted_create hm s, hp⟩, fun _ _ => hi, fun _ => hi⟩
  print h hv := ⟨h.1, Machine.printed_print_eq h.2 hv.display_eq⟩

theorem eval_shifted {n g : Nat} (limit : Nat) (depth : Int) (m m' : Machine) {v w : Value}
    (hm : m.store.Shifted n g m'.store) (hp : m.printed = m'.printed) (hv : v.Shifted n g w)
    (scope : ScopeId) :
    let x := (eval limit depth v scope).run m
    let y := (eval limit depth w (shift n g scope)).run m'
    Agree (fun e e' => e.report = e'.report) (Value.Shifted n g) x.1 y.1 ∧
      x.2.store.Shifted n g y.2.store ∧ x.2.printed = y.2.printed := by
  obtain ⟨_, _, hm', hr⟩ := (scopesShifted n g).evalLevels_evaluates limit limit rfl
    (limit - depth).toNat () v w scope _ hv rfl m m' ⟨hm, hp⟩
  exact ⟨hr, hm'⟩

end SmallLisp
