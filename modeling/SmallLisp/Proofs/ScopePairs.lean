import SmallLisp.Proofs.ScopeShift

namespace SmallLisp

/-- Scopes of one store with the scopes of another that take their parts. A scope is in one
pair at most, and from `fresh` on every scope is paired with the one of its own number. -/
structure ScopePairs where
  pairs : Nat → Nat → Prop
  fresh : Nat
  eq_iff_eq : ∀ {i j k l}, pairs i j → pairs k l → (i = k ↔ j = l)
  pairs_fresh : ∀ i, fresh ≤ i → pairs i i

namespace ScopePairs

variable (P : ScopePairs)

abbrev Alike : Value → Value → Prop := Value.Alike (fun _ => True) fun _ => P.pairs

structure FramePaired (i j : Nat) (f g : Frame) : Prop where
  outer : Option.Rel (fun o p => (o < i ↔ p < j) ∧ P.pairs o p) f.outer g.outer
  bindings : f.bindings.Alike P.Alike g.bindings

structure Paired (s t : Store) : Prop where
  size : s.frames.size = t.frames.size
  fresh_le : P.fresh ≤ s.frames.size
  frame : ∀ (i j : Nat) (f : Frame), P.pairs i j → s.frames[i]? = some f →
    ∃ g, t.frames[j]? = some g ∧ P.FramePaired i j f g

variable {P} {s t : Store} {i j : Nat}

theorem lt_iff_lt (h : P.Paired s t) (hij : P.pairs i j) : i < s.frames.size ↔ j < t.frames.size := by
  have hfresh := h.fresh_le
  rw [← h.size]
  constructor
  · intro hi
    by_contra hj
    have hji : i = j := (P.eq_iff_eq hij (P.pairs_fresh j (by omega))).mpr rfl
    omega
  · intro hj
    by_contra hi
    have hji : j = i := (P.eq_iff_eq hij (P.pairs_fresh i (by omega))).mp rfl
    omega

theorem find?_paired (h : P.Paired s t) (key : Symbol) (hij : P.pairs i j) :
    Option.Rel P.Alike (s.find? key i) (t.find? key j) := by
  induction i using Nat.strongRecOn generalizing j with
  | ind i ih =>
    rw [Store.find?, Store.find?]
    cases hf : s.frames[i]? with
    | none =>
      have hi : ¬ i < s.frames.size := Nat.not_lt.mpr (Array.getElem?_eq_none_iff.mp hf)
      have hj : t.frames.size ≤ j := Nat.not_lt.mp (mt (lt_iff_lt h hij).mpr hi)
      rw [Array.getElem?_eq_none hj]
      exact .none
    | some f =>
      obtain ⟨g, hg, houter, hb⟩ := h.frame i j f hij hf
      have hrel := Bindings.value?_alike hb key
      rw [hg]
      dsimp only
      generalize f.bindings.value? key = x at hrel
      generalize g.bindings.value? key = y at hrel
      generalize f.outer = o at houter
      generalize g.outer = p at houter
      cases hrel with
      | some hv => exact .some hv
      | none =>
        cases houter with
        | none => exact .none
        | some hop =>
          simp only [hop.1]
          split
          · next hlt => exact ih _ (hop.1.mpr hlt) hop.2
          · exact .none

theorem paired_put (h : P.Paired s t) (hij : P.pairs i j) (key : Symbol) {v w : Value}
    (hv : P.Alike v w) : P.Paired (s.put i key v) (t.put j key w) := by
  refine ⟨by rw [Store.size_put, Store.size_put, h.size], by rw [Store.size_put]; exact h.fresh_le, ?_⟩
  intro k l f hkl hf
  rw [Store.frame_put] at hf ⊢
  by_cases hk : i = k
  · have hl : j = l := (P.eq_iff_eq hij hkl).mp hk
    subst hk hl
    rw [if_pos rfl] at hf ⊢
    obtain ⟨f₀, hf₀, rfl⟩ := Option.map_eq_some_iff.mp hf
    obtain ⟨g, hg, houter, hb⟩ := h.frame i j f₀ hij hf₀
    exact ⟨g.put key w, by rw [hg]; rfl, houter, Bindings.put_alike hb key hv⟩
  · rw [if_neg hk] at hf
    rw [if_neg (mt (P.eq_iff_eq hij hkl).mpr hk)]
    exact h.frame k l f hkl hf

theorem paired_create (h : P.Paired s t) (hij : P.pairs i j) :
    P.Paired (s.create (some i)).2 (t.create (some j)).2 := by
  have hfresh := h.fresh_le
  have hnew : P.pairs s.frames.size t.frames.size := h.size ▸ P.pairs_fresh _ hfresh
  refine ⟨by rw [Store.size_create, Store.size_create, h.size], by rw [Store.size_create]; exact Nat.le_succ_of_le hfresh, ?_⟩
  intro k l f hkl hf
  rw [Store.frame_create] at hf ⊢
  by_cases hk : k = s.frames.size
  · obtain rfl := (P.eq_iff_eq hkl hnew).mp hk
    subst hk
    rw [if_pos rfl] at hf ⊢
    obtain rfl := Option.some.inj hf
    exact ⟨⟨[], some j⟩, rfl, .some ⟨lt_iff_lt h hij, hij⟩, .nil⟩
  · rw [if_neg hk] at hf
    rw [if_neg (mt (P.eq_iff_eq hkl hnew).mpr hk)]
    exact h.frame k l f hkl hf

theorem sameReport_arity (m n : Nat) : (EvalError.arity m n).SameReport (.arity m n) := rfl

theorem sameReport_boolean (f : SpecialForm) (k : Kind) :
    (EvalError.kind (.booleanExpected f k)).SameReport (.kind (.booleanExpected f k)) := rfl

theorem sameReport_list (f : SpecialForm) (k : Kind) :
    (EvalError.kind (.listExpected f k)).SameReport (.kind (.listExpected f k)) := rfl

variable (P) in
def lockstep : Lockstep where
  World := Unit
  Later _ _ := True
  node _ := True
  holds _ _ := P.pairs
  reads _ _ := P.pairs
  writes _ _ := P.pairs
  machine _ m n := P.Paired m.store n.store ∧ m.printed = n.printed
  error := EvalError.SameReport
  refl _ := trivial
  trans _ _ := trivial
  holds_mono _ h := h
  reads_mono _ h := h
  writes_mono _ h := h
  node_zero := trivial
  node_nil := trivial
  node_bool _ := trivial
  node_sequence := trivial
  node_length _ := trivial
  node_list _ _ := trivial
  node_apply _ _ _ := trivial
  error_apply _ _ _ := EvalError.sameReport_refl _
  error_arity := sameReport_arity
  error_boolean := sameReport_boolean
  error_list := sameReport_list
  error_shape {_ f _ _} h := congrArg (shapeReport f) h.message_eq
  reads_call h _ _ _ := h
  reads_form h _ _ := ⟨fun _ _ => h, fun _ _ => h, fun _ _ => h⟩
  find hm hij := find?_paired hm.1 _ hij
  put hm hij hv := ⟨paired_put hm.1 hij _ hv, hm.2⟩
  create := by
    rintro _ m n v i j ⟨hm, hp⟩ hij
    have hnew : P.pairs m.store.frames.size n.store.frames.size :=
      hm.size ▸ P.pairs_fresh _ hm.fresh_le
    exact ⟨(), trivial, ⟨paired_create hm hij, hp⟩, fun _ _ => hnew, fun _ => hnew⟩
  print h hv := ⟨h.1, Machine.printed_print_eq h.2 hv.display_eq⟩

theorem evalLevels_paired (limit levels : Nat) {m n : Machine} (hm : P.Paired m.store n.store)
    (hp : m.printed = n.printed) {v w : Value} (hv : P.Alike v w) (hij : P.pairs i j) :
    let x := (evalLevels limit levels v i).run m
    let y := (evalLevels limit levels w j).run n
    Agree EvalError.SameReport P.Alike x.1 y.1 ∧ x.2.printed = y.2.printed := by
  obtain ⟨_, _, hmachine, hr⟩ :=
    P.lockstep.evalLevels_evaluates limit limit (EvalError.sameReport_refl _) levels () v w i j hv hij m n ⟨hm, hp⟩
  exact ⟨hr, hmachine.2⟩

end ScopePairs

end SmallLisp
