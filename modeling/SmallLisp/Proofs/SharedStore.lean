import SmallLisp.Proofs.ScopeChains
import SmallLisp.Proofs.ScopeShift

namespace SmallLisp

namespace Value

/-- The same value in two stores, where `places` has the scope of the second store for each
scope of the first. -/
abbrev Placed (places : List ScopeId) : Value → Value → Prop :=
  Alike (fun _ => True) fun _ i j => places[i]? = some j

theorem placed_mapScopes {places : List ScopeId} {i j : ScopeId} (h : places[i]? = some j)
    (v : Value) : (v.mapScopes fun _ => i).Placed places (v.mapScopes fun _ => j) := by
  induction v with
  | atom v ha => cases v <;> first | exact .atom trivial trivial | cases ha
  | list items ih =>
    rw [mapScopes, mapScopes, mapScopesEach_eq_map, mapScopesEach_eq_map]
    refine .list trivial ?_
    rw [List.forall₂_map_left_iff, List.forall₂_map_right_iff]
    exact List.forall₂_same.mpr ih
  | closure params body scope ih =>
    rw [mapScopes, mapScopes]
    exact .closure ih h

theorem mem_of_occurs_right {places : List ScopeId} {v w : Value} (h : v.Placed places w)
    {params : List Symbol} {body : Value} {scope : ScopeId}
    (ho : (closure params body scope).Occurs w) : scope ∈ places := by
  obtain ⟨_, _, _, hscope⟩ := link_of_occurs h ho
  exact List.mem_of_getElem? hscope

theorem lt_of_occurs_left {places : List ScopeId} {v w : Value} (h : v.Placed places w)
    {params : List Symbol} {body : Value} {scope : ScopeId}
    (ho : (closure params body scope).Occurs v) : scope < places.length := by
  obtain ⟨_, _, _, hscope⟩ := link_of_occurs h.symm ho
  exact (List.getElem?_eq_some_iff.mp hscope).1

end Value

/-- What is around two scopes in corresponding places. Only the first scope has nothing
around it. -/
inductive OuterPlaced (places : List ScopeId) (i : ScopeId) : Option ScopeId → Option ScopeId → Prop
  | root (hi : i = 0) : OuterPlaced places i none none
  | inner {o p : ScopeId} (ho : o < i) (hp : places[o]? = some p) :
      OuterPlaced places i (some o) (some p)

structure Frame.Placed (places : List ScopeId) (i : ScopeId) (f g : Frame) : Prop where
  outer : OuterPlaced places i f.outer g.outer
  bindings : f.bindings.Alike (Value.Placed places) g.bindings

/-- The second store has all frames of the first, in the same order, and perhaps others
before, between and after them. -/
structure Store.Embeds (places : List ScopeId) (s t : Store) : Prop where
  size : places.length = s.frames.size
  sorted : places.Pairwise (· < ·)
  frame : ∀ i j, places[i]? = some j →
    ∃ f g : Frame, s.frames[i]? = some f ∧ t.frames[j]? = some g ∧ f.Placed places i g

section Places

variable {places more : List ScopeId} {i j o p : ScopeId}

theorem place_append (h : places[i]? = some j) : (places ++ more)[i]? = some j := by
  rw [List.getElem?_append_left (List.getElem?_eq_some_iff.mp h).1, h]

theorem place_lt (hs : places.Pairwise (· < ·)) (ho : places[o]? = some p)
    (hi : places[i]? = some j) (h : o < i) : p < j := by
  obtain ⟨ho', rfl⟩ := List.getElem?_eq_some_iff.mp ho
  obtain ⟨hi', rfl⟩ := List.getElem?_eq_some_iff.mp hi
  exact List.pairwise_iff_getElem.mp hs o i ho' hi' h

theorem place_injective (hs : places.Pairwise (· < ·)) (ho : places[o]? = some j)
    (hi : places[i]? = some j) : o = i := by
  obtain h | h | h := Nat.lt_trichotomy o i
  · exact absurd (place_lt hs ho hi h) (Nat.lt_irrefl j)
  · exact h
  · exact absurd (place_lt hs hi ho h) (Nat.lt_irrefl j)

theorem outerPlaced_append {x y : Option ScopeId} (h : OuterPlaced places i x y) :
    OuterPlaced (places ++ more) i x y := by
  cases h with
  | root hi => exact .root hi
  | inner ho hp => exact .inner ho (place_append hp)

theorem Frame.placed_append {f g : Frame} (h : f.Placed places i g) :
    f.Placed (places ++ more) i g where
  outer := outerPlaced_append h.outer
  bindings := h.bindings.imp fun _ _ hb => ⟨hb.1, hb.2.mono fun _ _ _ => place_append⟩

end Places

namespace Store

variable {places : List ScopeId} {i j : ScopeId} {key : Symbol} {s s' t t' : Store}

theorem lt_of_embeds (h : s.Embeds places t) (hj : j ∈ places) : j < t.frames.size := by
  obtain ⟨i, hi⟩ := List.mem_iff_getElem?.mp hj
  obtain ⟨_, _, _, hg, _⟩ := h.frame i j hi
  exact (Array.getElem?_eq_some_iff.mp hg).1

theorem find?_embeds (h : s.Embeds places t) (key : Symbol) (hij : places[i]? = some j) :
    Option.Rel (Value.Placed places) (s.find? key i) (t.find? key j) := by
  induction i using Nat.strongRecOn generalizing j with
  | ind i ih =>
    obtain ⟨f, g, hf, hg, houter, hb⟩ := h.frame i j hij
    have hrel := Bindings.value?_alike hb key
    rw [find?, find?, hf, hg]
    dsimp only
    generalize f.bindings.value? key = x at hrel
    generalize g.bindings.value? key = y at hrel
    generalize f.outer = o at houter
    generalize g.outer = p at houter
    cases hrel with
    | some hv => exact .some hv
    | none =>
      cases houter with
      | root => exact .none
      | inner ho hp =>
        have hlt := place_lt h.sorted hp hij ho
        simpa only [ho, hlt, ↓reduceIte] using ih _ ho hp

theorem bindings_embeds (h : s.Embeds places t) (hij : places[i]? = some j) :
    (s.bindings i).Alike (Value.Placed places) (t.bindings j) := by
  obtain ⟨f, g, hf, hg, _, hb⟩ := h.frame i j hij
  rw [bindings, bindings, hf, hg]
  exact hb

theorem embeds_modify (h : s.Embeds places t) (hij : places[i]? = some j) {a b : Frame → Frame}
    (hs : ∀ k, s'.frames[k]? = if i = k then s.frames[k]?.map a else s.frames[k]?)
    (ht : ∀ k, t'.frames[k]? = if j = k then t.frames[k]?.map b else t.frames[k]?)
    (hsize : s'.frames.size = s.frames.size)
    (hab : ∀ f g : Frame, f.Placed places i g → (a f).Placed places i (b g)) : s'.Embeds places t' := by
  refine ⟨h.size.trans hsize.symm, h.sorted, fun k l hkl => ?_⟩
  obtain ⟨f, g, hf, hg, hfg⟩ := h.frame k l hkl
  rw [hs, ht, hf, hg]
  by_cases hk : i = k
  · subst hk
    obtain rfl : j = l := Option.some.inj (hij.symm.trans hkl)
    rw [if_pos rfl, if_pos rfl]
    exact ⟨a f, b g, rfl, rfl, hab f g hfg⟩
  · have hl : j ≠ l := fun he => hk (place_injective h.sorted hij (he ▸ hkl))
    rw [if_neg hk, if_neg hl]
    exact ⟨f, g, rfl, rfl, hfg⟩

theorem embeds_put (h : s.Embeds places t) (hij : places[i]? = some j) (key : Symbol) {v w : Value}
    (hv : v.Placed places w) : (s.put i key v).Embeds places (t.put j key w) :=
  embeds_modify h hij (fun k => s.frame_put i k key v) (fun k => t.frame_put j k key w)
    (size_put _ _ _ _) fun _ _ hfg => ⟨hfg.outer, Bindings.put_alike hfg.bindings key hv⟩

theorem embeds_restore (h : s.Embeds places t) (hij : places[i]? = some j) {b c : Bindings}
    (hb : b.Alike (Value.Placed places) c) : (s.restore i b).Embeds places (t.restore j c) :=
  embeds_modify h hij (fun k => s.frame_restore i k b) (fun k => t.frame_restore j k c)
    (size_restore _ _ _) fun _ _ hfg => ⟨hfg.outer, hb⟩

theorem embeds_create (h : s.Embeds places t) (hij : places[i]? = some j) :
    (s.create (some i)).2.Embeds (places ++ [t.frames.size]) (t.create (some j)).2 := by
  have hi : i < s.frames.size := h.size ▸ (List.getElem?_eq_some_iff.mp hij).1
  refine ⟨by rw [List.length_append, size_create, h.size]; rfl, ?_, fun k l hkl => ?_⟩
  · refine List.pairwise_append.mpr ⟨h.sorted, List.pairwise_singleton _ _, fun l hl m hm => ?_⟩
    exact List.mem_singleton.mp hm ▸ lt_of_embeds h hl
  · rw [frame_create, frame_create]
    by_cases hk : k < places.length
    · rw [List.getElem?_append_left hk] at hkl
      have hl : l < t.frames.size := lt_of_embeds h (List.mem_of_getElem? hkl)
      obtain ⟨f, g, hf, hg, hfg⟩ := h.frame k l hkl
      rw [if_neg (Nat.ne_of_lt (h.size ▸ hk)), if_neg (Nat.ne_of_lt hl)]
      exact ⟨f, g, hf, hg, Frame.placed_append hfg⟩
    · rw [List.getElem?_append_right (Nat.not_lt.mp hk), List.getElem?_singleton] at hkl
      obtain ⟨hzero, rfl⟩ : k - places.length = 0 ∧ t.frames.size = l := by simpa using hkl
      have hk' : k = s.frames.size := h.size ▸ Nat.le_antisymm (Nat.sub_eq_zero_iff_le.mp hzero)
        (Nat.not_lt.mp hk)
      rw [if_pos hk', if_pos rfl]
      exact ⟨_, _, rfl, rfl, .inner (hk' ▸ hi) (place_append hij), .nil⟩

theorem embeds_congr (h : s.Embeds places t) (ht : ∀ j ∈ places, t'.frames[j]? = t.frames[j]?) :
    s.Embeds places t' := by
  refine ⟨h.size, h.sorted, fun i j hij => ?_⟩
  rw [ht j (List.mem_of_getElem? hij)]
  exact h.frame i j hij

theorem rooted_of_embeds_left {root : ScopeId} (h : s.Embeds places t)
    (hroot : places[0]? = some root) : s.Rooted 0 := by
  refine rooted_of_region (P := (· < places.length)) ⟨(List.getElem?_eq_some_iff.mp hroot).1, ?_, ?_⟩
  · intro i hi
    obtain ⟨f, g, hf, _, houter, _⟩ := h.frame i _ (List.getElem?_eq_getElem hi)
    refine ⟨f, hf, ?_⟩
    generalize f.outer = x at houter ⊢
    generalize g.outer = y at houter
    cases houter with
    | root hi => exact .inl ⟨rfl, hi⟩
    | inner ho hp => exact .inr ⟨_, rfl, ho, (List.getElem?_eq_some_iff.mp hp).1⟩
  · intro i f hi hf p hp params body scope ho
    obtain ⟨f', g, hf', _, _, hb⟩ := h.frame i _ (List.getElem?_eq_getElem hi)
    obtain rfl := Option.some.inj (hf.symm.trans hf')
    obtain ⟨q, _, _, hqp⟩ := Value.Alike.exists_mem_left hb.flip hp
    exact Value.lt_of_occurs_left hqp ho

theorem rooted_of_embeds_right {root : ScopeId} (h : s.Embeds places t)
    (hroot : places[0]? = some root) : t.Rooted root := by
  refine rooted_of_region (P := (· ∈ places)) ⟨List.mem_of_getElem? hroot, ?_, ?_⟩
  · intro j hj
    obtain ⟨i, hij⟩ := List.mem_iff_getElem?.mp hj
    obtain ⟨f, g, _, hg, houter, _⟩ := h.frame i j hij
    refine ⟨g, hg, ?_⟩
    generalize f.outer = x at houter
    generalize g.outer = y at houter ⊢
    cases houter with
    | root hi => exact .inl ⟨rfl, Option.some.inj (hij.symm.trans (hi ▸ hroot))⟩
    | inner ho hp => exact .inr ⟨_, rfl, place_lt h.sorted hp hij ho, List.mem_of_getElem? hp⟩
  · intro j g hj hg p hp params body scope ho
    obtain ⟨i, hij⟩ := List.mem_iff_getElem?.mp hj
    obtain ⟨f, g', _, hg', _, hb⟩ := h.frame i j hij
    obtain rfl := Option.some.inj (hg.symm.trans hg')
    obtain ⟨q, _, _, hqp⟩ := Value.Alike.exists_mem_left hb hp
    exact Value.mem_of_occurs_right hqp ho

end Store

/-- Evaluations stay in step in stores of which the second has the frames of the first among
others. New frames come after the first `base`. -/
def storeShared (base : Nat) : Lockstep where
  World := List ScopeId
  Later places places' := ∃ more, places' = places ++ more ∧ ∀ j ∈ more, base ≤ j
  node _ := True
  holds places _ i j := places[i]? = some j
  reads places _ i j := places[i]? = some j
  writes places _ i j := places[i]? = some j
  machine places m n :=
    m.store.Embeds places n.store ∧ base ≤ n.store.frames.size ∧ m.printed = n.printed
  error := EvalError.SameReport
  refl places := ⟨[], (List.append_nil places).symm, nofun⟩
  trans := by
    rintro places _ _ ⟨more, rfl, h⟩ ⟨more', rfl, h'⟩
    refine ⟨more ++ more', List.append_assoc _ _ _, fun j hj => ?_⟩
    exact (List.mem_append.mp hj).elim (h j) (h' j)
  holds_mono := by
    rintro _ _ _ i j ⟨more, rfl, _⟩ hij
    exact place_append hij
  reads_mono := by
    rintro _ _ _ i j ⟨more, rfl, _⟩ hij
    exact place_append hij
  writes_mono := by
    rintro _ _ _ i j ⟨more, rfl, _⟩ hij
    exact place_append hij
  node_zero := trivial
  node_nil := trivial
  node_bool _ := trivial
  node_sequence := trivial
  node_length _ := trivial
  node_list _ _ := trivial
  node_apply _ _ _ := trivial
  error_apply _ _ _ := EvalError.sameReport_refl _
  error_arity _ _ := EvalError.sameReport_refl _
  error_boolean _ _ := EvalError.sameReport_refl _
  error_list _ _ := EvalError.sameReport_refl _
  error_shape {_ f _ _} h := congrArg (shapeReport f) h.message_eq
  reads_call h _ _ _ := h
  reads_form h _ _ := ⟨fun _ _ => h, fun _ _ => h, fun _ _ => h⟩
  find hm hij := Store.find?_embeds hm.1 _ hij
  put := by
    rintro places m n k v w i j ⟨hm, hbase, hp⟩ hij hv
    exact ⟨Store.embeds_put hm hij k hv, by rwa [Store.size_put], hp⟩
  create := by
    rintro places m n v i j ⟨hm, hbase, hp⟩ hij
    have hnew : (places ++ [n.store.frames.size])[m.store.frames.size]? =
        some n.store.frames.size := by
      rw [← hm.size, List.getElem?_concat_length]
    refine ⟨places ++ [n.store.frames.size], ⟨_, rfl, ?_⟩, ⟨Store.embeds_create hm hij, ?_, hp⟩,
      fun _ _ => hnew, fun _ => hnew⟩
    · exact List.forall_mem_singleton.mpr hbase
    · rw [Store.size_create]
      exact Nat.le_succ_of_le hbase
  print h hv := ⟨h.1, h.2.1, Machine.printed_print_eq h.2.2 hv.display_eq⟩

theorem eval_embeds {places : List ScopeId} {s t : Store} (h : s.Embeds places t) {i j : ScopeId}
    (hij : places[i]? = some j) (limit : Nat) {v w : Value} (hv : v.Placed places w) :
    let x := (eval limit 0 v i).run ⟨s, #[]⟩
    let y := (eval limit 0 w j).run ⟨t, #[]⟩
    ∃ more, (∀ k ∈ more, t.frames.size ≤ k) ∧ x.2.store.Embeds (places ++ more) y.2.store ∧
      x.2.printed = y.2.printed ∧
      Agree EvalError.SameReport (Value.Placed (places ++ more)) x.1 y.1 := by
  obtain ⟨_, ⟨more, rfl, hmore⟩, ⟨hstore, _, hp⟩, hr⟩ :=
    (storeShared t.frames.size).evalLevels_evaluates limit limit (EvalError.sameReport_refl _) ((limit : Int) - 0).toNat places
      v w i j hv hij ⟨s, #[]⟩ ⟨t, #[]⟩ ⟨h, Nat.le_refl _, rfl⟩
  exact ⟨more, hmore, hstore, hp, hr⟩

end SmallLisp
