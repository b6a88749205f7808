import SmallLisp.Proofs.ScopeHistory

namespace SmallLisp

theorem Bindings.value?_eq_none_iff {b : Bindings} {key : Symbol} :
    b.value? key = none ↔ key ∉ b.names := by
  induction b with
  | nil => simp [value?, names]
  | cons entry rest ih =>
    obtain ⟨k, v⟩ := entry
    by_cases hk : k = key
    · simp [value?, names, hk]
    · have hk' : ¬ key = k := fun h => hk h.symm
      simpa [value?, names, hk, hk'] using ih

namespace Store

/-- The links to the outside, followed from a scope until one has no scope around it. -/
inductive Path (s : Store) : ScopeId → List ScopeId → Prop
  | outermost {i : ScopeId} (h : s.link? i = some none) : Path s i [i]
  | inside {i outer : ScopeId} {path : List ScopeId} (h : s.link? i = some (some outer))
      (hp : Path s outer path) : Path s i (i :: path)

/-- A binding of the name in `home` is the one that counts in `scope`: `home` is on the
chain, and no scope further inside binds the name. -/
def Sees (s : Store) (key : Symbol) (scope home : ScopeId) : Prop :=
  ∃ inside outside, s.chain scope = inside ++ home :: outside ∧
    ∀ i ∈ inside, key ∉ (s.bindings i).names

variable {s t : Store} {scope : ScopeId} {path : List ScopeId}

theorem exists_link (h : scope < s.frames.size) : ∃ outer, s.link? scope = some outer :=
  ⟨_, by rw [link?, Array.getElem?_eq_getElem h, Option.map_some]⟩

theorem exists_path (hs : s.Forest) (h : scope < s.frames.size) : ∃ path, s.Path scope path := by
  induction scope using Nat.strongRecOn with
  | ind scope ih =>
    obtain ⟨_ | outer, hlink⟩ := exists_link h
    · exact ⟨_, .outermost hlink⟩
    · have hlt := hs scope outer hlink
      obtain ⟨path, hp⟩ := ih outer hlt (Nat.lt_trans hlt h)
      exact ⟨_, .inside hlink hp⟩

/-- The chain is all of the path, although it stops at a link that does not lead to an
older scope. -/
theorem chain_of_path (hs : s.Forest) (h : s.Path scope path) : s.chain scope = path := by
  induction h with
  | outermost h =>
    obtain ⟨f, hf, ho⟩ := Option.map_eq_some_iff.mp h
    simp only [chain, hf, ho]
  | inside h _ ih =>
    obtain ⟨f, hf, ho⟩ := Option.map_eq_some_iff.mp h
    rw [chain]
    simp only [hf, ho, if_pos (hs _ _ h), ih]

theorem path_chain (hs : s.Forest) (h : scope < s.frames.size) : s.Path scope (s.chain scope) := by
  obtain ⟨path, hp⟩ := exists_path hs h
  rwa [chain_of_path hs hp]

theorem path_congr (hl : ∀ i, t.link? i = s.link? i) (h : s.Path scope path) :
    t.Path scope path := by
  induction h with
  | outermost h => exact .outermost ((hl _).trans h)
  | inside h _ ih => exact .inside ((hl _).trans h) ih

theorem pairwise_of_path (hs : s.Forest) (h : s.Path scope path) :
    path.Pairwise (· > ·) ∧ ∀ i ∈ path, i ≤ scope := by
  induction h with
  | outermost => exact ⟨List.pairwise_singleton _ _, by simp⟩
  | inside h _ ih =>
    have hlt := hs _ _ h
    refine ⟨List.pairwise_cons.mpr ⟨fun i hi => ?_, ih.1⟩, fun i hi => ?_⟩
    · exact Nat.lt_of_le_of_lt (ih.2 i hi) hlt
    · obtain rfl | hi := List.mem_cons.mp hi
      · exact Nat.le_refl _
      · exact Nat.le_trans (ih.2 i hi) (Nat.le_of_lt hlt)

theorem find?_of_path (hs : s.Forest) (h : s.Path scope path) (key : Symbol) :
    s.find? key scope = path.findSome? fun i => (s.bindings i).value? key := by
  induction h with
  | outermost h =>
    obtain ⟨f, hf, ho⟩ := Option.map_eq_some_iff.mp h
    rw [find?, List.findSome?_cons, bindings]
    simp only [hf, ho]
    cases f.bindings.value? key <;> rfl
  | inside h _ ih =>
    obtain ⟨f, hf, ho⟩ := Option.map_eq_some_iff.mp h
    rw [find?, List.findSome?_cons, bindings]
    simp only [hf, ho, if_pos (hs _ _ h), ih]
    cases f.bindings.value? key <;> rfl

section Lookup

variable (hs : s.Forest) (h : scope < s.frames.size) (key : Symbol)

include hs h

theorem find?_eq_findSome? :
    s.find? key scope = (s.chain scope).findSome? fun i => (s.bindings i).value? key :=
  find?_of_path hs (path_chain hs h) key

theorem find?_eq_some_iff (v : Value) : s.find? key scope = some v ↔
    ∃ home, s.Sees key scope home ∧ (s.bindings home).value? key = some v := by
  rw [find?_eq_findSome? hs h, List.findSome?_eq_some_iff]
  constructor
  · rintro ⟨inside, home, outside, hchain, hv, hinside⟩
    exact ⟨home, ⟨inside, outside, hchain,
      fun i hi => Bindings.value?_eq_none_iff.mp (hinside i hi)⟩, hv⟩
  · rintro ⟨home, ⟨inside, outside, hchain, hinside⟩, hv⟩
    exact ⟨inside, home, outside, hchain, hv,
      fun i hi => Bindings.value?_eq_none_iff.mpr (hinside i hi)⟩

theorem find?_eq_none_iff : s.find? key scope = none ↔
    ∀ i ∈ s.chain scope, key ∉ (s.bindings i).names := by
  rw [find?_eq_findSome? hs h, List.findSome?_eq_none_iff]
  exact forall₂_congr fun i _ => Bindings.value?_eq_none_iff

end Lookup

section Put

variable (other : ScopeId) (key : Symbol) (value : Value)

theorem forest_put (hs : s.Forest) : (s.put other key value).Forest :=
  fun i o h => hs i o ((s.link?_putAll other i [(key, value)]).symm.trans h)

theorem chain_put (hs : s.Forest) (h : scope < s.frames.size) :
    (s.put other key value).chain scope = s.chain scope :=
  chain_of_path (forest_put other key value hs)
    (path_congr (fun i => s.link?_putAll other i [(key, value)]) (path_chain hs h))

theorem find?_put (hs : s.Forest) (h : scope < s.frames.size) (k : Symbol) :
    (s.put other key value).find? k scope =
      (s.chain scope).findSome? fun i => ((s.put other key value).bindings i).value? k := by
  have h' : scope < (s.put other key value).frames.size := (s.size_put ..).symm ▸ h
  rw [find?_eq_findSome? (forest_put other key value hs) h', chain_put other key value hs h]

theorem bindings_put_of_ne {i : ScopeId} (hi : i ≠ other) :
    (s.put other key value).bindings i = s.bindings i := by
  rw [bindings_put, if_neg fun h => hi h.1.symm]

theorem find?_put_of_sees (hs : s.Forest) (h : scope < s.frames.size)
    (hsees : s.Sees key scope other) :
    (s.put other key value).find? key scope = some value := by
  obtain ⟨inside, outside, hchain, hinside⟩ := hsees
  have hpath : s.Path scope (inside ++ other :: outside) := hchain ▸ path_chain hs h
  obtain ⟨hpair, hle⟩ := pairwise_of_path hs hpath
  have hmem : other ∈ inside ++ other :: outside := List.mem_append_right _ (.head _)
  have hother : other < s.frames.size := Nat.lt_of_le_of_lt (hle other hmem) h
  -- The scopes inside are newer than `other`, so that none of them is written to.
  have hunbound : ∀ i ∈ inside, ((s.put other key value).bindings i).value? key = none := by
    intro i hi
    have hgt : i > other := (List.pairwise_append.mp hpair).2.2 i hi other (.head _)
    rw [bindings_put_of_ne other key value (Nat.ne_of_gt hgt)]
    exact Bindings.value?_eq_none_iff.mpr (hinside i hi)
  have hbound : ((s.put other key value).bindings other).value? key = some value := by
    rw [bindings_put, if_pos ⟨rfl, hother⟩, Bindings.value?_put, if_pos rfl]
  rw [find?_put other key value hs h, hchain]
  exact List.findSome?_eq_some_iff.mpr ⟨inside, other, outside, rfl, hbound, hunbound⟩

theorem find?_put_of_ne (hs : s.Forest) (h : scope < s.frames.size) {k : Symbol} (hk : k ≠ key) :
    (s.put other key value).find? k scope = s.find? k scope := by
  rw [find?_put other key value hs h, find?_eq_findSome? hs h]
  refine congrFun (congrArg List.findSome? (funext fun i => ?_)) _
  rw [bindings_put]
  split
  · rw [Bindings.value?_put, if_neg hk]
  · rfl

theorem findSome?_put_of_not_mem {scopes : List ScopeId} (h : other ∉ scopes) :
    (scopes.findSome? fun i => ((s.put other key value).bindings i).value? key) =
      scopes.findSome? fun i => (s.bindings i).value? key := by
  induction scopes with
  | nil => rfl
  | cons i scopes ih =>
    have hi : i ≠ other := Ne.symm (List.ne_of_not_mem_cons h)
    rw [List.findSome?_cons, List.findSome?_cons, ih (List.not_mem_of_not_mem_cons h),
      bindings_put_of_ne other key value hi]

theorem find?_put_of_not_sees (hs : s.Forest) (h : scope < s.frames.size)
    (hsees : ¬ s.Sees key scope other) :
    (s.put other key value).find? key scope = s.find? key scope := by
  rw [find?_put other key value hs h, find?_eq_findSome? hs h]
  by_cases hmem : other ∈ s.chain scope
  · obtain ⟨inside, outside, hchain, hnew⟩ := List.eq_append_cons_of_mem hmem
    -- A scope inside `other` binds the name, or else it would be seen there.
    have hfound : inside.findSome? (fun i => (s.bindings i).value? key) ≠ none := by
      intro hnone
      refine hsees ⟨inside, outside, hchain, fun i hi => ?_⟩
      exact Bindings.value?_eq_none_iff.mp (List.findSome?_eq_none_iff.mp hnone i hi)
    obtain ⟨w, hw⟩ := Option.ne_none_iff_exists'.mp hfound
    rw [hchain, List.findSome?_append, List.findSome?_append,
      findSome?_put_of_not_mem other key value hnew, hw, Option.some_or, Option.some_or]
  · exact findSome?_put_of_not_mem other key value hmem

end Put

end Store

namespace Scopes

theorem act_set {s : Scopes} {scope : ScopeId} (h : scope < s.size) (key : Symbol) (value : Value) :
    (s.act (.set scope (.sym key) value)).store = s.store.put scope key value := by
  rw [act_of_knows (a := .set scope (.sym key) value) h]
  rfl

end Scopes

/-- However scopes have been made and written to: the links from a scope to the outside
come to an end, and a name has the value it has in the innermost scope on the way that
binds it. To bind a name in a scope changes that value only where this scope is the
innermost, and there for every scope inside, old or new. -/
theorem Scopes.lookup_in_a_forest_of_scopes (actions : List ScopeAction) (scope : ScopeId)
    (h : scope < (empty.actAll actions).size) :
    let s := (empty.actAll actions).store
    s.Path scope (s.chain scope) ∧
    (∀ key v, s.find? key scope = some v ↔
      ∃ home, s.Sees key scope home ∧ (s.bindings home).value? key = some v) ∧
    (∀ key, s.find? key scope = none ↔ ∀ i ∈ s.chain scope, key ∉ (s.bindings i).names) ∧
    (∀ key v, s.get key scope = .ok v ↔ s.find? key scope = some v) ∧
    (∀ key e, s.get key scope = .error e ↔ s.find? key scope = none ∧ e = .unbound key) ∧
    (∀ key, s.contains key scope = true ↔ ∃ v, s.find? key scope = some v) ∧
    ∀ other key value, other < s.frames.size →
      let t := (empty.actAll (actions ++ [.set other (.sym key) value])).store
      (s.Sees key scope other → t.find? key scope = some value) ∧
      ∀ k, t.find? k scope ≠ s.find? k scope → k = key ∧ s.Sees key scope other := by
  intro s
  have hs : s.Forest := forest_actAll actions
  refine ⟨Store.path_chain hs h, Store.find?_eq_some_iff hs h, Store.find?_eq_none_iff hs h,
    fun key v => ?_, fun key e => ?_, fun key => ?_, fun other key value hother => ?_⟩
  · rw [Store.get]
    cases s.find? key scope <;> simp
  · rw [Store.get]
    cases s.find? key scope <;> simp [eq_comm]
  · exact Option.isSome_iff_exists
  · intro t
    have ht : t = s.put other key value := by
      rw [← act_set hother]
      exact congrArg store (actAll_append ..)
    rw [ht]
    refine ⟨Store.find?_put_of_sees other key value hs h, fun k hchanged => ?_⟩
    have hk : k = key := by
      by_cases hk : k = key
      · exact hk
      · exact absurd (Store.find?_put_of_ne other key value hs h hk) hchanged
    subst k
    refine ⟨rfl, ?_⟩
    by_cases hsees : s.Sees key scope other
    · exact hsees
    · exact absurd (Store.find?_put_of_not_sees other key value hs h hsees) hchanged

theorem Scopes.outer_binding_is_seen_again :
    let x : Symbol := ⟨"x", by decide⟩
    let actions : List ScopeAction := [.create none, .set 0 (.sym x) (.int 1), .create (some 0),
      .snapshot 1, .set 1 (.sym x) (.int 2), .restore 1 0]
    1 < (empty.actAll actions).size ∧
      (empty.actAll (actions ++ [.set 0 (.sym x) (.int 3)])).store.find? x 1 = some (.int 3) := by
  intro x actions
  have h : 1 < (empty.actAll actions).size := by decide
  have hchain : (empty.actAll actions).store.chain 1 = [1] ++ [0] :=
    Store.chain_of_path (forest_actAll actions) (.inside rfl (.outermost rfl))
  obtain ⟨_, _, _, _, _, _, hset⟩ := lookup_in_a_forest_of_scopes actions 1 h
  exact ⟨h, (hset 0 x (.int 3) (by decide)).1 ⟨[1], [], hchain, by decide⟩⟩

end SmallLisp
