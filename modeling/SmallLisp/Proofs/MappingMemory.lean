import SmallLisp.Proofs.InsertionOrder

namespace SmallLisp

structure ScopeCell where
  mapping : Nat
  outer : Option ScopeId

instance : Inhabited ScopeCell := ⟨⟨0, none⟩⟩

/-- Scopes whose mappings are written in place. Scopes and snapshots only refer to their
mappings, so that two of them could share one. -/
@[ext]
structure Memory where
  mappings : Array Bindings
  cells : Array ScopeCell
  snapshots : Array Nat

namespace Memory

def empty : Memory := ⟨#[], #[], #[]⟩

def read (m : Memory) (j : Nat) : Bindings := m.mappings[j]?.getD []

/-- The scopes and snapshots with the bindings that they refer to. -/
def view (m : Memory) : Scopes :=
  ⟨⟨m.cells.map fun c => ⟨m.read c.mapping, c.outer⟩⟩, m.snapshots.map m.read⟩

def change (m : Memory) (j : Nat) (f : Bindings → Bindings) : Memory :=
  ⟨m.mappings.modify j f, m.cells, m.snapshots⟩

def assign (m : Memory) (j : Nat) (entries : List (Symbol × Value)) : Memory :=
  entries.foldl (fun m entry => m.change j (Bindings.put entry.1 entry.2)) m

/-- A mapping is emptied and then filled with what the other one holds by that time. -/
def refill (m : Memory) (j other : Nat) : Memory :=
  let cleared := m.change j fun _ => []
  cleared.assign j (cleared.read other)

def create (m : Memory) (outer : Option ScopeId) : Memory :=
  ⟨m.mappings.push [], m.cells.push ⟨m.mappings.size, outer⟩, m.snapshots⟩

def save (m : Memory) (j : Nat) : Memory :=
  ⟨m.mappings.push (m.read j), m.cells, m.snapshots.push m.mappings.size⟩

def perform (m : Memory) : ScopeAction → Memory
  | .create outer => m.create outer
  | .set scope key value => m.assign m.cells[scope]!.mapping (symbolEntries [(key, value)])
  | .update scope entries => m.assign m.cells[scope]!.mapping (symbolEntries entries)
  | .bind home params values =>
    if params.length = values.length then
      (m.create (some home)).assign m.mappings.size (params.zip values)
    else m
  | .snapshot scope => m.save m.cells[scope]!.mapping
  | .restore scope saved => m.refill m.cells[scope]!.mapping m.snapshots[saved]!

def act (m : Memory) (a : ScopeAction) : Memory := if m.view.Knows a then m.perform a else m

def actAll (m : Memory) (actions : List ScopeAction) : Memory := actions.foldl act m

/-- No mapping is shared: each belongs to one scope only or to snapshots. -/
structure Separate (m : Memory) : Prop where
  cell_lt : ∀ c ∈ m.cells, c.mapping < m.mappings.size
  saved_lt : ∀ j ∈ m.snapshots, j < m.mappings.size
  cells : ∀ (i k : ScopeId) (c d : ScopeCell), m.cells[i]? = some c → m.cells[k]? = some d →
    c.mapping = d.mapping → i = k
  saved : ∀ c ∈ m.cells, c.mapping ∉ m.snapshots

variable {m : Memory}

theorem read_change (j k : Nat) (f : Bindings → Bindings) (hk : k < m.mappings.size) :
    (m.change j f).read k = if j = k then f (m.read k) else m.read k := by
  rw [read, read, change, Array.getElem?_modify, Array.getElem?_eq_getElem hk]
  split <;> rfl

theorem modify_modify (mappings : Array Bindings) (j : Nat) (f g : Bindings → Bindings) :
    (mappings.modify j f).modify j g = mappings.modify j fun b => g (f b) := by
  apply Array.ext_getElem?
  intro k
  simp only [Array.getElem?_modify]
  split <;> simp [Option.map_map, Function.comp_def]

theorem modify_id (mappings : Array Bindings) (j : Nat) :
    mappings.modify j (fun b => b) = mappings := by
  apply Array.ext_getElem?
  intro k
  simp [Array.getElem?_modify]

theorem change_change (j : Nat) (f g : Bindings → Bindings) :
    (m.change j f).change j g = m.change j fun b => g (f b) :=
  Memory.ext (modify_modify m.mappings j f g) rfl rfl

theorem assign_eq (j : Nat) (entries : List (Symbol × Value)) :
    m.assign j entries = m.change j (Bindings.putAll entries) := by
  induction entries generalizing m with
  | nil => exact Memory.ext (modify_id m.mappings j).symm rfl rfl
  | cons entry rest ih => exact ih.trans (change_change ..)

theorem separate_change (h : m.Separate) (j : Nat) (f : Bindings → Bindings) :
    (m.change j f).Separate := by
  have hsize : (m.change j f).mappings.size = m.mappings.size := Array.size_modify
  exact ⟨fun c hc => hsize ▸ h.cell_lt c hc, fun k hk => hsize ▸ h.saved_lt k hk, h.cells, h.saved⟩

theorem separate_assign (h : m.Separate) (j : Nat) (entries : List (Symbol × Value)) :
    (m.assign j entries).Separate := by
  rw [assign_eq]
  exact separate_change h j _

theorem view_change (h : m.Separate) {i : ScopeId} {c : ScopeCell} (hc : m.cells[i]? = some c)
    (f : Bindings → Bindings) : (m.change c.mapping f).view =
      ⟨⟨m.view.store.frames.modify i fun fr => ⟨f fr.bindings, fr.outer⟩⟩, m.view.snapshots⟩ := by
  have hmem : c ∈ m.cells := Array.mem_of_getElem? hc
  have hframes (k : ScopeId) : (m.change c.mapping f).view.store.frames[k]? =
      (m.view.store.frames.modify i fun fr => ⟨f fr.bindings, fr.outer⟩)[k]? := by
    simp only [view, Array.getElem?_modify, Array.getElem?_map]
    change (m.cells[k]?).map _ = _
    cases hd : m.cells[k]? with
    | none => simp
    | some d =>
      have hlt := h.cell_lt d (Array.mem_of_getElem? hd)
      rw [Option.map_some, Option.map_some, read_change _ _ _ hlt]
      by_cases hik : i = k
      · subst k
        obtain rfl : c = d := Option.some.inj (hc.symm.trans hd)
        simp
      · rw [if_neg hik, if_neg fun hcd => hik (h.cells i k c d hc hd hcd)]
  have hsaved : (m.change c.mapping f).view.snapshots = m.view.snapshots := by
    refine Array.map_congr_left fun j hj => ?_
    have hne : c.mapping ≠ j := fun hcj => h.saved c hmem (hcj ▸ hj)
    rw [read_change _ _ _ (h.saved_lt j hj), if_neg hne]
  exact Scopes.ext (congrArg Store.mk (Array.ext_getElem? hframes)) hsaved

theorem view_assign (h : m.Separate) {i : ScopeId} {c : ScopeCell} (hc : m.cells[i]? = some c)
    (entries : List (Symbol × Value)) :
    (m.assign c.mapping entries).view = ⟨m.view.store.putAll i entries, m.view.snapshots⟩ := by
  rw [assign_eq]
  exact view_change h hc _

/-- Emptied and filled in place, a scope has what the snapshot holds: the snapshot is not
emptied with it. -/
theorem view_refill (h : m.Separate) {i : ScopeId} {c : ScopeCell} (hc : m.cells[i]? = some c)
    {j : Nat} (hj : j ∈ m.snapshots) (hnodup : (m.read j).names.Nodup) :
    (m.refill c.mapping j).view = ⟨m.view.store.restore i (m.read j), m.view.snapshots⟩ := by
  have hne : c.mapping ≠ j := fun hcj => h.saved c (Array.mem_of_getElem? hc) (hcj ▸ hj)
  have hread : (m.change c.mapping fun _ => []).read j = m.read j := by
    rw [read_change _ _ _ (h.saved_lt j hj), if_neg hne]
  rw [refill, hread, assign_eq, change_change, view_change h hc, Bindings.putAll_self hnodup]
  rfl

section Push

variable (h : m.Separate) (b : Bindings) (cells : Array ScopeCell) (snapshots : Array Nat)

theorem read_push {j : Nat} (hj : j < m.mappings.size) :
    (Memory.mk (m.mappings.push b) cells snapshots).read j = m.read j := by
  rw [read, Array.getElem?_push_lt hj, read, Array.getElem?_eq_getElem hj]

theorem read_push_size :
    (Memory.mk (m.mappings.push b) cells snapshots).read m.mappings.size = b := by
  rw [read, Array.getElem?_push_size]
  rfl

include h

theorem map_cells_push :
    (m.cells.map fun c =>
      Frame.mk ((Memory.mk (m.mappings.push b) cells snapshots).read c.mapping) c.outer) =
    m.view.store.frames :=
  Array.map_congr_left fun c hc => by rw [read_push b cells snapshots (h.cell_lt c hc)]

theorem map_snapshots_push : m.snapshots.map (Memory.mk (m.mappings.push b) cells snapshots).read =
    m.view.snapshots :=
  Array.map_congr_left fun _ hj => read_push b cells snapshots (h.saved_lt _ hj)

end Push

theorem view_create (h : m.Separate) (outer : Option ScopeId) :
    (m.create outer).view = ⟨(m.view.store.create outer).2, m.view.snapshots⟩ := by
  rw [view, create, Array.map_push, map_cells_push h, map_snapshots_push h, read_push_size]
  rfl

theorem view_save (h : m.Separate) (j : Nat) :
    (m.save j).view = ⟨m.view.store, m.view.snapshots.push (m.read j)⟩ := by
  rw [view, save, Array.map_push, map_cells_push h, map_snapshots_push h, read_push_size]

theorem cell_create {outer : Option ScopeId} {i : ScopeId} {c : ScopeCell}
    (hc : (m.create outer).cells[i]? = some c) :
    i = m.cells.size ∧ c.mapping = m.mappings.size ∨ m.cells[i]? = some c := by
  rw [create, Array.getElem?_push] at hc
  split at hc
  · next hi => exact .inl ⟨hi, (Option.some.inj hc) ▸ rfl⟩
  · exact .inr hc

theorem separate_create (h : m.Separate) (outer : Option ScopeId) : (m.create outer).Separate := by
  have hsize : (m.create outer).mappings.size = m.mappings.size + 1 := Array.size_push _
  refine ⟨fun c hc => ?_, fun j hj => ?_, fun i k c d hc hd hcd => ?_, fun c hc => ?_⟩
  · rw [hsize]
    obtain hc | rfl := Array.mem_push.mp hc
    · exact Nat.lt_succ_of_lt (h.cell_lt c hc)
    · exact Nat.lt_succ_self _
  · rw [hsize]
    exact Nat.lt_succ_of_lt (h.saved_lt j hj)
  · have hlt {l : ScopeId} {e : ScopeCell} (he : m.cells[l]? = some e) :=
      Nat.ne_of_lt (h.cell_lt e (Array.mem_of_getElem? he))
    obtain ⟨hi, hnew⟩ | hc := cell_create hc
    · obtain ⟨hk, _⟩ | hd := cell_create hd
      · exact hi.trans hk.symm
      · exact absurd (hcd.symm.trans hnew) (hlt hd)
    · obtain ⟨_, hnew⟩ | hd := cell_create hd
      · exact absurd (hcd.trans hnew) (hlt hc)
      · exact h.cells i k c d hc hd hcd
  · obtain hc | rfl := Array.mem_push.mp hc
    · exact h.saved c hc
    · exact fun hj => Nat.lt_irrefl _ (h.saved_lt _ hj)

theorem separate_save (h : m.Separate) (j : Nat) : (m.save j).Separate := by
  have hsize : (m.save j).mappings.size = m.mappings.size + 1 := Array.size_push _
  refine ⟨fun c hc => ?_, fun k hk => ?_, h.cells, fun c hc hk => ?_⟩
  · rw [hsize]
    exact Nat.lt_succ_of_lt (h.cell_lt c hc)
  · rw [hsize]
    obtain hk | rfl := Array.mem_push.mp hk
    · exact Nat.lt_succ_of_lt (h.saved_lt k hk)
    · exact Nat.lt_succ_self _
  · obtain hk | hk := Array.mem_push.mp hk
    · exact h.saved c hc hk
    · exact Nat.ne_of_lt (h.cell_lt c hc) hk

section Look

variable {i : ScopeId} {k : Nat}

theorem size_view (m : Memory) : m.view.size = m.cells.size := Array.size_map

theorem cell_of_lt (hi : i < m.view.size) : m.cells[i]? = some m.cells[i]! := by
  rw [size_view] at hi
  rw [getElem!_pos m.cells i hi, Array.getElem?_eq_getElem hi]

theorem bindings_view (hi : i < m.view.size) :
    m.view.store.bindings i = m.read m.cells[i]!.mapping := by
  rw [Store.bindings, view, Array.getElem?_map, cell_of_lt hi]
  rfl

theorem snapshots_view (hk : k < m.view.snapshots.size) :
    m.snapshots[k]! ∈ m.snapshots ∧ m.view.snapshots[k]! = m.read m.snapshots[k]! := by
  have hsize : m.view.snapshots.size = m.snapshots.size := Array.size_map
  have hk' : k < m.snapshots.size := hsize ▸ hk
  rw [getElem!_pos m.view.snapshots k hk, getElem!_pos m.snapshots k hk']
  exact ⟨Array.getElem_mem hk', Array.getElem_map ..⟩

end Look

theorem separate_perform (h : m.Separate) (a : ScopeAction) : (m.perform a).Separate := by
  cases a with
  | create outer => exact separate_create h outer
  | set | update => exact separate_assign h _ _
  | bind home params values =>
    rw [perform]
    split
    · exact separate_assign (separate_create h _) _ _
    · exact h
  | snapshot scope => exact separate_save h _
  | restore scope saved => exact separate_assign (separate_change h _ _) _ _

theorem view_perform (h : m.Separate) (hs : m.view.Distinct) {a : ScopeAction}
    (ha : m.view.Knows a) : (m.perform a).view = m.view.perform a := by
  cases a with
  | create outer => exact view_create h outer
  | set scope key value =>
    rw [Scopes.perform_set, Scopes.perform, Store.update_eq_putAll]
    exact view_assign h (cell_of_lt ha) _
  | update scope entries =>
    rw [Scopes.perform, Store.update_eq_putAll]
    exact view_assign h (cell_of_lt ha) _
  | bind home params values =>
    rw [perform, Scopes.perform, Store.enter]
    split
    · have hcell : (m.create (some home)).cells[m.cells.size]? =
          some ⟨m.mappings.size, some home⟩ := Array.getElem?_push_size
      refine (view_assign (separate_create h _) hcell _).trans ?_
      rw [view_create h, ← size_view]
      rfl
    · rfl
  | snapshot scope =>
    rw [Scopes.perform, bindings_view ha]
    exact view_save h _
  | restore scope saved =>
    obtain ⟨hmem, hread⟩ := snapshots_view ha.2
    have hnodup : (m.read m.snapshots[saved]!).names.Nodup := by
      rw [← hread, getElem!_pos m.view.snapshots saved ha.2]
      exact hs.snapshots _ (Array.getElem_mem ha.2)
    rw [Scopes.perform, hread]
    exact view_refill h (cell_of_lt ha.1) hmem hnodup

theorem view_act (h : m.Separate) (hs : m.view.Distinct) (a : ScopeAction) :
    (m.act a).view = m.view.act a ∧ (m.act a).Separate := by
  by_cases ha : m.view.Knows a
  · rw [act, if_pos ha, Scopes.act_of_knows ha]
    exact ⟨view_perform h hs ha, separate_perform h a⟩
  · rw [act, if_neg ha, Scopes.act, if_neg ha]
    exact ⟨rfl, h⟩

/-- Written in place, the mappings show what they show when each is a value by itself. -/
theorem view_actAll (h : m.Separate) (hs : m.view.Distinct) (actions : List ScopeAction) :
    (m.actAll actions).view = m.view.actAll actions := by
  induction actions generalizing m with
  | nil => rfl
  | cons a actions ih =>
    obtain ⟨hview, hsep⟩ := view_act h hs a
    have hdistinct : (m.act a).view.Distinct := by
      rw [hview]
      exact Scopes.distinct_of_step (m.view.step_act a) hs
    exact (ih hsep hdistinct).trans (congrArg (Scopes.actAll · actions) hview)

theorem view_empty : empty.view = Scopes.empty := by
  simp [view, empty, Scopes.empty, Store.empty]

theorem separate_empty : empty.Separate := ⟨nofun, nofun, nofun, nofun⟩

end Memory

end SmallLisp
