import Mathlib.Data.List.Induction
import SmallLisp.Proofs.ScopeHistory

namespace SmallLisp

section FirstOccurrences

variable {α : Type} [DecidableEq α]

theorem eraseDups_concat (as : List α) (a : α) :
    (as ++ [a]).eraseDups = if a ∈ as then as.eraseDups else as.eraseDups ++ [a] := by
  rw [List.eraseDups_append]
  by_cases h : a ∈ as <;> simp [List.removeAll, List.eraseDups_cons, h]

theorem nodup_eraseDups (as : List α) : as.eraseDups.Nodup := by
  induction as using List.reverseRecOn with
  | nil => exact List.nodup_nil
  | append_singleton as a ih =>
    rw [eraseDups_concat]
    split
    · exact ih
    · next h =>
      have ha : a ∉ as.eraseDups := mt List.mem_eraseDups.mp h
      exact List.nodup_append.mpr ⟨ih, List.pairwise_singleton _ a,
        fun b hb c hc => List.mem_singleton.mp hc ▸ ne_of_mem_of_not_mem hb ha⟩

theorem eraseDups_of_nodup {as : List α} (h : as.Nodup) : as.eraseDups = as := by
  induction as using List.reverseRecOn with
  | nil => rfl
  | append_singleton as a ih =>
    obtain ⟨has, _, hne⟩ := List.nodup_append.mp h
    have ha : a ∉ as := fun hmem => hne a hmem a (.head _) rfl
    rw [eraseDups_concat, if_neg ha, ih has]

end FirstOccurrences

namespace Bindings

/-- The names of the bindings that are put come behind those that are there, each where it
comes first. -/
theorem names_putAll (entries : List (Symbol × Value)) {b : Bindings} {inserted : List Symbol}
    (h : b.names = inserted.eraseDups) :
    (b.putAll entries).names = (inserted ++ entries.map (·.1)).eraseDups := by
  induction entries generalizing b inserted with
  | nil => rw [List.map_nil, List.append_nil, ← h]; rfl
  | cons entry rest ih =>
    have hput : (b.put entry.1 entry.2).names = (inserted ++ [entry.1]).eraseDups := by
      rw [names_put, eraseDups_concat, h]
      by_cases hm : entry.1 ∈ inserted <;> simp [hm]
    rw [List.map_cons, List.append_cons]
    exact ih hput

theorem nodup_names_putAll (entries : List (Symbol × Value)) {b : Bindings} (h : b.names.Nodup) :
    (b.putAll entries).names.Nodup := by
  rw [names_putAll entries (eraseDups_of_nodup h).symm]
  exact nodup_eraseDups _

theorem put_of_not_mem {b : Bindings} {key : Symbol} (h : key ∉ b.names) (value : Value) :
    b.put key value = b ++ [(key, value)] := by
  induction b with
  | nil => rfl
  | cons entry rest ih =>
    have hne : key ≠ entry.1 := List.ne_of_not_mem_cons h
    have hrest : key ∉ names rest := List.not_mem_of_not_mem_cons h
    rw [put, if_neg (Ne.symm hne), ih hrest, List.cons_append]

theorem putAll_self {b : Bindings} (h : b.names.Nodup) : putAll b [] = b := by
  induction b using List.reverseRecOn with
  | nil => rfl
  | append_singleton rest entry ih =>
    have hnames : names (rest ++ [entry]) = names rest ++ [entry.1] := List.map_append
    obtain ⟨hrest, _, hne⟩ := List.nodup_append.mp (hnames ▸ h)
    have hnew : entry.1 ∉ names rest := fun hmem => hne _ hmem _ (.head _) rfl
    calc putAll (rest ++ [entry]) []
      _ = put entry.1 entry.2 (putAll rest []) := List.foldl_append
      _ = put entry.1 entry.2 rest := by rw [ih hrest]
      _ = rest ++ [entry] := put_of_not_mem hnew entry.2

end Bindings

namespace Store

variable (s : Store) (i : ScopeId)

theorem bindings_of_size_le {i : ScopeId} (h : s.frames.size ≤ i) : s.bindings i = [] := by
  rw [bindings, Array.getElem?_eq_none h]

theorem bindings_putAll (scope : ScopeId) (entries : List (Symbol × Value)) :
    (s.putAll scope entries).bindings i =
      if scope = i ∧ i < s.frames.size then (s.bindings i).putAll entries else s.bindings i := by
  simp only [bindings, frame_putAll]
  by_cases h : scope = i
  · by_cases hi : i < s.frames.size <;> simp [h, hi]
  · simp [h]

theorem bindings_opened (outer : Option ScopeId) (entries : List (Symbol × Value)) :
    (s.opened outer entries).bindings i =
      if i = s.frames.size then Bindings.putAll entries [] else s.bindings i := by
  rw [bindings, frame_opened]
  by_cases h : i = s.frames.size
  · rw [if_pos h, if_pos h]
  · rw [if_neg h, if_neg h, bindings]

end Store

namespace Scopes

structure Distinct (s : Scopes) : Prop where
  scopes : ∀ i, (s.store.bindings i).names.Nodup
  snapshots : ∀ saved ∈ s.snapshots, saved.names.Nodup

theorem distinct_of_step {s t : Scopes} (h : s.Step t) (hs : s.Distinct) : t.Distinct := by
  cases h with
  | idle => exact hs
  | opens outer entries =>
    refine ⟨fun i => ?_, hs.snapshots⟩
    rw [Store.bindings_opened]
    split
    · exact Bindings.nodup_names_putAll entries List.nodup_nil
    · exact hs.scopes i
  | writes scope entries =>
    refine ⟨fun i => ?_, hs.snapshots⟩
    rw [Store.bindings_putAll]
    split
    · exact Bindings.nodup_names_putAll entries (hs.scopes i)
    · exact hs.scopes i
  | saves scope =>
    refine ⟨hs.scopes, fun saved hsaved => ?_⟩
    obtain hsaved | rfl := Array.mem_push.mp hsaved
    · exact hs.snapshots saved hsaved
    · exact hs.scopes scope
  | refills scope saved hsaved =>
    refine ⟨fun i => ?_, hs.snapshots⟩
    rw [Store.bindings_restore]
    split
    · exact hs.snapshots saved hsaved
    · exact hs.scopes i

theorem distinct_actAll (actions : List ScopeAction) : (empty.actAll actions).Distinct := by
  refine actAll_induction (fun h => distinct_of_step h) ⟨fun i => ?_, ?_⟩ actions
  · rw [Store.bindings_of_size_le _ (Nat.zero_le i)]
    exact List.nodup_nil
  · exact nofun

/-- The names inserted in a scope since it was made or last restored, after one more
action. A name that is inserted again counts again. -/
def insertion (s : Scopes) (i : ScopeId) (names : List Symbol) : ScopeAction → List Symbol
  | .create _ => if i = s.size then [] else names
  | .set scope key value =>
    if scope = i then names ++ (symbolEntries [(key, value)]).map (·.1) else names
  | .update scope entries =>
    if scope = i then names ++ (symbolEntries entries).map (·.1) else names
  | .bind _ params values =>
    if i = s.size ∧ params.length = values.length then params else names
  | .snapshot _ => names
  | .restore scope saved => if scope = i then s.snapshots[saved]!.names else names

def inserted (i : ScopeId) : Scopes → List Symbol → List ScopeAction → List Symbol
  | _, names, [] => names
  | s, names, a :: rest =>
    inserted i (s.act a) (if s.Knows a then s.insertion i names a else names) rest

theorem names_update {s : Scopes} {i : ScopeId} {names : List Symbol}
    (h : (s.store.bindings i).names = names.eraseDups) {scope : ScopeId} (hscope : scope < s.size)
    (entries : List (Value × Value)) :
    ((s.perform (.update scope entries)).store.bindings i).names =
      (s.insertion i names (.update scope entries)).eraseDups := by
  rw [perform, Store.update_eq_putAll, Store.bindings_putAll, insertion]
  by_cases hi : scope = i
  · rw [if_pos ⟨hi, hi ▸ hscope⟩, if_pos hi]
    exact Bindings.names_putAll _ h
  · rw [if_neg fun hc => hi hc.1, if_neg hi]
    exact h

theorem names_perform {s : Scopes} (hs : s.Distinct) {i : ScopeId} {names : List Symbol}
    (h : (s.store.bindings i).names = names.eraseDups) {a : ScopeAction} (ha : s.Knows a) :
    ((s.perform a).store.bindings i).names = (s.insertion i names a).eraseDups := by
  cases a with
  | create outer =>
    rw [perform, ← Store.opened_nil, Store.bindings_opened, insertion]
    split
    · rfl
    · exact h
  | set scope key value =>
    rw [perform_set]
    exact names_update h ha [(key, value)]
  | update scope entries => exact names_update h ha entries
  | bind home params values =>
    rw [insertion]
    by_cases hlen : params.length = values.length
    · have hstore : (s.perform (.bind home params values)).store =
          s.store.opened (some home) (params.zip values) := by
        rw [perform, Store.enter, if_pos hlen]
        rfl
      rw [hstore, Store.bindings_opened]
      by_cases hi : i = s.size
      · have hnil : Bindings.names [] = ([] : List Symbol).eraseDups := rfl
        rw [if_pos hi, if_pos ⟨hi, hlen⟩, Bindings.names_putAll (params.zip values) hnil,
          List.nil_append, List.map_fst_zip (Nat.le_of_eq hlen)]
      · rw [if_neg hi, if_neg fun hc => hi hc.1]
        exact h
    · rw [perform, Store.enter, if_neg hlen, if_neg fun hc => hlen hc.2]
      exact h
  | snapshot scope => exact h
  | restore scope saved =>
    rw [perform, Store.bindings_restore, insertion]
    by_cases hi : scope = i
    · rw [if_pos ⟨hi, hi ▸ ha.1⟩, if_pos hi, getElem!_pos s.snapshots saved ha.2]
      exact (eraseDups_of_nodup (hs.snapshots _ (Array.getElem_mem ha.2))).symm
    · rw [if_neg fun hc => hi hc.1, if_neg hi]
      exact h

theorem names_actAll {s : Scopes} (hs : s.Distinct) {i : ScopeId} {names : List Symbol}
    (h : (s.store.bindings i).names = names.eraseDups) (actions : List ScopeAction) :
    ((s.actAll actions).store.bindings i).names = (inserted i s names actions).eraseDups := by
  induction actions generalizing s names with
  | nil => exact h
  | cons a rest ih =>
    refine ih (distinct_of_step (s.step_act a) hs) ?_
    by_cases ha : s.Knows a
    · rw [act_of_knows ha, if_pos ha]
      exact names_perform hs h ha
    · rw [act, if_neg ha, if_neg ha]
      exact h

end Scopes

end SmallLisp
