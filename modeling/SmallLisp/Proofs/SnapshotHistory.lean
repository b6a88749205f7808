import SmallLisp.Proofs.MappingMemory

namespace SmallLisp.Scopes

variable {s t : Scopes} {k : Nat} {b : Bindings}

theorem snapshot_of_step (h : s.Step t) (hk : s.snapshots[k]? = some b) :
    t.snapshots[k]? = some b := by
  cases h with
  | saves scope =>
    have hlt : k < s.snapshots.size := (Array.getElem?_eq_some_iff.mp hk).1
    rw [Array.getElem?_push, if_neg (Nat.ne_of_lt hlt)]
    exact hk
  | _ => exact hk

theorem snapshot_actAll (hk : s.snapshots[k]? = some b) (actions : List ScopeAction) :
    (s.actAll actions).snapshots[k]? = some b :=
  actAll_induction (P := fun t => t.snapshots[k]? = some b) snapshot_of_step hk actions

theorem snapshot_taken {scope : ScopeId} (h : scope < s.size) :
    (s.act (.snapshot scope)).snapshots[s.snapshots.size]? = some (s.store.bindings scope) := by
  rw [act_of_knows (a := .snapshot scope) h]
  exact Array.getElem?_push_size

theorem act_restore {scope : ScopeId} (h : scope < s.size) (hk : s.snapshots[k]? = some b) :
    s.act (.restore scope k) = ⟨s.store.restore scope b, s.snapshots⟩ := by
  obtain ⟨hlt, rfl⟩ := Array.getElem?_eq_some_iff.mp hk
  rw [act_of_knows (a := .restore scope k) ⟨h, hlt⟩, perform, getElem!_pos s.snapshots k hlt]

/-- A snapshot of a scope that is restored into this or another scope, with anything done
in between: the scope has the bindings and the order that there were when the snapshot was
taken, the other scopes and all snapshots are as before, and nothing done later reaches a
snapshot. At all times a scope has each name once, where it came first since the scope was
made or last restored. All this is so although the mappings are written in place. -/
theorem snapshots_are_independent (before between : List ScopeAction) (source target : ScopeId)
    (hsource : source < (empty.actAll before).size)
    (htarget : target < (empty.actAll (before ++ .snapshot source :: between)).size) :
    let taken := empty.actAll before
    let s := empty.actAll (before ++ .snapshot source :: between)
    let t := s.act (.restore target taken.snapshots.size)
    t.store.bindings target = taken.store.bindings source ∧
    t.store.link? target = s.store.link? target ∧
    (∀ i, i ≠ target → t.store.frames[i]? = s.store.frames[i]?) ∧
    t.snapshots = s.snapshots ∧
    (∀ (later : List ScopeAction) (k : Nat) (b : Bindings),
      t.snapshots[k]? = some b → (t.actAll later).snapshots[k]? = some b) ∧
    (∀ actions i, ((empty.actAll actions).store.bindings i).names.Nodup ∧
      ((empty.actAll actions).store.bindings i).names = (inserted i empty [] actions).eraseDups) ∧
    ∀ actions, (Memory.empty.actAll actions).view = empty.actAll actions := by
  intro taken s t
  have hs : s = (taken.act (.snapshot source)).actAll between := actAll_append ..
  have hsaved : s.snapshots[taken.snapshots.size]? = some (taken.store.bindings source) := by
    rw [hs]
    exact snapshot_actAll (snapshot_taken hsource) between
  have ht : t = ⟨s.store.restore target (taken.store.bindings source), s.snapshots⟩ :=
    act_restore htarget hsaved
  refine ⟨?_, ?_, fun i hi => ?_, ?_, fun later k b => ?_, fun actions i => ⟨?_, ?_⟩,
    fun actions => ?_⟩
  · rw [ht, Store.bindings_restore, if_pos ⟨rfl, htarget⟩]
  · rw [ht, Store.link?_restore]
  · rw [ht, Store.frame_restore, if_neg (Ne.symm hi)]
  · rw [ht]
  · exact fun hk => snapshot_actAll hk later
  · exact (distinct_actAll actions).scopes i
  · exact names_actAll (distinct_actAll []) rfl actions
  · rw [← Memory.view_empty]
    exact Memory.view_actAll Memory.separate_empty (Memory.view_empty ▸ distinct_actAll []) actions

theorem snapshot_restored_into_a_newer_scope :
    let x : Symbol := ⟨"x", by decide⟩
    let y : Symbol := ⟨"y", by decide⟩
    let before : List ScopeAction :=
      [.create none, .set 0 (.sym y) (.int 1), .set 0 (.sym x) (.int 2)]
    let between : List ScopeAction :=
      [.bind 0 [x] [.int 3], .set 0 (.sym y) (.int 4), .restore 0 0, .set 0 (.sym x) (.int 5)]
    0 < (empty.actAll before).size ∧
      1 < (empty.actAll (before ++ .snapshot 0 :: between)).size ∧
      ((empty.actAll (before ++ .snapshot 0 :: between)).act (.restore 1 0)).store.bindings 1 =
        [(y, .int 1), (x, .int 2)] := by
  intro x y before between
  have hsource : 0 < (empty.actAll before).size := by decide
  have htarget : 1 < (empty.actAll (before ++ .snapshot 0 :: between)).size := by decide
  have hfirst : (empty.actAll before).snapshots.size = 0 := by decide
  have htaken : (empty.actAll before).store.bindings 0 = [(y, .int 1), (x, .int 2)] := by rfl
  obtain ⟨hrestored, _⟩ := snapshots_are_independent before between 0 1 hsource htarget
  rw [hfirst, htaken] at hrestored
  exact ⟨hsource, htarget, hrestored⟩

end SmallLisp.Scopes
