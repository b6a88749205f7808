import SmallLisp.Proofs.FormShape
import SmallLisp.Proofs.ScopesClosed
import SmallLisp.Proofs.Subvalue

namespace SmallLisp

namespace Value

/-- The name occurs in the form. Where the name of a special form is the head of a list, it
does not count. Closures are not looked into. -/
inductive Uses (key : Symbol) : Value → Prop
  | sym : Uses key (.sym key)
  | head {v : Value} {rest : List Value} (hs : v = .sym key → SpecialForm.ofHead? v = none)
      (h : Uses key v) : Uses key (.list (v :: rest))
  | tail {v w : Value} {rest : List Value} (hw : w ∈ rest) (h : Uses key w) :
      Uses key (.list (v :: rest))

variable {key : Symbol} {head : Value} {tail : List Value}

theorem not_uses_tail {items : List Value} (h : ¬ (list items).Uses key) :
    ∀ v ∈ items.tail, ¬ v.Uses key := by
  cases items with
  | nil => exact nofun
  | cons head tail => exact fun v hv hu => h (.tail hv hu)

theorem not_uses_items (h : ¬ (list (head :: tail)).Uses key)
    (hs : SpecialForm.ofHead? head = none) : ∀ v ∈ head :: tail, ¬ v.Uses key :=
  List.forall_mem_cons.mpr ⟨fun hu => h (.head (fun _ => hs) hu), not_uses_tail h⟩

theorem not_uses_special {k : Symbol} (hs : SpecialForm.ofHead? (.sym k) ≠ none)
    (h : ∀ v ∈ tail, ¬ v.Uses key) : ¬ (list (.sym k :: tail)).Uses key := by
  intro hu
  cases hu with
  | head hn hk =>
    cases hk with
    | sym => exact hs (hn rfl)
  | tail hv hu => exact h _ hv hu

end Value

theorem Form.not_uses_parts {key : Symbol} {head : Value} {tail : List Value}
    {special : SpecialForm} {f : Form} (h : ¬ (Value.list (head :: tail)).Uses key)
    (hf : Form.ofTail special tail = .ok f) :
    (∀ v ∈ f.parts, ¬ v.Uses key) ∧ (∀ v ∈ f.innerParts, ¬ v.Uses key) ∧ key ∉ f.binds := by
  have htail := Value.not_uses_tail h
  obtain ⟨hparts, hinner, hbinds⟩ := forall_parts (P := fun v => ¬ v.Uses key)
    (fun _ => Value.not_uses_tail) (fun _ => Value.not_uses_special (by decide)) hf htail
  refine ⟨hparts, hinner, fun hkey => ?_⟩
  by_cases hd : special = .define
  · subst hd
    obtain ⟨name, value, rfl, rfl⟩ := defineOf_ok hf
    obtain rfl := List.mem_singleton.mp hkey
    exact htail _ (.head _) .sym
  · rw [hbinds hd] at hkey
    cases hkey

namespace Bindings

variable {key k : Symbol}

def without (key : Symbol) (b : Bindings) : Bindings := b.filter (·.1 ≠ key)

theorem value?_without (hk : k ≠ key) (b : Bindings) : (b.without key).value? k = b.value? k := by
  induction b with
  | nil => rfl
  | cons entry rest ih =>
    obtain ⟨l, v⟩ := entry
    by_cases hl : l = key
    · have hlk : l ≠ k := fun h => hk (h ▸ hl)
      simpa [without, hl, value?, hlk, Ne.symm hk] using ih
    · by_cases hlk : l = k
      · simp [without, value?, hlk, hk]
      · simpa [without, hl, value?, hlk] using ih

theorem without_put_self (b : Bindings) (v : Value) : (b.put key v).without key = b.without key := by
  induction b with
  | nil => simp [put, without]
  | cons entry rest ih =>
    obtain ⟨l, w⟩ := entry
    by_cases hl : l = key
    · simp [put, without, hl]
    · simpa [put, without, hl] using ih

theorem without_put (hk : k ≠ key) (b : Bindings) (v : Value) :
    (b.put k v).without key = (b.without key).put k v := by
  induction b with
  | nil => simp [put, without, hk]
  | cons entry rest ih =>
    obtain ⟨l, w⟩ := entry
    by_cases hl : l = key
    · have hlk : l ≠ k := fun h => hk (h ▸ hl)
      simpa [put, without, hl, hlk, Ne.symm hk] using ih
    · by_cases hlk : l = k
      · simp [put, without, hlk, hk]
      · simpa [put, without, hl, hlk] using ih

end Bindings

/-- The same frames, except that the bindings of the root may differ in one name: in its
value, in its place, and in whether it is bound at all. -/
structure Store.SameBut (root : ScopeId) (key : Symbol) (s t : Store) : Prop where
  size : s.frames.size = t.frames.size
  other : ∀ i : ScopeId, i ≠ root → s.frames[i]? = t.frames[i]?
  root : ∃ f g : Frame, s.frames[root]? = some f ∧ t.frames[root]? = some g ∧ f.outer = g.outer ∧
    f.bindings.without key = g.bindings.without key

namespace Store

variable {root i : ScopeId} {key k : Symbol} {s t : Store}

theorem lt_of_sameBut (h : s.SameBut root key t) : root < s.frames.size := by
  obtain ⟨f, _, hf, _⟩ := h.root
  exact (Array.getElem?_eq_some_iff.mp hf).1

theorem find?_sameBut (h : s.SameBut root key t) (hk : k ≠ key) (scope : ScopeId) :
    s.find? k scope = t.find? k scope := by
  induction scope using Nat.strongRecOn with
  | ind scope ih =>
    rw [find?, find?]
    by_cases hs : scope = root
    · subst scope
      obtain ⟨f, g, hf, hg, houter, hb⟩ := h.root
      have hvalue : f.bindings.value? k = g.bindings.value? k := by
        rw [← Bindings.value?_without hk, hb, Bindings.value?_without hk]
      simp only [hf, hg, houter, hvalue]
      split
      · rfl
      · split
        · rfl
        · split
          · exact ih _ ‹_›
          · rfl
    · rw [h.other scope hs]
      split
      · rfl
      · split
        · rfl
        · split
          · rfl
          · split
            · exact ih _ ‹_›
            · rfl

theorem sameBut_put (h : s.SameBut root key t) (hk : i = root → k ≠ key) (v : Value) :
    (s.put i k v).SameBut root key (t.put i k v) := by
  refine ⟨by rw [size_put, size_put, h.size], fun j hj => ?_, ?_⟩
  · rw [frame_put, frame_put, h.other j hj]
  · obtain ⟨f, g, hf, hg, houter, hb⟩ := h.root
    rw [frame_put, frame_put, hf, hg]
    split
    · next hi =>
      refine ⟨f.put k v, g.put k v, rfl, rfl, houter, ?_⟩
      simp only [Frame.put, Bindings.without_put (hk hi), hb]
    · exact ⟨f, g, rfl, rfl, houter, hb⟩

theorem sameBut_create (h : s.SameBut root key t) (outer : Option ScopeId) :
    (s.create outer).2.SameBut root key (t.create outer).2 := by
  refine ⟨by rw [size_create, size_create, h.size], fun j hj => ?_, ?_⟩
  · rw [frame_create, frame_create, h.size, h.other j hj]
  · have hroot : root ≠ s.frames.size := Nat.ne_of_lt (lt_of_sameBut h)
    rw [frame_create, frame_create, ← h.size, if_neg hroot, if_neg hroot]
    exact h.root

theorem sameBut_restore (h : s.SameBut root key t) {b c : Bindings}
    (hb : b.without key = c.without key) :
    (s.restore root b).SameBut root key (t.restore root c) := by
  refine ⟨by rw [size_restore, size_restore, h.size], fun j hj => ?_, ?_⟩
  · rw [frame_restore, frame_restore, if_neg (Ne.symm hj), if_neg (Ne.symm hj), h.other j hj]
  · obtain ⟨f, g, hf, hg, houter, _⟩ := h.root
    rw [frame_restore, frame_restore, if_pos rfl, if_pos rfl, hf, hg]
    exact ⟨⟨b, f.outer⟩, ⟨c, g.outer⟩, rfl, rfl, houter, hb⟩

theorem without_bindings_of_sameBut (h : s.SameBut root key t) :
    (s.bindings root).without key = (t.bindings root).without key := by
  obtain ⟨f, g, hf, hg, _, hb⟩ := h.root
  simpa only [bindings, hf, hg] using hb

end Store

/-- The bodies of closures in the value, which hold the same scopes, do not use the name. -/
abbrev Value.Spares (key : Symbol) : Value → Value → Prop :=
  Value.Alike (fun _ => True) fun body i j => i = j ∧ ¬ body.Uses key

/-- No closure has a body that uses the name. What the root binds to the name itself does
not count. -/
def Store.Spares (root : ScopeId) (key : Symbol) (s : Store) : Prop :=
  s.Binds fun i p => (i = root → p.1 ≠ key) → p.2.Spares key p.2

namespace Store

variable {root i : ScopeId} {key k : Symbol} {s : Store}

theorem eq_of_spares {v w : Value} (h : v.Spares key w) : v = w :=
  h.eq_of_link fun _ _ _ hl => hl.1

theorem spares_of_find? (h : s.Spares root key) (hk : k ≠ key) {scope : ScopeId} {v : Value}
    (hv : s.find? k scope = some v) : v.Spares key v := by
  obtain ⟨_, hspares⟩ := of_find? h hv
  exact hspares fun _ => hk

end Store

/-- Evaluations of forms that do not use a name stay in step, whatever the root binds to the
name. New scopes may bind it as well. -/
def nameUnused (root : ScopeId) (key : Symbol) : Lockstep where
  World := Unit
  Later _ _ := True
  node _ := True
  holds _ v i j := i = j ∧ ¬ v.Uses key
  reads _ v i j := i = j ∧ ¬ v.Uses key
  writes _ k i j := i = j ∧ (i = root → k ≠ key)
  machine _ m n := m.store.SameBut root key n.store ∧ m.store.Spares root key ∧ m.shown = n.shown
  error := (· = ·)
  refl _ := trivial
  trans _ _ := trivial
  holds_mono _ h := h
  reads_mono _ h := h
  writes_mono _ h := h
  node_zero := trivial
  node_nil := trivial
  node_bool _ := trivial
  node_sequence := trivial
  node_length _ := trivial
  node_list _ _ := trivial
  node_apply _ _ _ := trivial
  error_apply _ _ _ := rfl
  error_arity _ _ := rfl
  error_boolean _ _ := rfl
  error_list _ _ := rfl
  error_shape h := congrArg _ (h.eq fun _ _ => Store.eq_of_spares)
  reads_call h hs w hw := ⟨h.1, Value.not_uses_items h.2 hs w hw⟩
  reads_form h _ hf := by
    obtain ⟨hparts, hinner, hbinds⟩ := Form.not_uses_parts h.2 hf
    exact ⟨fun w hw => ⟨h.1, hparts w hw⟩, fun w hw => ⟨h.1, hinner w hw⟩,
      fun k hk => ⟨h.1, fun _ he => hbinds (he ▸ hk)⟩⟩
  find := by
    rintro _ m n k s _ ⟨hsame, hspares, _⟩ ⟨rfl, hk⟩
    have hne : k ≠ key := fun he => hk (he ▸ .sym)
    rw [← Store.find?_sameBut hsame hne]
    cases hv : m.store.find? k s with
    | none => exact .none
    | some v => exact .some (Store.spares_of_find? hspares hne hv)
  put := by
    rintro _ m n k v w s _ ⟨hsame, hspares, hp⟩ ⟨rfl, hk⟩ hv
    obtain rfl := Store.eq_of_spares hv
    exact ⟨Store.sameBut_put hsame hk v, Store.binds_put hspares s fun _ _ => hv, hp⟩
  create := by
    rintro _ m n v s _ ⟨hsame, hspares, hp⟩ ⟨rfl, _⟩
    have hroot : m.store.frames.size ≠ root := Nat.ne_of_gt (Store.lt_of_sameBut hsame)
    refine ⟨(), trivial, ⟨Store.sameBut_create hsame _, Store.binds_create hspares _, hp⟩, ?_, ?_⟩
    · exact fun w hw => ⟨hsame.size, hw.2⟩
    · exact fun k => ⟨hsame.size, fun he => absurd he hroot⟩
  print := by
    rintro _ m n v w ⟨hsame, hspares, hp⟩ hv
    obtain rfl := Store.eq_of_spares hv
    exact ⟨hsame, hspares, congrArg (·.push v) hp⟩

namespace Session

abbrev SameBut (key : Symbol) (s t : Session) : Prop := s.store.SameBut root key t.store

/-- No closure that is stored in the session has a body that uses the name. What the root
binds to the name itself does not count. -/
def Spares (key : Symbol) (s : Session) : Prop :=
  ∀ (i : ScopeId) (f : Frame), s.store.frames[i]? = some f → ∀ p ∈ f.bindings,
    (i = root → p.1 ≠ key) → ∀ params body scope,
      (Value.closure params body scope).Occurs p.2 → ¬ body.Uses key

variable {key : Symbol} {s t : Session}

theorem store_spares (h : s.Spares key) : s.store.Spares root key :=
  fun i f hf p hp hne => Value.alike_of_occurs fun params body scope ho =>
    ⟨rfl, h i f hf p hp hne params body scope ho⟩

theorem sameBut_bind (h : root < s.store.frames.size) (v : Value) : s.SameBut key (s.bind key v) := by
  have hbind : (s.bind key v).store = s.store.put root key v := rfl
  have hf : s.store.frames[root]? = some s.store.frames[root] := Array.getElem?_eq_getElem h
  rw [SameBut, hbind]
  refine ⟨(Store.size_put _ _ _ _).symm, fun i hi => ?_, ?_⟩
  · rw [Store.frame_put, if_neg (Ne.symm hi)]
  · refine ⟨_, s.store.frames[root].put key v, hf, ?_, rfl, (Bindings.without_put_self _ v).symm⟩
    rw [Store.frame_put, if_pos rfl, hf]
    rfl

theorem evaluate_sameBut (h : s.SameBut key t) (hs : s.store.Spares root key) (limit : Nat)
    {form : Value} (hform : form.Spares key form) (hu : ¬ form.Uses key) :
    (s.evaluate limit form).1 = (t.evaluate limit form).1 ∧
      (s.evaluate limit form).2.SameBut key (t.evaluate limit form).2 := by
  have hruns : (nameUnused root key).Runs () (nameUnused root key).Alike (eval limit 0 form root)
      (eval limit 0 form root) :=
    (nameUnused root key).evalLevels_evaluates limit limit rfl _ () form form root root hform ⟨rfl, hu⟩
  obtain ⟨_, _, ⟨hsame, _, hp⟩, hr⟩ := hruns ⟨s.store, #[]⟩ ⟨t.store, #[]⟩ ⟨h, hs, rfl⟩
  have hsaved : s.bindings.without key = t.bindings.without key := Store.without_bindings_of_sameBut h
  rcases hx : (eval limit 0 form root).run ⟨s.store, #[]⟩ with ⟨x, m⟩
  rcases hy : (eval limit 0 form root).run ⟨t.store, #[]⟩ with ⟨y, n⟩
  rw [hx, hy] at hsame hp hr
  cases hr with
  | ok hv =>
    obtain rfl := Store.eq_of_spares hv
    rw [evaluate_of_ok hx, evaluate_of_ok hy]
    exact ⟨congrArg (Reply.mk _) hp, hsame⟩
  | error he =>
    subst he
    rw [evaluate_of_error hx, evaluate_of_error hy]
    exact ⟨congrArg (Reply.mk _) hp, Store.sameBut_restore hsame hsaved⟩

theorem submit_sameBut (h : s.SameBut key t) (hs : s.store.Spares root key) {limit : Nat}
    {text : String} (ht : ∀ form, Program.read limit text = .ok form → ¬ form.Uses key) :
    (s.submit limit text).1 = (t.submit limit text).1 ∧
      (s.submit limit text).2.SameBut key (t.submit limit text).2 := by
  cases hread : Program.read limit text with
  | ok form =>
    rw [submit_of_read hread, submit_of_read hread]
    exact evaluate_sameBut h hs limit (Program.alike_of_read hread) (ht form hread)
  | error e =>
    rw [submit_of_unread hread, submit_of_unread hread]
    exact ⟨rfl, h⟩

/-- A name that no form of a text uses, and no closure of the session, has no influence on
what the text does: whether the root binds it or not, to whatever value, and in whatever
place. The name of a special form is not used where it is the head of a list. -/
theorem unused_name_changes_nothing (h : s.SameBut key t) (hs : s.Spares key) {limit : Nat}
    {text : String} (ht : ∀ form, Program.read limit text = .ok form → ¬ form.Uses key) :
    (s.submit limit text).1 = (t.submit limit text).1 ∧
      (s.submit limit text).2.SameBut key (t.submit limit text).2 ∧
      ∀ v, (s.submit limit text).1 = ((s.bind key v).submit limit text).1 ∧
        (s.submit limit text).2.SameBut key ((s.bind key v).submit limit text).2 := by
  have hstore := store_spares hs
  refine ⟨(submit_sameBut h hstore ht).1, (submit_sameBut h hstore ht).2, fun v => ?_⟩
  exact submit_sameBut (sameBut_bind (Store.lt_of_sameBut h) v) hstore ht

theorem if_bound_to_a_number_is_still_a_form :
    let key : Symbol := ⟨"if", by decide⟩
    fresh.SameBut key (fresh.bind key (.int 5)) ∧ fresh.Spares key ∧
      (fresh.submit 9 "(if true 1 2)").1 =
        ((fresh.bind key (.int 5)).submit 9 "(if true 1 2)").1 := by
  intro key
  have hroot : root < fresh.store.frames.size := by
    rw [frames_fresh]
    exact Nat.one_pos
  have hsame : fresh.SameBut key (fresh.bind key (.int 5)) := sameBut_bind hroot (.int 5)
  have hspares : fresh.Spares key := by
    intro i f hf p hp _ params body scope ho
    obtain ⟨op, rfl⟩ := (frame_fresh hf).2 p hp
    cases ho
  have htokens : Token.tokenize "(if true 1 2)" = ["(", "if", "true", "1", "2", ")"] := by
    decide +kernel
  have htext : ∀ form, Program.read 9 "(if true 1 2)" = .ok form → ¬ form.Uses key := by
    intro form hread
    have hform : Program.read 9 "(if true 1 2)" = .ok (Program.sequence
        [.list [.sym key, .bool true, .int 1, .int 2]]) := by
      rw [Program.read, htokens]
      with_unfolding_all rfl
    obtain rfl := Except.ok.inj (hform.symm.trans hread)
    refine Value.not_uses_special (by decide) (List.forall_mem_singleton.mpr ?_)
    refine Value.not_uses_special (by decide) ?_
    simp only [List.forall_mem_cons]
    exact ⟨nofun, nofun, nofun, List.forall_mem_nil _⟩
  exact ⟨hsame, hspares, (unused_name_changes_nothing hsame hspares htext).1⟩

end Session

end SmallLisp
