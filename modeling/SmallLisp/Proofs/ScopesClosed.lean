import SmallLisp.Proofs.Invariant
import SmallLisp.Proofs.ReadValues
import SmallLisp.Proofs.SessionSteps

namespace SmallLisp

/-- All closures in a value hold one of the first `n` scopes. -/
def Value.Within (n : ScopeId) (v : Value) : Prop := v.Fits (fun _ => True) (· < n)

namespace Value

theorem within_mono {m n : ScopeId} (h : m ≤ n) {v : Value} (hv : v.Within m) : v.Within n :=
  hv.mono fun _ _ _ hi => ⟨hi.1, Nat.lt_of_lt_of_le hi.2 h⟩

theorem within_of_isAtom {n : ScopeId} {v : Value} (h : v.IsAtom) : v.Within n := .atom h trivial

end Value

theorem Program.within_of_read {n : ScopeId} {limit : Nat} {text : String} {v : Value}
    (h : Program.read limit text = .ok v) : v.Within n :=
  Program.read_holds
    (fun _ _ hv => Value.within_of_isAtom (Atom.isAtom_of_written (Atom.written_of_read hv)))
    (fun _ _ hvs => .list trivial (List.forall₂_same.mpr hvs)) (Value.within_of_isAtom trivial) h

theorem Program.alike_of_read {link : Value → ScopeId → ScopeId → Prop} {limit : Nat} {text : String}
    {v : Value} (h : Program.read limit text = .ok v) : v.Alike (fun _ => True) link v :=
  (within_of_read (n := 0) h).mono fun _ _ _ hi => absurd hi.2 (Nat.not_lt_zero _)

structure Frame.Closed (n i : ScopeId) (f : Frame) : Prop where
  outer : ∀ o ∈ f.outer, o < i
  within : ∀ p ∈ f.bindings, p.2.Within n

def Store.Closed (s : Store) : Prop :=
  ∀ (i : ScopeId) (f : Frame), s.frames[i]? = some f → f.Closed s.frames.size i

namespace Store

variable {s : Store}

theorem closed_singleton {b : Bindings} (h : ∀ p ∈ b, p.2.Within 1) : Closed ⟨#[⟨b, none⟩]⟩ := by
  intro i f hf
  obtain ⟨hi, rfl⟩ := Array.getElem?_eq_some_iff.mp hf
  obtain rfl : i = 0 := Nat.lt_one_iff.mp hi
  exact ⟨nofun, h⟩

theorem closed_put (h : s.Closed) (scope : ScopeId) (key : Symbol) {value : Value}
    (hv : value.Within s.frames.size) : (s.put scope key value).Closed := by
  intro i f hf
  obtain ⟨g, hg, ho, hb⟩ := of_frame_put s scope hf
  rw [size_put]
  refine ⟨ho ▸ (h i g hg).outer, fun p hp => ?_⟩
  obtain hp | rfl := hb p hp
  · exact (h i g hg).within p hp
  · exact hv

theorem closed_restore (h : s.Closed) (scope : ScopeId) {saved : Bindings}
    (hsaved : ∀ p ∈ saved, p.2.Within s.frames.size) : (s.restore scope saved).Closed := by
  intro i f hf
  obtain ⟨g, hg, ho, hb⟩ := of_frame_restore s scope hf
  rw [size_restore]
  refine ⟨ho ▸ (h i g hg).outer, fun p hp => ?_⟩
  obtain hp | hp := hb p hp
  · exact (h i g hg).within p hp
  · exact hsaved p hp

theorem closed_create (h : s.Closed) {outer : ScopeId} (ho : outer < s.frames.size) :
    (s.create (some outer)).2.Closed := by
  intro i f hf
  rw [size_create]
  rw [frame_create] at hf
  split at hf
  · next hi =>
    obtain rfl := Option.some.inj hf
    exact ⟨fun o h => Option.some.inj h ▸ hi ▸ ho, nofun⟩
  · have hc := h i f hf
    exact ⟨hc.outer, fun p hp => Value.within_mono (Nat.le_succ _) (hc.within p hp)⟩

theorem within_of_closed (h : s.Closed) (scope : ScopeId) :
    ∀ p ∈ s.bindings scope, p.2.Within s.frames.size := by
  intro p hp
  unfold bindings at hp
  split at hp
  · cases hp
  · next f hf => exact (h scope f hf).within p hp

end Store

/-- The scopes of a store stay closed. A world is the number of scopes. -/
def scopesClosed : Invariant where
  World := ScopeId
  Later m n := m ≤ n
  node _ := True
  home n i := i < n
  opens n i := i < n
  machine n m := m.store.frames.size = n ∧ m.store.Closed
  error _ := True
  refl := Nat.le_refl
  trans := Nat.le_trans
  home_mono h hi := Nat.lt_of_lt_of_le hi h
  opens_mono h hi := Nat.lt_of_lt_of_le hi h
  home_of_opens h := h
  node_zero := trivial
  node_nil := trivial
  node_bool _ := trivial
  node_sequence := trivial
  node_length _ := trivial
  node_list _ _ := trivial
  node_apply _ _ _ := trivial
  error_apply _ _ _ := trivial
  error_arity _ _ := trivial
  error_boolean _ _ := trivial
  error_list _ _ := trivial
  error_shape _ _ := trivial
  bound := by
    rintro n m i f k v ⟨rfl, hm⟩ hf hv
    exact (hm i f hf).within (k, v) hv
  put := by
    rintro n m k v s ⟨rfl, hm⟩ _ hv
    exact ⟨Store.size_put _ _ _ _, Store.closed_put hm s k hv⟩
  create := by
    rintro n m s ⟨rfl, hm⟩ hs
    exact ⟨_, Nat.le_succ _, ⟨Store.size_create _ _, Store.closed_create hm hs⟩, Nat.lt_succ_self _⟩
  print h _ := h

namespace Session

structure Closed (s : Session) : Prop where
  root_lt : root < s.store.frames.size
  store : s.store.Closed

/-- The step may refer to the scopes of the session only. -/
def Knows (s : Session) (step : Step) : Prop := ∀ v ∈ step.values, v.Within s.store.frames.size

theorem closed_fresh : fresh.Closed := by
  refine ⟨by rw [frames_fresh]; exact Nat.one_pos, fun i f hf => ?_⟩
  obtain ⟨houter, hb⟩ := frame_fresh hf
  refine ⟨by rw [houter]; exact nofun, fun p hp => ?_⟩
  obtain ⟨op, rfl⟩ := hb p hp
  exact Value.within_of_isAtom trivial

theorem closed_evaluate (limit : Nat) {form : Value} {s : Session} (h : s.Closed)
    (hform : form.Within s.store.frames.size) : (s.evaluate limit form).2.Closed := by
  obtain ⟨n, hn, ⟨hsize, hstore⟩, _⟩ := scopesClosed.eval_ends limit trivial 0 _
    ⟨s.store, #[]⟩ form root ⟨rfl, h.store⟩ hform h.root_lt
  have hlt : root < n := Nat.lt_of_lt_of_le h.root_lt hn
  unfold evaluate
  dsimp only
  split
  · next v m hm =>
    rw [hm] at hsize hstore
    exact ⟨hsize ▸ hlt, hstore⟩
  · next e m hm =>
    rw [hm] at hsize hstore
    refine ⟨by rw [Store.size_restore, hsize]; exact hlt, Store.closed_restore hstore root ?_⟩
    -- The bindings that are put back were made when there were fewer scopes.
    intro p hp
    have hp := Store.within_of_closed h.store root p hp
    exact Value.within_mono (hsize ▸ hn) hp

theorem closed_take (limit : Nat) {step : Step} {s : Session} (h : s.Closed) (hs : s.Knows step) :
    (s.take limit step).2.Closed := by
  cases step with
  | submit text =>
    unfold take submit
    dsimp only
    split
    · next form hform => exact closed_evaluate limit h (Program.within_of_read hform)
    · exact h
  | evaluate form => exact closed_evaluate limit h (hs form (.head _))
  | bind key value =>
    refine ⟨?_, Store.closed_put h.store root key (hs value (.head _))⟩
    change root < (s.store.put root key value).frames.size
    rw [Store.size_put]
    exact h.root_lt

theorem closed_of_reached {s : Session} (h : Reached Knows s) : s.Closed :=
  holds_of_reached closed_fresh (fun _ limit _ hs hk => closed_take limit hs hk) h

end Session

end SmallLisp
