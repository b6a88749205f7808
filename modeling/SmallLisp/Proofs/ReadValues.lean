import SmallLisp.Program
import SmallLisp.Proofs.Alike
import SmallLisp.Proofs.Outcome

namespace SmallLisp

namespace Atom

inductive Written : Value → Prop
  | int (n : Int) (hl : Number.intMin ≤ n) (hu : n ≤ Number.intMax) : Written (.int n)
  | bool (b : Bool) : Written (.bool b)
  | nil : Written .nil
  | str (text : String) : Written (.str text)
  | sym (name : Symbol) : Written (.sym name)

theorem isAtom_of_written {v : Value} (h : Written v) : v.IsAtom := by
  cases h <;> trivial

theorem written_of_literal {token : String} {v : Value} (h : literal? token = some v) :
    Written v := by
  unfold literal? at h
  split at h
  · exact Option.some.inj h ▸ .bool true
  · split at h
    · exact Option.some.inj h ▸ .bool false
    · split at h
      · exact Option.some.inj h ▸ .nil
      · cases h

theorem written_of_read {token : String} {v : Value} (h : read token = .ok v) : Written v := by
  replace h := (read_eq_ok_iff.mp h).2
  unfold resolve at h
  split at h
  · next n hn =>
    have hrange := of_decide_eq_true (Option.filter_eq_some_iff.mp hn).2
    exact Except.ok.inj h ▸ .int n hrange.1 hrange.2
  · split at h
    · next w hw => exact Except.ok.inj h ▸ written_of_literal hw
    · split at h
      · exact Except.ok.inj h ▸ .str _
      · split at h
        · exact Except.ok.inj h ▸ .sym _
        · cases h

end Atom

namespace Cursor

variable {P : Value → Prop} {n : Nat}

def Items (P : Value → Prop) (n left : Nat) (items : List Value) : Prop :=
  items.length + left ≤ n ∧ ∀ v ∈ items, P v

theorem items_nil {left : Nat} (h : left ≤ n) : Items P n left [] :=
  ⟨by simpa using h, nofun⟩

theorem items_cons {left : Nat} {items : List Value} (h : Items P n (left + 1) items) {v : Value}
    (hv : P v) : Items P n left (v :: items) := by
  refine ⟨?_, List.forall_mem_cons.mpr ⟨hv, h.2⟩⟩
  have hle := h.1
  rw [List.length_cons]
  omega

theorem items_later {left : Nat} {items : List Value} (h : Items P n (left + 1) items) :
    Items P n left items :=
  ⟨by have hle := h.1; omega, h.2⟩

/-- Whatever holds of atoms, and of the lists of at most `n` items of which it holds,
holds of all that is read from `n` tokens. -/
theorem readItems_holds (limit : Nat) (hatom : ∀ token v, Atom.read token = .ok v → P v)
    (hlist : ∀ vs, vs.length ≤ n → (∀ v ∈ vs, P v) → P (.list vs)) (rest : List String)
    (position depth : Nat) (items : List Value) (outer : List (List Value))
    (hi : Items P n rest.length items) (ho : ∀ vs ∈ outer, Items P n rest.length vs) {v : Value}
    (h : (readItems limit rest position depth items outer).1 = .ok v) : P v := by
  -- Lists close in two places, at the end of the outermost and of those inside it.
  have hclose : ∀ vs left, Items P n left vs → P (.list vs.reverse) := by
    intro vs left hvs
    have hle := hvs.1
    exact hlist _ (by rw [List.length_reverse]; omega) fun v hv => hvs.2 v (List.mem_reverse.mp hv)
  fun_induction readItems limit rest position depth items outer with
  | case1 => cases h
  | case2 => cases h
  | case3 rest position depth items outer _ ih =>
    have hle : rest.length ≤ n := by
      have hle := hi.1
      rw [List.length_cons] at hle
      omega
    refine ih (items_nil hle) (List.forall_mem_cons.mpr ⟨items_later hi, ?_⟩) h
    exact fun vs hvs => items_later (ho vs hvs)
  | case4 rest position depth items _ =>
    exact Except.ok.inj h ▸ hclose items _ hi
  | case5 rest position depth items _ above outer ih =>
    obtain ⟨habove, houter⟩ := List.forall_mem_cons.mp ho
    exact ih (items_cons habove (hclose items _ hi)) (fun vs hvs => items_later (houter vs hvs)) h
  | case6 token rest position depth items outer _ _ w hw ih =>
    refine ih (items_cons hi (hatom token w hw)) ?_ h
    exact fun vs hvs => items_later (ho vs hvs)
  | case7 => cases h

theorem readForm_holds (limit : Nat) (hatom : ∀ token v, Atom.read token = .ok v → P v)
    (hlist : ∀ vs, vs.length ≤ n → (∀ v ∈ vs, P v) → P (.list vs)) {c : Cursor}
    (hc : c.rest.length ≤ n) {v : Value} (h : (c.readForm limit).1 = .ok v) : P v := by
  obtain ⟨_ | ⟨token, rest⟩, position, depth⟩ := c
  · cases h
  · have hle : rest.length ≤ n := by
      rw [List.length_cons] at hc
      omega
    simp only [readForm] at h
    split at h
    · simp only [readList] at h
      split at h
      · cases h
      · exact readItems_holds limit hatom hlist rest _ _ [] [] (items_nil hle)
          (List.forall_mem_nil _) h
    · split at h
      · cases h
      · exact hatom token v h

theorem readRest_holds (limit : Nat) (hatom : ∀ token v, Atom.read token = .ok v → P v)
    (hlist : ∀ vs, vs.length ≤ n → (∀ v ∈ vs, P v) → P (.list vs)) (done : List Value) (c : Cursor)
    (hdone : Items P n c.rest.length done) {vs : List Value}
    (h : (readRest limit done c).1 = .ok vs) : vs.length ≤ n ∧ ∀ v ∈ vs, P v := by
  fun_induction readRest limit done c with
  | case1 done c _ =>
    obtain rfl := Except.ok.inj h
    have hle := hdone.1
    rw [List.length_reverse]
    exact ⟨by omega, fun v hv => hdone.2 v (List.mem_reverse.mp hv)⟩
  | case2 done c _ v d hd ih =>
    have hlt := readForm_rest_length_lt limit c d v hd
    have hle := hdone.1
    have hr : (c.readForm limit).1 = .ok v := by rw [hd]
    have hv : P v := readForm_holds limit hatom hlist (by omega) hr
    refine ih ⟨?_, List.forall_mem_cons.mpr ⟨hv, hdone.2⟩⟩ h
    rw [List.length_cons]
    omega
  | case3 => cases h

end Cursor

theorem Program.read_holds {P : Value → Prop} {limit : Nat} {text : String}
    (hatom : ∀ token v, Atom.read token = .ok v → P v)
    (hlist : ∀ vs, vs.length ≤ (Token.tokenize text).length + 1 → (∀ v ∈ vs, P v) → P (.list vs))
    (hsequence : P (.sym SpecialForm.sequenceSymbol)) {v : Value}
    (h : Program.read limit text = .ok v) : P v := by
  unfold Program.read Program.ofTokens at h
  obtain ⟨vs, hvs, rfl⟩ := map_eq_ok.mp h
  have hall := Cursor.readRest_holds (n := (Token.tokenize text).length) limit hatom
    (fun ws hws => hlist ws (by omega)) [] _ (Cursor.items_nil (Nat.le_refl _)) hvs
  refine hlist _ ?_ (List.forall_mem_cons.mpr ⟨hsequence, hall.2⟩)
  rw [List.length_cons]
  exact Nat.succ_le_succ hall.1

end SmallLisp
