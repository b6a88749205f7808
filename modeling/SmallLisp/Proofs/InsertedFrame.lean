import SmallLisp.Proofs.FrameEffect
import SmallLisp.Proofs.HiddenNames
import SmallLisp.Proofs.ScopeShift
import SmallLisp.Proofs.ScopesClosed

namespace SmallLisp

theorem Store.find?_of_keeps {s t : Store} (hs : s.Closed) (h : s.Keeps t) (key : Symbol)
    {scope : ScopeId} (hscope : scope < s.frames.size) : t.find? key scope = s.find? key scope := by
  induction scope using Nat.strongRecOn with
  | ind scope ih =>
    have hf : s.frames[scope]? = some s.frames[scope] := Array.getElem?_eq_getElem hscope
    rw [find?, find?, h scope hscope, hf]
    dsimp only
    split
    · rfl
    · split
      · rfl
      · next outer ho =>
        have hlt : outer < scope := (hs scope _ hf).outer outer ho
        rw [if_pos hlt, if_pos hlt]
        exact ih outer hlt (Nat.lt_trans hlt hscope)

/-- A frame that is put in between a scope and what is evaluated in it. All names that it
binds are hidden. -/
structure Insertion where
  base : Store
  home : ScopeId
  hidden : Symbol → Prop
  locals : Bindings
  closed : base.Closed
  home_lt : home < base.frames.size
  hidden_locals : ∀ key, ¬ hidden key → locals.value? key = none
  hidden_define : hidden SpecialForm.defineSymbol
  /-- Bodies that a closure which holds a scope inside the frame may have. -/
  held : Value → Prop := fun body => body.Avoids hidden
  avoids_of_held : ∀ {body}, held body → body.Avoids hidden := by exact fun h => h
  held_of_lambda : ∀ {head tail special params body}, (Value.list (head :: tail)).Avoids hidden →
    SpecialForm.ofHead? head = some special → Form.ofTail special tail = .ok (.lambda params body) →
    body.Avoids hidden → held body := by exact fun _ _ _ h => h

namespace Insertion

variable (I : Insertion)

def place : Nat := I.base.frames.size

/-- Whether a scope lies inside the frame that is put in. The flags are those of the
scopes made since. -/
def inside? (W : List Bool) (i : Nat) : Option Bool :=
  if i < I.place then some false else W[i - I.place]?

/-- Two scopes of which the second is the first, moved up by one, or the frame that is put
in. Where that frame is seen, the condition `clean` holds. -/
def Meets (W : List Bool) (clean : Prop) (i j : Nat) : Prop :=
  (i = I.home ∧ j = I.place ∧ clean) ∨
    (j = shift I.place 1 i ∧ ∃ b, I.inside? W i = some b ∧ (b = true → clean))

abbrev Alike (W : List Bool) : Value → Value → Prop :=
  Value.Alike (fun _ => True) fun v i j => I.Meets W (I.held v) i j

structure FrameMeets (W : List Bool) (i : Nat) (f f' : Frame) : Prop where
  outer : ∃ o o' : Nat, f.outer = some o ∧ f'.outer = some o' ∧ o < i ∧ o' < i + 1 ∧
    I.Meets W (I.inside? W i = some true) o o'
  bindings : f.bindings.Alike (I.Alike W) f'.bindings

/-- The stores of two runs of which the second has the frame put in. Neither has changed
the frames that were there before. -/
structure Related (W : List Bool) (s t : Store) : Prop where
  size : s.frames.size = I.place + W.length
  size' : t.frames.size = I.place + W.length + 1
  kept : I.base.Keeps s
  kept' : I.base.Keeps t
  inserted : t.frames[I.place]? = some ⟨I.locals, some I.home⟩
  frame : ∀ (i : Nat) (f : Frame), I.place ≤ i → s.frames[i]? = some f →
    ∃ f', t.frames[i + 1]? = some f' ∧ I.FrameMeets W i f f'

variable {I} {W X : List Bool} {i j : Nat} {clean clean' : Prop} {s t : Store}

theorem meets_mono (h : I.Meets W clean i j) (hc : clean → clean') : I.Meets W clean' i j := by
  obtain ⟨hi, hj, h⟩ | ⟨hj, b, hb, h⟩ := h
  · exact .inl ⟨hi, hj, hc h⟩
  · exact .inr ⟨hj, b, hb, fun ht => hc (h ht)⟩

theorem inside?_later (hX : W <+: X) {b : Bool} (h : I.inside? W i = some b) :
    I.inside? X i = some b := by
  obtain ⟨more, rfl⟩ := hX
  unfold inside? at h ⊢
  split
  · rwa [if_pos ‹_›] at h
  · rw [if_neg ‹_›] at h
    rwa [List.getElem?_append_left (List.getElem?_eq_some_iff.mp h).1]

theorem meets_later (hX : W <+: X) (h : I.Meets W clean i j) : I.Meets X clean i j := by
  obtain h | ⟨hj, b, hb, h⟩ := h
  · exact .inl h
  · exact .inr ⟨hj, b, inside?_later hX hb, h⟩

theorem frameMeets_later (hX : W <+: X) {f f' : Frame} (h : I.FrameMeets W i f f') :
    I.FrameMeets X i f f' := by
  obtain ⟨⟨o, o', ho, ho', hlt, hlt', hm⟩, hb⟩ := h
  refine ⟨⟨o, o', ho, ho', hlt, hlt', meets_mono (meets_later hX hm) (inside?_later hX)⟩, ?_⟩
  exact hb.imp fun p q hpq => ⟨hpq.1, hpq.2.mono fun _ _ _ => meets_later hX⟩

theorem lt_of_meets (h : I.Meets W clean i j) : i < I.place + W.length := by
  obtain ⟨rfl, _, _⟩ | ⟨_, b, hb, _⟩ := h
  · exact Nat.lt_of_lt_of_le I.home_lt (Nat.le_add_right _ _)
  · unfold inside? at hb
    split at hb
    · next hi => exact Nat.lt_of_lt_of_le hi (Nat.le_add_right _ _)
    · exact (Nat.sub_lt_iff_lt_add' (Nat.not_lt.mp ‹_›)).mp (List.getElem?_eq_some_iff.mp hb).1

theorem meets_of_lt (h : i < I.place) : I.Meets W clean i i :=
  .inr ⟨(shift_of_lt h).symm, false, if_pos h, nofun⟩

theorem alike_of_within {v : Value} (h : v.Within I.place) : I.Alike W v v := by
  refine h.mono ?_
  rintro b i _ ⟨rfl, hi⟩
  exact meets_of_lt hi

theorem find?_before (h : I.Related W s t) (key : Symbol) (hi : i < I.place) :
    Option.Rel (I.Alike W) (s.find? key i) (t.find? key i) := by
  rw [Store.find?_of_keeps I.closed h.kept key hi, Store.find?_of_keeps I.closed h.kept' key hi]
  cases hv : I.base.find? key i with
  | none => exact .none
  | some v =>
    obtain ⟨k, f, hf, hmem⟩ := Store.exists_of_find? _ _ hv
    exact .some (alike_of_within ((I.closed k f hf).within _ hmem))

theorem find?_related (h : I.Related W s t) {key : Symbol} (hm : I.Meets W (¬ I.hidden key) i j) :
    Option.Rel (I.Alike W) (s.find? key i) (t.find? key j) := by
  induction i using Nat.strongRecOn generalizing j with
  | ind i ih =>
    have hlt := lt_of_meets hm
    obtain ⟨rfl, rfl, hkey⟩ | ⟨rfl, b, hb, hclean⟩ := hm
    · have houter : t.find? key I.place = t.find? key I.home := by
        rw [Store.find?, h.inserted]
        simp only [I.hidden_locals key hkey]
        exact if_pos I.home_lt
      rw [houter]
      exact find?_before h key I.home_lt
    · by_cases hi : i < I.place
      · rw [shift_of_lt hi]
        exact find?_before h key hi
      · have hle : I.place ≤ i := Nat.not_lt.mp hi
        obtain ⟨f, hf⟩ : ∃ f, s.frames[i]? = some f :=
          ⟨_, Array.getElem?_eq_getElem (h.size ▸ hlt)⟩
        obtain ⟨f', hf', ⟨o, o', ho, ho', hlt, hlt', hmeets⟩, hbindings⟩ := h.frame i _ hle hf
        have hrel := Bindings.value?_alike hbindings key
        rw [shift_of_le hle, Store.find?, Store.find?, hf, hf']
        dsimp only
        rw [ho, ho']
        dsimp only
        rw [if_pos hlt, if_pos hlt']
        generalize Bindings.value? key _ = x at hrel
        generalize Bindings.value? key _ = y at hrel
        cases hrel with
        | some hv => exact .some hv
        | none =>
          refine ih o hlt (meets_mono hmeets fun hinside => hclean ?_)
          exact Option.some.inj (hb.symm.trans hinside)

theorem place_le_size (h : I.Related W s t) : I.place ≤ s.frames.size :=
  h.size ▸ Nat.le_add_right _ _

theorem size_eq_succ (h : I.Related W s t) : t.frames.size = s.frames.size + 1 := by
  rw [h.size', h.size]

theorem inside?_size (h : I.Related W s t) (b : Bool) :
    I.inside? (W ++ [b]) s.frames.size = some b := by
  rw [inside?, if_neg (Nat.not_lt.mpr (place_le_size h)), h.size, Nat.add_sub_cancel_left]
  exact List.getElem?_concat_length

theorem related_put (h : I.Related W s t) (hi : I.place ≤ i) (key : Symbol) {v w : Value}
    (hv : I.Alike W v w) : I.Related W (s.put i key v) (t.put (i + 1) key w) := by
  refine ⟨by rw [Store.size_put]; exact h.size, by rw [Store.size_put]; exact h.size', ?_, ?_, ?_, ?_⟩
  · intro k hk
    have hne : i ≠ k := Nat.ne_of_gt (Nat.lt_of_lt_of_le hk hi)
    rw [Store.frame_put, if_neg hne, h.kept k hk]
  · intro k hk
    have hne : i + 1 ≠ k := Nat.ne_of_gt (Nat.lt_succ_of_lt (Nat.lt_of_lt_of_le hk hi))
    rw [Store.frame_put, if_neg hne, h.kept' k hk]
  · rw [Store.frame_put, if_neg (Nat.ne_of_gt (Nat.lt_succ_of_le hi)), h.inserted]
  · intro k f hk hf
    rw [Store.frame_put] at hf ⊢
    by_cases hik : i = k
    · subst k
      rw [if_pos rfl] at hf ⊢
      obtain ⟨f₀, hf₀, rfl⟩ := Option.map_eq_some_iff.mp hf
      obtain ⟨f', hf', houter, hb⟩ := h.frame i f₀ hk hf₀
      exact ⟨f'.put key w, by rw [hf']; rfl, houter, Bindings.put_alike hb key hv⟩
    · rw [if_neg hik] at hf
      rw [if_neg fun he => hik (Nat.succ.inj he)]
      exact h.frame k f hk hf

theorem related_create (h : I.Related W s t) {b : Bool} (hm : I.Meets W (b = true) i j) :
    I.Related (W ++ [b]) (s.create (some i)).2 (t.create (some j)).2 := by
  have hlt : i < s.frames.size := h.size ▸ lt_of_meets hm
  have hsize := size_eq_succ h
  have hle := place_le_size h
  have hplace : I.place < t.frames.size := hsize ▸ Nat.lt_succ_of_le hle
  have hnew := inside?_size h b
  have hmore : W <+: W ++ [b] := List.prefix_append _ _
  refine ⟨?_, ?_, ?_, ?_, ?_, ?_⟩
  · rw [Store.size_create, h.size, List.length_append]
    rfl
  · rw [Store.size_create, h.size', List.length_append]
    rfl
  · intro k hk
    rw [Store.frame_create, if_neg (Nat.ne_of_lt (Nat.lt_of_lt_of_le hk hle)), h.kept k hk]
  · intro k hk
    rw [Store.frame_create, if_neg (Nat.ne_of_lt (Nat.lt_trans hk hplace)), h.kept' k hk]
  · rw [Store.frame_create, if_neg (Nat.ne_of_lt hplace), h.inserted]
  · intro k f hk hf
    rw [Store.frame_create] at hf ⊢
    by_cases hks : k = s.frames.size
    · subst k
      rw [if_pos rfl] at hf
      obtain rfl := Option.some.inj hf
      refine ⟨⟨[], some j⟩, by rw [if_pos hsize.symm], ⟨i, j, rfl, rfl, hlt, ?_, ?_⟩, .nil⟩
      · obtain ⟨_, rfl, _⟩ | ⟨rfl, _⟩ := hm
        · exact Nat.lt_succ_of_le hle
        · unfold shift
          split <;> omega
      · exact meets_mono (meets_later hmore hm) fun hb => by rw [hnew, hb]
    · rw [if_neg hks] at hf
      rw [if_neg fun he => hks (Nat.succ.inj (he.trans hsize))]
      obtain ⟨f', hf', hframe⟩ := h.frame k f hk hf
      exact ⟨f', hf', frameMeets_later hmore hframe⟩

/-- What holds where the frame that is put in is seen from a scope, holds of all that the
scope may be used for. -/
theorem exists_flag (h : I.Meets W clean i j) :
    ∃ b, I.Meets W (b = true) i j ∧ ∀ p, I.Meets W p i j → b = true → p := by
  have hne : shift I.place 1 I.home ≠ I.place := by
    rw [shift_of_lt (n := I.place) I.home_lt]
    exact Nat.ne_of_lt I.home_lt
  obtain ⟨rfl, rfl, _⟩ | ⟨rfl, b, hb, _⟩ := h
  · refine ⟨true, .inl ⟨rfl, rfl, rfl⟩, ?_⟩
    rintro p (⟨_, _, hp⟩ | ⟨hshift, _⟩) _
    · exact hp
    · exact absurd hshift.symm hne
  · refine ⟨b, .inr ⟨rfl, b, hb, id⟩, ?_⟩
    rintro p (⟨rfl, hshift, _⟩ | ⟨_, b', hb', hp⟩) ht
    · exact absurd hshift hne
    · exact hp (Option.some.inj (hb'.symm.trans hb) ▸ ht)

theorem moved_of_meets (h : I.Meets W clean i j) (hj : I.place ≤ j) :
    clean ∨ I.place ≤ i ∧ j = i + 1 := by
  obtain ⟨_, _, hc⟩ | ⟨rfl, _⟩ := h
  · exact .inl hc
  · right
    by_cases hi : i < I.place
    · rw [shift_of_lt hi] at hj
      exact absurd hi (Nat.not_lt.mpr hj)
    · exact ⟨Nat.not_lt.mp hi, shift_of_le (Nat.not_lt.mp hi)⟩

variable (I) in
/-- Evaluations with and without the frame stay in step, as long as forms that avoid the
hidden names are all that is evaluated inside it. -/
def lockstep (limit limit' : Nat) : Lockstep where
  World := List Bool
  Later := (· <+: ·)
  node _ := True
  holds W v i j := I.Meets W (I.held v) i j
  reads W v i j := I.place ≤ j ∧ I.Meets W (v.Avoids I.hidden) i j
  writes _ _ i j := I.place ≤ i ∧ j = i + 1
  opens W v i j := I.Meets W (v.Avoids I.hidden) i j
  machine W m n := I.Related W m.store n.store ∧ m.printed = n.printed
  error e e' := e.report = e'.report ∨ e = .tooDeep limit ∧ e' = .tooDeep limit'
  refl := List.prefix_refl
  trans := List.IsPrefix.trans
  holds_mono hX h := meets_later hX h
  reads_mono hX h := ⟨h.1, meets_later hX h.2⟩
  writes_mono _ h := h
  opens_of_holds h := meets_mono h I.avoids_of_held
  holds_of_lambda := by
    intro W v vs i j special params w hr hs hf ho
    obtain ⟨b, hb, hsees⟩ := exists_flag ho
    exact meets_mono hb fun ht => I.held_of_lambda (hsees _ hr.2 ht) hs hf (hsees _ ho ht)
  node_zero := trivial
  node_nil := trivial
  node_bool _ := trivial
  node_sequence := trivial
  node_length _ := trivial
  node_list _ _ := trivial
  node_apply _ _ _ := trivial
  error_apply _ _ _ := .inl rfl
  error_arity _ _ := .inl rfl
  error_boolean _ _ := .inl rfl
  error_list _ _ := .inl rfl
  error_shape {_ f _ _} h := .inl (congrArg (shapeReport f) h.message_eq)
  reads_call h hs w hw := ⟨h.1, meets_mono h.2 fun ha => Value.avoids_items ha hs w hw⟩
  reads_form := by
    intro W v vs i j special f h hs hf
    have hparts := fun ha => Form.avoids_parts I.hidden_define ha hs hf
    refine ⟨fun w hw => ⟨h.1, meets_mono h.2 fun ha => (hparts ha).1 w hw⟩,
      fun w hw => meets_mono h.2 fun ha => (hparts ha).2.1 w hw, fun k hk => ?_⟩
    obtain ha | hmoved := moved_of_meets h.2 h.1
    · rw [(hparts ha).2.2] at hk
      cases hk
    · exact hmoved
  find h hr := find?_related h.1 (meets_mono hr.2 Value.not_hidden_of_avoids)
  put := by
    rintro W m n k v w i _ ⟨hm, hp⟩ ⟨hi, rfl⟩ hv
    exact ⟨related_put hm hi k hv, hp⟩
  create := by
    intro W m n v i j hm h
    obtain ⟨b, hb, hsees⟩ := exists_flag h
    have hle := place_le_size hm.1
    have hsize := size_eq_succ hm.1
    have hj : I.place ≤ n.store.frames.size := hsize ▸ Nat.le_succ_of_le hle
    refine ⟨W ++ [b], List.prefix_append _ _, ⟨related_create hm.1 hb, hm.2⟩, fun w hw => ?_,
      fun _ => ⟨hle, hsize⟩⟩
    exact ⟨hj, .inr ⟨hsize.trans (shift_of_le hle).symm, b, inside?_size hm.1 b, hsees _ hw⟩⟩
  print h hv := ⟨h.1, Machine.printed_print_eq h.2 hv.display_eq⟩

/-- A form that avoids the hidden names evaluates in the frame that is put in as it does
around it, whatever scopes have been made since. -/
theorem evalLevels_related (limit limit' levels : Nat) {m n : Machine}
    (hm : I.Related W m.store n.store) (hp : m.printed = n.printed) {form : Value}
    (hform : form.Within I.place) (ha : form.Avoids I.hidden) :
    let x := (evalLevels limit levels form I.home).run m
    let y := (evalLevels limit' levels form I.place).run n
    ∃ X, W <+: X ∧ I.Related X x.2.store y.2.store ∧ x.2.printed = y.2.printed ∧
      Agree (fun e e' => e.report = e'.report ∨ e = .tooDeep limit ∧ e' = .tooDeep limit')
        (I.Alike X) x.1 y.1 := by
  obtain ⟨X, hX, hmachine, hr⟩ := (I.lockstep limit limit').evalLevels_evaluates limit limit'
    (.inr ⟨rfl, rfl⟩) levels W form form I.home I.place (alike_of_within hform)
    ⟨Nat.le_refl _, .inl ⟨rfl, rfl, ha⟩⟩ m n ⟨hm, hp⟩
  exact ⟨X, hX, hmachine.1, hmachine.2, hr⟩

theorem evalLevels_inserted (limit limit' levels : Nat) {m n : Machine} (hm : I.Related [] m.store n.store)
    (hp : m.printed = n.printed) {form : Value} (hform : form.Within I.place)
    (ha : form.Avoids I.hidden) :
    let x := (evalLevels limit levels form I.home).run m
    let y := (evalLevels limit' levels form I.place).run n
    ∃ W, I.Related W x.2.store y.2.store ∧ x.2.printed = y.2.printed ∧
      Agree (fun e e' => e.report = e'.report ∨ e = .tooDeep limit ∧ e' = .tooDeep limit')
        (I.Alike W) x.1 y.1 := by
  obtain ⟨X, _, h⟩ := evalLevels_related limit limit' levels hm hp hform ha
  exact ⟨X, h⟩

end Insertion

end SmallLisp
