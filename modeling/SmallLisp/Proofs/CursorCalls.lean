import SmallLisp.Proofs.CursorVisits
import SmallLisp.Proofs.Outcome
import SmallLisp.Proofs.ReadErrors

namespace SmallLisp.Cursor

inductive Call where
  | peek
  | next
  | atEnd
  | readForm
  | readList
  | readAtom
  | readAll
  deriving DecidableEq, Repr

inductive Found where
  | token (text : String)
  | atEnd (b : Bool)
  | form (v : Value)
  | forms (vs : List Value)

def call (limit : Nat) (c : Cursor) : Call → Except ReadError Found × Cursor
  | .peek => (c.peek.map .token, c)
  | .next => (c.next.1.map .token, c.next.2)
  | .atEnd => (.ok (.atEnd c.atEnd), c)
  | .readForm => ((c.readForm limit).1.map .form, (c.readForm limit).2)
  | .readList => ((c.readList limit).1.map .form, (c.readList limit).2)
  | .readAtom => (c.readAtom.1.map .form, c.readAtom.2)
  | .readAll => ((c.readAll limit).1.map .forms, (c.readAll limit).2)

def callVisits (limit : Nat) (c : Cursor) : Call → List Visit
  | .readForm => formVisits limit c
  | .readList => listVisits limit c
  | .readAll => restVisits limit c
  | _ => []

/-- A reader after some calls, whether they succeed or fail. -/
def callAll (limit : Nat) (calls : List Call) (c : Cursor) : Cursor :=
  calls.foldl (fun c m => (c.call limit m).2) c

def visits (limit : Nat) : List Call → Cursor → List Visit
  | [], _ => []
  | m :: calls, c => c.callVisits limit m ++ visits limit calls (c.call limit m).2

def unclosed (log : List Visit) : Nat := log.count .entered - log.count .completed

/-- The tokens that a call takes when it succeeds, by the positions before and after it. -/
def Call.Takes (length before after : Nat) : Call → Prop
  | .peek | .atEnd => after = before
  | .next | .readAtom => after = before + 1
  | .readForm => before + 1 ≤ after
  | .readList => before + 2 ≤ after
  | .readAll => after = length

/-- The second cursor is where the first is, or further on in the same tokens. -/
structure Advances (c d : Cursor) : Prop where
  suffix : d.rest <:+ c.rest
  position : d.position + d.rest.length = c.position + c.rest.length

variable {limit : Nat} {c d e : Cursor}

theorem advances_refl (c : Cursor) : c.Advances c := ⟨List.suffix_refl _, rfl⟩

theorem advances_trans (h : c.Advances d) (h' : d.Advances e) : c.Advances e :=
  ⟨h'.suffix.trans h.suffix, h'.position.trans h.position⟩

theorem advances_take (token : String) (rest : List String) (position depth depth' : Nat) :
    Advances ⟨token :: rest, position, depth⟩ ⟨rest, position + 1, depth'⟩ :=
  ⟨List.suffix_cons _ _, by simp only [List.length_cons]; omega⟩

theorem position_le_of_advances (h : c.Advances d) : c.position ≤ d.position := by
  have hle := h.suffix.length_le
  have hposition := h.position
  omega

theorem readItems_advances (limit : Nat) (rest : List String) (position depth : Nat)
    (items : List Value) (outer : List (List Value)) :
    Advances ⟨rest, position, depth⟩ (readItems limit rest position depth items outer).2 := by
  fun_induction readItems limit rest position depth items outer with
  | case1 => exact advances_refl _
  | case3 rest position depth _ _ _ ih => exact advances_trans (advances_take _ _ _ _ _) ih
  | case5 rest position depth _ _ _ _ ih => exact advances_trans (advances_take _ _ _ _ _) ih
  | case6 token rest position depth _ _ _ _ _ _ ih =>
    exact advances_trans (advances_take _ _ _ _ _) ih
  | _ => exact advances_take _ _ _ _ _

theorem readList_advances (limit : Nat) (c : Cursor) : c.Advances (c.readList limit).2 := by
  obtain ⟨_ | ⟨token, rest⟩, position, depth⟩ := c
  · exact advances_refl _
  · simp only [readList]
    split
    · exact advances_take _ _ _ _ _
    · exact advances_trans (advances_take _ _ _ _ _) (readItems_advances _ _ _ _ _ _)

theorem readAtom_advances (c : Cursor) : c.Advances c.readAtom.2 := by
  obtain ⟨_ | ⟨token, rest⟩, position, depth⟩ := c
  · exact advances_refl _
  · exact advances_take _ _ _ _ _

theorem readForm_advances (limit : Nat) (c : Cursor) : c.Advances (c.readForm limit).2 := by
  obtain ⟨_ | ⟨token, rest⟩, position, depth⟩ := c
  · exact advances_refl _
  · simp only [readForm]
    split
    · exact readList_advances limit _
    · split
      · exact advances_refl _
      · exact readAtom_advances _

theorem readRest_advances (limit : Nat) (done : List Value) (c : Cursor) :
    c.Advances (readRest limit done c).2 := by
  fun_induction readRest limit done c with
  | case1 => exact advances_refl _
  | case2 done c _ v d hd ih =>
    have hform := readForm_advances limit c
    rw [hd] at hform
    exact advances_trans hform ih
  | case3 done c _ e d hd =>
    have hform := readForm_advances limit c
    rw [hd] at hform
    exact hform

theorem next_advances (c : Cursor) : c.Advances c.next.2 := by
  obtain ⟨_ | ⟨token, rest⟩, position, depth⟩ := c
  · exact advances_refl _
  · exact advances_take _ _ _ _ _

theorem call_advances (limit : Nat) (c : Cursor) (m : Call) : c.Advances (c.call limit m).2 := by
  cases m with
  | peek => exact advances_refl c
  | next => exact next_advances c
  | atEnd => exact advances_refl c
  | readForm => exact readForm_advances limit c
  | readList => exact readList_advances limit c
  | readAtom => exact readAtom_advances c
  | readAll => exact readRest_advances limit [] c

theorem readItems_rest_length_lt {rest : List String} {position depth : Nat} {items : List Value}
    {outer : List (List Value)} {v : Value}
    (h : (readItems limit rest position depth items outer).1 = .ok v) :
    (readItems limit rest position depth items outer).2.rest.length < rest.length := by
  fun_induction readItems limit rest position depth items outer with
  | case1 => cases h
  | case2 => cases h
  | case3 _ _ _ _ _ _ ih => exact Nat.lt_succ_of_lt (ih h)
  | case4 => exact Nat.lt_succ_self _
  | case5 _ _ _ _ _ _ _ ih => exact Nat.lt_succ_of_lt (ih h)
  | case6 _ _ _ _ _ _ _ _ _ _ ih => exact Nat.lt_succ_of_lt (ih h)
  | case7 => cases h

theorem readList_rest_length_lt {v : Value} (h : (c.readList limit).1 = .ok v) :
    (c.readList limit).2.rest.length + 2 ≤ c.rest.length := by
  obtain ⟨_ | ⟨token, rest⟩, position, depth⟩ := c
  · cases h
  · simp only [readList] at h ⊢
    split at h
    · cases h
    · next hlt =>
      rw [if_neg hlt]
      exact Nat.succ_le_succ (readItems_rest_length_lt h)

theorem readRest_rest_of_ok {done vs : List Value} (h : (readRest limit done c).1 = .ok vs) :
    (readRest limit done c).2.rest = [] := by
  fun_induction readRest limit done c with
  | case1 done c hend => exact List.isEmpty_iff.mp hend
  | case2 _ _ _ _ _ _ ih => exact ih h
  | case3 => cases h

theorem call_takes {m : Call} {x : Found} (h : (c.call limit m).1 = .ok x) :
    m.Takes (c.position + c.rest.length) c.position (c.call limit m).2.position := by
  have hposition := (call_advances limit c m).position
  cases m with
  | peek => rfl
  | next =>
    obtain ⟨_ | ⟨token, rest⟩, position, depth⟩ := c
    · cases h
    · rfl
  | atEnd => rfl
  | readForm =>
    obtain ⟨v, hv, _⟩ := map_eq_ok.mp h
    have hlt := readForm_rest_length_lt limit c (c.readForm limit).2 v (Prod.ext hv rfl)
    simp only [call, Call.Takes] at hposition ⊢
    omega
  | readList =>
    obtain ⟨v, hv, _⟩ := map_eq_ok.mp h
    have hle := readList_rest_length_lt hv
    simp only [call, Call.Takes] at hposition ⊢
    omega
  | readAtom =>
    obtain ⟨_ | ⟨token, rest⟩, position, depth⟩ := c
    · cases h
    · rfl
  | readAll =>
    obtain ⟨vs, hvs, _⟩ := map_eq_ok.mp h
    have hrest : (c.readAll limit).2.rest = [] := readRest_rest_of_ok hvs
    simp only [call, Call.Takes, hrest, List.length_nil] at hposition ⊢
    omega

theorem call_tracks (limit : Nat) (c : Cursor) (m : Call) :
    Tracks limit c (c.callVisits limit m) 0 (c.call limit m) := by
  cases m with
  | peek =>
    obtain ⟨_ | ⟨token, rest⟩, position, depth⟩ := c <;> exact tracks_nil rfl nofun
  | next =>
    obtain ⟨_ | ⟨token, rest⟩, position, depth⟩ := c <;> exact tracks_nil rfl nofun
  | atEnd => exact tracks_nil rfl nofun
  | readForm => exact tracks_map ((reads_track limit).1 c) Found.form
  | readList => exact tracks_map ((reads_track limit).2.1 c) Found.form
  | readAtom => exact tracks_map (readAtom_tracks limit c) Found.form
  | readAll => exact tracks_map (readRest_tracks limit [] c) Found.forms

/-- The cursor stands somewhere in the tokens, and its depth is the number of lists that were
entered and not completed. -/
structure Accounted (tokens : List String) (log : List Visit) (c : Cursor) : Prop where
  advances : (ofTokens tokens).Advances c
  depth : c.depth + log.count .completed = log.count .entered

variable {tokens : List String} {log : List Visit}

theorem accounted_call (h : c.Accounted tokens log) (limit : Nat) (m : Call) :
    (c.call limit m).2.Accounted tokens (log ++ c.callVisits limit m) := by
  refine ⟨advances_trans h.advances (call_advances limit c m), ?_⟩
  have hbefore := h.depth
  have hcall := (call_tracks limit c m).depth
  simp only [List.count_append]
  omega

theorem accounted_callAll (limit : Nat) (calls : List Call) (h : c.Accounted tokens log) :
    (c.callAll limit calls).Accounted tokens (log ++ visits limit calls c) := by
  induction calls generalizing c log with
  | nil =>
    rw [visits, List.append_nil]
    exact h
  | cons m calls ih =>
    rw [visits, ← List.append_assoc]
    exact ih (accounted_call h limit m)

theorem rest_of_accounted (h : c.Accounted tokens log) :
    c.rest = tokens.drop c.position ∧ c.position + c.rest.length = tokens.length := by
  have hposition : c.position + c.rest.length = tokens.length :=
    h.advances.position.trans (Nat.zero_add _)
  have hdrop : c.rest = tokens.drop (tokens.length - c.rest.length) :=
    List.suffix_iff_eq_drop.mp h.advances.suffix
  refine ⟨?_, hposition⟩
  rwa [← hposition, Nat.add_sub_cancel] at hdrop

/-- Whatever calls a reader has had, and whether they succeeded or failed, it stands somewhere
in its tokens and never goes back, and its depth is the number of lists that were entered and
not completed. A call that succeeds leaves the depth as it was, and one that fails adds the
lists that it has left open. A list is too deep when it is one more than the limit allows, with
all those counted that earlier calls have left open. -/
theorem cursor_is_sound_under_any_calls (limit : Nat) (tokens : List String) (calls : List Call)
    (m : Call) :
    let c := (ofTokens tokens).callAll limit calls
    let earlier := visits limit calls (ofTokens tokens)
    let found := (c.call limit m).1
    let d := (c.call limit m).2
    let now := c.callVisits limit m
    (c.rest = tokens.drop c.position ∧ c.position ≤ tokens.length ∧
      c.position ≤ d.position ∧ d.position ≤ tokens.length) ∧
    (m = .peek ∨ m = .atEnd → d = c) ∧
    (∀ x, found = .ok x → m.Takes tokens.length c.position d.position ∧ d.depth = c.depth) ∧
    (∀ e, found = .error e → d.depth = c.depth + unclosed now) ∧
    (∀ part, part <+: now → part.count .completed ≤ part.count .entered) ∧
    (c.depth = unclosed earlier ∧ earlier.count .completed ≤ earlier.count .entered) ∧
    ∀ n, found = .error (.tooDeep n) ↔ n = limit ∧ ∃ before after,
      now = before ++ .entered :: after ∧ limit < unclosed (earlier ++ before) + 1 := by
  intro c earlier found d now
  have hstart : (ofTokens tokens).Accounted tokens [] := ⟨advances_refl _, rfl⟩
  have hc : c.Accounted tokens earlier := accounted_callAll limit calls hstart
  have hd := accounted_call hc limit m
  have ht : Tracks limit c now 0 (found, d) := call_tracks limit c m
  obtain ⟨hrest, hlength⟩ := rest_of_accounted hc
  have hend := (rest_of_accounted hd).2
  have hdepth : c.depth + earlier.count .completed = earlier.count .entered := hc.depth
  have hstep : d.depth + now.count .completed = c.depth + now.count .entered := ht.depth
  refine ⟨⟨hrest, ?_, position_le_of_advances (call_advances limit c m), ?_⟩, ?_, ?_, ?_, ht.nested,
    ?_, ?_⟩
  · omega
  · exact hend ▸ Nat.le_add_right _ _
  · rintro (rfl | rfl) <;> rfl
  · intro x hx
    have htakes := call_takes hx
    rw [hlength] at htakes
    exact ⟨htakes, ht.ok x hx⟩
  · intro e he
    have hnow := ht.nested now (List.prefix_refl now)
    simp only [unclosed]
    omega
  · simp only [unclosed]
    omega
  · intro n
    rw [ht.tooDeep n]
    refine and_congr_right fun _ => exists_congr fun before => exists_congr fun after =>
      and_congr_right fun hnow => ?_
    have hbefore := ht.nested before (hnow ▸ List.prefix_append _ _)
    simp only [unclosed, List.count_append]
    omega

end SmallLisp.Cursor
