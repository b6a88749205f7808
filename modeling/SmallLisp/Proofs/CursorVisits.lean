import SmallLisp.Proofs.CursorSteps

namespace SmallLisp

theorem Atom.read_ne_tooDeep (token : String) (n : Nat) :
    Atom.read token ≠ .error (.tooDeep n) := by
  unfold Atom.read Atom.resolve
  split
  · exact nofun
  · split
    · exact nofun
    · split
      · exact nofun
      · split
        · exact nofun
        · split <;> exact nofun

namespace Cursor

/-- What reading does to lists: it enters one when it has taken the token that opens it, and
completes one when it has taken the parenthesis that closes it. -/
inductive Visit where
  | entered
  | completed
  deriving DecidableEq, Repr

mutual

def formVisits (limit : Nat) (c : Cursor) : List Visit :=
  if c.rest.head? = some "(" then listVisits limit c else []
termination_by (c.rest.length, 1)

def listVisits (limit : Nat) (c : Cursor) : List Visit :=
  match h : c.rest with
  | [] => []
  | _ :: rest =>
    .entered ::
      if limit < c.depth + 1 then [] else itemVisits limit ⟨rest, c.position + 1, c.depth + 1⟩
termination_by (c.rest.length, 0)
decreasing_by
  rw [h]
  exact .left _ _ (Nat.lt_succ_self _)

def itemVisits (limit : Nat) (c : Cursor) : List Visit :=
  if c.atEnd then []
  else if c.rest.head? = some ")" then [.completed]
  else
    formVisits limit c ++
      match _ : c.readForm limit with
      | (.ok _, d) => itemVisits limit d
      | (.error _, _) => []
termination_by (c.rest.length, 2)
decreasing_by
  · exact .right _ (by decide)
  · exact .left _ _ (readForm_rest_length_lt limit c _ _ (by assumption))

end

def restVisits (limit : Nat) (c : Cursor) : List Visit :=
  if c.atEnd then []
  else
    formVisits limit c ++
      match _ : c.readForm limit with
      | (.ok _, d) => restVisits limit d
      | (.error _, _) => []
termination_by c.rest.length
decreasing_by exact readForm_rest_length_lt limit c _ _ (by assumption)

variable {limit : Nat} {c d : Cursor}

theorem formVisits_of_atom (h : c.rest.head? ≠ some "(") : formVisits limit c = [] := by
  rw [formVisits, if_neg h]

theorem formVisits_of_list (h : c.rest.head? = some "(") :
    formVisits limit c = listVisits limit c := by
  rw [formVisits, if_pos h]

theorem listVisits_of_tooDeep {token : String} {rest : List String} {position depth : Nat}
    (h : limit < depth + 1) : listVisits limit ⟨token :: rest, position, depth⟩ = [.entered] := by
  rw [listVisits.eq_def]
  simp [h]

theorem listVisits_of_le {token : String} {rest : List String} {position depth : Nat}
    (h : ¬ limit < depth + 1) :
    listVisits limit ⟨token :: rest, position, depth⟩ =
      .entered :: itemVisits limit ⟨rest, position + 1, depth + 1⟩ := by
  rw [listVisits.eq_def]
  simp [h]

theorem itemVisits_close (h : c.rest.head? = some ")") : itemVisits limit c = [.completed] := by
  have hend : ¬ c.atEnd := by
    obtain ⟨_ | ⟨token, rest⟩, position, depth⟩ := c
    · cases h
    · exact Bool.false_ne_true
  rw [itemVisits, if_neg hend, if_pos h]

theorem itemVisits_form (hend : ¬ c.atEnd) (hclose : c.rest.head? ≠ some ")") :
    itemVisits limit c =
      formVisits limit c ++
        match c.readForm limit with
        | (.ok _, d) => itemVisits limit d
        | (.error _, _) => [] := by
  rw [itemVisits, if_neg hend, if_neg hclose]
  congr 1
  split
  · next h => rw [h]
  · next h => rw [h]

theorem restVisits_form (hend : ¬ c.atEnd) :
    restVisits limit c =
      formVisits limit c ++
        match c.readForm limit with
        | (.ok _, d) => restVisits limit d
        | (.error _, _) => [] := by
  rw [restVisits, if_neg hend]
  congr 1
  split
  · next h => rw [h]
  · next h => rw [h]

theorem readItems_append (limit : Nat) (rest : List String) (position depth : Nat)
    (items : List Value) (outer : List (List Value)) (above : List Value) :
    readItems limit rest position depth items (outer ++ [above]) =
      match readItems limit rest position depth items outer with
      | (.ok v, d) => readItems limit d.rest d.position d.depth (v :: above) []
      | (.error e, d) => (.error e, d) := by
  fun_induction readItems limit rest position depth items outer with
  | case1 => rfl
  | case2 => simp_all [readItems]
  | case3 rest position depth items outer h ih =>
    rw [readItems_open _ _ _ _ _ _ (Nat.not_lt.mp h)]
    exact ih
  | case4 => rfl
  | case5 rest position depth items hclose inner outer ih =>
    rw [← ih, readItems.eq_def]
    simp
  | case6 token rest position depth items outer hopen hclose v hv ih =>
    rw [readItems_atom _ _ _ _ _ _ hopen hclose hv, ih]
  | case7 => simp_all [readItems]

theorem readItems_form (hend : ¬ c.atEnd) (hclose : c.rest.head? ≠ some ")") (items : List Value) :
    readItems limit c.rest c.position c.depth items [] =
      match c.readForm limit with
      | (.ok v, d) => readItems limit d.rest d.position d.depth (v :: items) []
      | (.error e, d) => (.error e, d) := by
  obtain ⟨_ | ⟨token, rest⟩, position, depth⟩ := c
  · exact absurd rfl hend
  · have hclose : token ≠ ")" := fun h => hclose (congrArg some h)
    by_cases hopen : token = "("
    · subst hopen
      by_cases hlt : limit < depth + 1
      · simp [readItems, readForm, readList, hlt]
      · have happend := readItems_append limit rest (position + 1) (depth + 1) [] [] items
        simp only [readForm, readList, hlt, ↓reduceIte]
        rw [readItems_open _ _ _ _ _ _ (Nat.not_lt.mp hlt)]
        exact happend
    · simp only [readForm, if_neg hopen, if_neg hclose, readAtom]
      rw [readItems.eq_def]
      simp only [if_neg hopen, if_neg hclose]
      cases Atom.read token <;> rfl

/-- Entering a list goes beyond the limit somewhere in the course of some visits, which start
at a depth. -/
def Exceeds (limit depth : Nat) (log : List Visit) : Prop :=
  ∃ before after, log = before ++ .entered :: after ∧
    limit + before.count .completed < depth + before.count .entered + 1

/-- The visits account for the depth that a reading comes to. It completes the lists that it
enters, and `closing` of those that were entered before it. -/
structure Tracks {α : Type} (limit : Nat) (c : Cursor) (log : List Visit) (closing : Nat)
    (r : Except ReadError α × Cursor) : Prop where
  depth : r.2.depth + log.count .completed = c.depth + log.count .entered
  nested : ∀ part, part <+: log → part.count .completed ≤ part.count .entered + closing
  ok : ∀ v, r.1 = .ok v → r.2.depth + closing = c.depth
  tooDeep : ∀ n, r.1 = .error (.tooDeep n) ↔ n = limit ∧ Exceeds limit c.depth log

variable {α β : Type} {log log' : List Visit} {closing : Nat} {r : Except ReadError α × Cursor}

theorem not_exceeds_nil (limit depth : Nat) : ¬ Exceeds limit depth [] := by
  rintro ⟨before, after, h, _⟩
  simp at h

theorem exceeds_append {depth depth' : Nat}
    (h : depth' + log.count .completed = depth + log.count .entered) :
    Exceeds limit depth (log ++ log') ↔ Exceeds limit depth log ∨ Exceeds limit depth' log' := by
  constructor
  · rintro ⟨before, after, he, hlt⟩
    obtain ⟨more, rfl, rfl⟩ | ⟨more, rfl, hmore⟩ := List.append_eq_append_iff.mp he
    · refine .inr ⟨more, after, rfl, ?_⟩
      simp only [List.count_append] at hlt
      omega
    · cases more with
      | nil =>
        refine .inr ⟨[], after, hmore.symm, ?_⟩
        simp only [List.append_nil] at h
        simp only [List.count_nil]
        omega
      | cons visit more =>
        obtain ⟨rfl, rfl⟩ := List.cons.inj hmore
        exact .inl ⟨before, more, rfl, hlt⟩
  · rintro (⟨before, after, rfl, hlt⟩ | ⟨before, after, rfl, hlt⟩)
    · exact ⟨before, after ++ log', by simp, hlt⟩
    · refine ⟨log ++ before, after, by simp, ?_⟩
      simp only [List.count_append]
      omega

theorem tracks_nil {x : Except ReadError α} (hd : d.depth = c.depth)
    (hx : ∀ n, x ≠ .error (.tooDeep n)) : Tracks limit c [] 0 (x, d) where
  depth := by simp [hd]
  nested := by
    intro part hpart
    simp [List.prefix_nil.mp hpart]
  ok _ _ := hd
  tooDeep n := ⟨fun h => absurd h (hx n), fun h => absurd h.2 (not_exceeds_nil limit c.depth)⟩

theorem tracks_tooDeep (hlt : limit < c.depth + 1) (hd : d.depth = c.depth + 1) :
    Tracks limit c [.entered] 0 ((.error (.tooDeep limit) : Except ReadError α), d) where
  depth := by simp [hd]
  nested := by
    intro part hpart
    have hle := hpart.sublist.count_le .completed
    have hnone : [Visit.entered].count .completed = 0 := rfl
    omega
  ok := nofun
  tooDeep n := by
    constructor
    · rintro ⟨⟩
      exact ⟨rfl, [], [], rfl, by simpa using hlt⟩
    · rintro ⟨rfl, _⟩
      rfl

theorem tracks_of_error {e : ReadError}
    (h : Tracks limit c log closing ((.error e : Except ReadError α), d)) (more : Nat) :
    Tracks limit c log (closing + more) ((.error e : Except ReadError β), d) where
  depth := h.depth
  nested := by
    intro part hpart
    have hle := h.nested part hpart
    omega
  ok := nofun
  tooDeep n := by
    rw [← h.tooDeep n]
    simp

theorem tracks_append {v : α} {r : Except ReadError β × Cursor}
    (h : Tracks limit c log 0 (.ok v, d)) (h' : Tracks limit d log' closing r) :
    Tracks limit c (log ++ log') closing r where
  depth := by
    have hd := h.depth
    have hr := h'.depth
    simp only [List.count_append] at hd hr ⊢
    omega
  nested := by
    intro part hpart
    obtain hpart' | ⟨more, rfl⟩ :=
      List.prefix_or_prefix_of_prefix hpart (List.prefix_append log log')
    · have hle := h.nested part hpart'
      omega
    · have hmore := h'.nested more ((List.prefix_append_right_inj log).mp hpart)
      have hlog := h.nested log (List.prefix_refl log)
      simp only [List.count_append]
      omega
  ok w hw := (h'.ok w hw).trans (h.ok v rfl)
  tooDeep n := by
    have hno : ¬ Exceeds limit c.depth log := fun he => nomatch (h.tooDeep limit).mpr ⟨rfl, he⟩
    rw [h'.tooDeep, exceeds_append h.depth, or_iff_right hno]

theorem tracks_enter {rest : List String} {position : Nat} (hle : c.depth + 1 ≤ limit)
    (h : Tracks limit ⟨rest, position, c.depth + 1⟩ log 1 r) :
    Tracks limit c (.entered :: log) 0 r where
  depth := by
    have hd : r.2.depth + log.count .completed = c.depth + 1 + log.count .entered := h.depth
    simp only [List.count_cons_self, List.count_cons_of_ne (nofun : Visit.entered ≠ .completed)]
    omega
  nested := by
    intro part hpart
    obtain rfl | ⟨more, rfl, hmore⟩ := List.prefix_cons_iff.mp hpart
    · simp
    · have hn := h.nested more hmore
      simp only [List.count_cons_self, List.count_cons_of_ne (nofun : Visit.entered ≠ .completed)]
      omega
  ok v hv := Nat.add_right_cancel (h.ok v hv)
  tooDeep n := by
    have hno : ¬ Exceeds limit c.depth [.entered] := by
      rintro ⟨before, after, he, hlt⟩
      cases before with
      | nil =>
        simp only [List.count_nil] at hlt
        omega
      | cons visit before => simp at he
    have hone : c.depth + 1 + [Visit.entered].count .completed =
        c.depth + [Visit.entered].count .entered := rfl
    rw [h.tooDeep, ← List.singleton_append, exceeds_append hone, or_iff_right hno]

theorem tracks_map {x : Except ReadError α} (h : Tracks limit c log closing (x, d)) (f : α → β) :
    Tracks limit c log closing (x.map f, d) := by
  cases x with
  | ok v =>
    refine ⟨h.depth, h.nested, fun _ _ => h.ok v rfl, fun n => ⟨nofun, fun hn => ?_⟩⟩
    exact nomatch (h.tooDeep n).mpr hn
  | error e => exact tracks_of_error h 0

theorem readAtom_tracks (limit : Nat) (c : Cursor) : Tracks limit c [] 0 c.readAtom := by
  obtain ⟨_ | ⟨token, rest⟩, position, depth⟩ := c
  · exact tracks_nil rfl (by simp)
  · exact tracks_nil rfl (Atom.read_ne_tooDeep token)

theorem readForm_tracks
    (hlist : c.rest.head? = some "(" → Tracks limit c (listVisits limit c) 0 (c.readList limit)) :
    Tracks limit c (formVisits limit c) 0 (c.readForm limit) := by
  obtain ⟨_ | ⟨token, rest⟩, position, depth⟩ := c
  · rw [formVisits_of_atom (by simp)]
    exact tracks_nil rfl (by simp)
  · by_cases hopen : token = "("
    · subst hopen
      rw [formVisits_of_list rfl]
      exact hlist rfl
    · rw [formVisits_of_atom (by simpa using hopen)]
      simp only [readForm, if_neg hopen]
      split
      · exact tracks_nil rfl (by simp)
      · exact readAtom_tracks limit _

theorem readList_tracks
    (hitems : ∀ token rest, c.rest = token :: rest →
      Tracks limit ⟨rest, c.position + 1, c.depth + 1⟩
        (itemVisits limit ⟨rest, c.position + 1, c.depth + 1⟩) 1
        (readItems limit rest (c.position + 1) (c.depth + 1) [] [])) :
    Tracks limit c (listVisits limit c) 0 (c.readList limit) := by
  obtain ⟨_ | ⟨token, rest⟩, position, depth⟩ := c
  · rw [listVisits.eq_def]
    exact tracks_nil rfl (by simp)
  · simp only [readList]
    split
    · next hlt =>
      rw [listVisits_of_tooDeep hlt]
      exact tracks_tooDeep hlt rfl
    · next hlt =>
      rw [listVisits_of_le hlt]
      exact tracks_enter (Nat.not_lt.mp hlt) (hitems token rest rfl)

theorem readItems_close_tracks (hc : 0 < c.depth) (hclose : c.rest.head? = some ")")
    (items : List Value) :
    Tracks limit c (itemVisits limit c) 1 (readItems limit c.rest c.position c.depth items []) := by
  rw [itemVisits_close hclose]
  obtain ⟨_ | ⟨token, rest⟩, position, depth⟩ := c
  · cases hclose
  · obtain rfl := Option.some.inj hclose
    obtain ⟨depth, rfl⟩ := Nat.exists_eq_add_one_of_ne_zero (Nat.ne_of_gt hc)
    rw [readItems_end]
    refine ⟨rfl, fun part hpart => ?_, fun _ _ => rfl, fun n => ⟨nofun, ?_⟩⟩
    · exact Nat.le_trans (hpart.sublist.count_le .completed) (Nat.le_add_left 1 _)
    · rintro ⟨_, before, after, he, _⟩
      cases before <;> simp at he

theorem readItems_form_tracks (hend : ¬ c.atEnd) (hclose : c.rest.head? ≠ some ")")
    (hc : 0 < c.depth) (hform : Tracks limit c (formVisits limit c) 0 (c.readForm limit))
    (hrest : ∀ v d, c.readForm limit = (.ok v, d) → 0 < d.depth → ∀ items,
      Tracks limit d (itemVisits limit d) 1 (readItems limit d.rest d.position d.depth items []))
    (items : List Value) :
    Tracks limit c (itemVisits limit c) 1 (readItems limit c.rest c.position c.depth items []) := by
  rw [itemVisits_form hend hclose, readItems_form hend hclose]
  rcases hr : c.readForm limit with ⟨e | v, d⟩
  · rw [hr] at hform
    rw [List.append_nil]
    exact tracks_of_error hform 1
  · rw [hr] at hform
    have hd : d.depth = c.depth := hform.ok v rfl
    exact tracks_append hform (hrest v d hr (hd ▸ hc) (v :: items))

/-- Along the recursion of the reader: a form is a list or an atom, a list is a sequence of
items, and an item is a form. -/
theorem reads_track (limit : Nat) :
    (∀ c, Tracks limit c (formVisits limit c) 0 (c.readForm limit)) ∧
      (∀ c, Tracks limit c (listVisits limit c) 0 (c.readList limit)) ∧
        ∀ c, 0 < c.depth → ∀ items, Tracks limit c (itemVisits limit c) 1
          (readItems limit c.rest c.position c.depth items []) := by
  apply formVisits.mutual_induct limit
  case case1 => exact fun c _ hlist => readForm_tracks fun _ => hlist
  case case2 => exact fun c hopen => readForm_tracks fun h => absurd h hopen
  case case3 => exact fun c hnil => readList_tracks fun _ _ h => nomatch hnil.symm.trans h
  case case4 =>
    intro c token rest hrest hitems
    refine readList_tracks fun token' rest' h => ?_
    obtain ⟨_, rfl⟩ := List.cons.inj (hrest.symm.trans h)
    exact hitems (Nat.succ_pos _) []
  case case5 =>
    intro c hend _ items
    have herror : Tracks limit c [] 0
        ((.error .listNotClosed : Except ReadError Value), ⟨[], c.position, c.depth⟩) :=
      tracks_nil rfl (by simp)
    rw [itemVisits, if_pos hend, List.isEmpty_iff.mp hend, readItems]
    exact tracks_of_error herror 1
  case case6 => exact fun c _ hclose hc items => readItems_close_tracks hc hclose items
  case case7 =>
    exact fun c hend hclose hform hrest hc items =>
      readItems_form_tracks hend hclose hc hform (fun v d h => hrest v d h) items

theorem readRest_tracks (limit : Nat) (done : List Value) (c : Cursor) :
    Tracks limit c (restVisits limit c) 0 (readRest limit done c) := by
  fun_induction readRest limit done c with
  | case1 done c hend =>
    rw [restVisits, if_pos hend]
    exact tracks_nil rfl (by simp)
  | case2 done c hend v d hd ih =>
    have hform := (reads_track limit).1 c
    rw [hd] at hform
    rw [restVisits_form hend, hd]
    exact tracks_append hform ih
  | case3 done c hend e d hd =>
    have hform := (reads_track limit).1 c
    rw [hd] at hform
    rw [restVisits_form hend, hd, List.append_nil]
    exact tracks_of_error hform 0

end Cursor

end SmallLisp
