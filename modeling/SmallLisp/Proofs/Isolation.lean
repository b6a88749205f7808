import SmallLisp.Proofs.SharedSessions

namespace SmallLisp

inductive Move where
  | start (limit : Option Int)
  | ask (i : Nat) (request : Request)

namespace Move

variable {σ : Type}

def isTo (i : Nat) : Move → Bool
  | start _ => false
  | ask j _ => j = i

/-- The answers that the session `i` gives in the course of some moves. -/
def answersFrom (next : Move → σ → Option Answer × σ) (i : Nat) : List Move → σ → List Answer
  | [], _ => []
  | m :: moves, state =>
    (if m.isTo i then (next m state).1.toList else []) ++
      answersFrom next i moves (next m state).2

def stateAfter (next : Move → σ → Option Answer × σ) (moves : List Move) (state : σ) : σ :=
  moves.foldl (fun state m => (next m state).2) state

end Move

/-- The answers to a sequence of requests, each of them under its own limit. -/
def Session.served : List (Nat × Request) → Session → List Answer
  | [], _ => []
  | (limit, request) :: rest, s =>
    (s.serve limit request).1 :: served rest (s.serve limit request).2

namespace Workspace

/-- A start that fails changes nothing, and a request of a session that is not there has no
answer. -/
def move (m : Move) (w : Workspace) : Option Answer × Workspace :=
  match m with
  | .start limit =>
    match w.start limit with
    | .ok next => (none, next)
    | .error _ => (none, w)
  | .ask i request =>
    match w.step? i fun limit s => s.serve limit request with
    | some (answer, next) => (some answer, next)
    | none => (none, w)

/-- The requests that are made of the session `i` in the course of some moves, each with
the limit in force at that moment. -/
def asked (i : Nat) : List Move → Workspace → List (Nat × Request)
  | [], _ => []
  | .start limit :: moves, w => asked i moves (w.move (.start limit)).2
  | .ask j request :: moves, w =>
    (if j = i ∧ i < w.sessions.size then [(w.limit, request)] else []) ++
      asked i moves (w.move (.ask j request)).2

end Workspace

structure Commons where
  limit : Nat
  store : Store
  roots : Array ScopeId

namespace Commons

def empty : Commons := ⟨Limit.standard, Store.empty, #[]⟩

def start (limit : Option Int) (c : Commons) : Except LimitError Commons := do
  let limit ← limit.elim (.ok c.limit) Limit.check
  let (root, store) := c.store.create none
  return ⟨limit, store.putOperators root, c.roots.push root⟩

def move (m : Move) (c : Commons) : Option Answer × Commons :=
  match m with
  | .start limit =>
    match c.start limit with
    | .ok next => (none, next)
    | .error _ => (none, c)
  | .ask i request =>
    match c.roots[i]? with
    | some root =>
      let (answer, store) := c.store.serve c.limit root request
      (some answer, ⟨c.limit, store, c.roots⟩)
    | none => (none, c)

/-- The sessions of a workspace, all of them in one store. Scopes of one session are none of
the others. -/
structure Holds (w : Workspace) (c : Commons) : Prop where
  limit : c.limit = w.limit
  size : c.roots.size = w.sessions.size
  session : ∀ (i : Nat) (s : Session) (root : ScopeId), w.sessions[i]? = some s →
    c.roots[i]? = some root → ∃ places, s.store.Embeds places c.store ∧ places[0]? = some root ∧
      ∀ (j : Nat) (other : ScopeId), c.roots[j]? = some other → j ≠ i → other ∉ places

variable {w : Workspace} {c : Commons} {i : Nat} {root : ScopeId}

theorem holds_empty : Holds .empty .empty := ⟨rfl, rfl, nofun⟩

theorem lt_of_holds (h : Holds w c) (hroot : c.roots[i]? = some root) :
    root < c.store.frames.size := by
  have hi : i < w.sessions.size := h.size ▸ (Array.getElem?_eq_some_iff.mp hroot).1
  obtain ⟨places, hplaces, hfirst, _⟩ :=
    h.session i _ root (Array.getElem?_eq_getElem hi) hroot
  exact Store.lt_of_embeds hplaces (List.mem_of_getElem? hfirst)

theorem frame_putOperators_create (s : Store) (k : ScopeId) :
    ((s.create none).2.putOperators s.frames.size).frames[k]? =
      if k = s.frames.size then Session.fresh.store.frames[0]? else s.frames[k]? := by
  rw [Store.putOperators, Store.frame_putAll, Store.frame_create]
  by_cases hk : k = s.frames.size
  · rw [if_pos hk.symm, if_pos hk, if_pos hk]
    rfl
  · rw [if_neg (Ne.symm hk), if_neg hk, if_neg hk]

theorem fresh_embeds (s : Store) :
    Session.fresh.store.Embeds [s.frames.size] ((s.create none).2.putOperators s.frames.size) := by
  refine ⟨rfl, List.pairwise_singleton _ _, fun i j hij => ?_⟩
  obtain ⟨rfl, rfl⟩ : i = 0 ∧ s.frames.size = j := by simpa [List.getElem?_singleton] using hij
  have hfresh : Session.fresh.store.frames[0]? = some Session.fresh.store.frames[0] := rfl
  obtain ⟨houter, hb⟩ := Session.frame_fresh hfresh
  refine ⟨_, _, hfresh, (frame_putOperators_create s _).trans ((if_pos rfl).trans hfresh), ?_, ?_⟩
  · rw [houter]
    exact .root rfl
  · refine List.forall₂_same.mpr fun p hp => ⟨rfl, ?_⟩
    obtain ⟨op, rfl⟩ := hb p hp
    exact .atom trivial trivial

theorem holds_start (h : Holds w c) (limit : Nat) :
    Holds ⟨limit, w.sessions.push .fresh⟩
      ⟨limit, (c.store.create none).2.putOperators c.store.frames.size,
        c.roots.push c.store.frames.size⟩ := by
  refine ⟨rfl, by rw [Array.size_push, Array.size_push, h.size], fun i s root hs hroot => ?_⟩
  rw [Array.getElem?_push] at hs hroot
  rw [h.size] at hroot
  by_cases hi : i = w.sessions.size
  · rw [if_pos hi] at hs hroot
    obtain rfl := Option.some.inj hs
    obtain rfl := Option.some.inj hroot
    refine ⟨_, fresh_embeds c.store, rfl, fun j other hother hj hmem => ?_⟩
    rw [Array.getElem?_push, if_neg (h.size ▸ hi ▸ hj)] at hother
    exact Nat.ne_of_lt (lt_of_holds h hother) (List.mem_singleton.mp hmem)
  · rw [if_neg hi] at hs hroot
    obtain ⟨places, hplaces, hfirst, hothers⟩ := h.session i s root hs hroot
    refine ⟨places, Store.embeds_congr hplaces fun k hk => ?_, hfirst, fun j other hother hj => ?_⟩
    · rw [frame_putOperators_create, if_neg (Nat.ne_of_lt (Store.lt_of_embeds hplaces hk))]
    · rw [Array.getElem?_push] at hother
      split at hother
      · obtain rfl := Option.some.inj hother
        exact fun hmem => Nat.lt_irrefl _ (Store.lt_of_embeds hplaces hmem)
      · exact hothers j other hother hj

theorem holds_ask (h : Holds w c) {s : Session} (hs : w.sessions[i]? = some s)
    (hroot : c.roots[i]? = some root) (request : Request) :
    (c.store.serve c.limit root request).1 = (s.serve w.limit request).1 ∧
      Holds ⟨w.limit, w.sessions.setIfInBounds i (s.serve w.limit request).2⟩
        ⟨c.limit, (c.store.serve c.limit root request).2, c.roots⟩ := by
  obtain ⟨places, hplaces, hfirst, hothers⟩ := h.session i s root hs hroot
  obtain ⟨more, hmore, hembeds, hanswer⟩ := Store.serve_embeds hplaces hfirst w.limit request
  rw [Session.serve_store, h.limit]
  refine ⟨hanswer.symm, rfl, by rw [Array.size_setIfInBounds, h.size], fun j u r hu hr => ?_⟩
  rw [Array.getElem?_setIfInBounds] at hu
  by_cases hj : i = j
  · subst hj
    obtain rfl : root = r := Option.some.inj (hroot.symm.trans hr)
    rw [if_pos rfl, if_pos (Array.getElem?_eq_some_iff.mp hs).1] at hu
    obtain rfl := Option.some.inj hu
    refine ⟨places ++ more, hembeds, place_append hfirst, fun k other hother hk hmem => ?_⟩
    obtain hmem | hmem := List.mem_append.mp hmem
    · exact hothers k other hother hk hmem
    · exact Nat.not_lt.mpr (hmore other hmem) (lt_of_holds h hother)
  · rw [if_neg hj] at hu
    obtain ⟨places', hplaces', hfirst', hothers'⟩ := h.session j u r hu hr
    refine ⟨places', Store.embeds_congr hplaces' fun k hk => ?_, hfirst', hothers'⟩
    have hne : root ≠ k := fun he => hothers' i root hroot hj (he ▸ hk)
    exact Store.frame_serve (Store.lt_of_embeds hplaces' hk) hne w.limit request

theorem move_holds (m : Move) (h : Holds w c) :
    (c.move m).1 = (w.move m).1 ∧ Holds (w.move m).2 (c.move m).2 := by
  cases m with
  | start limit =>
    simp only [move, Workspace.move, start, Workspace.start, h.limit]
    cases limit.elim (.ok w.limit) Limit.check with
    | ok n => exact ⟨rfl, holds_start h n⟩
    | error e => exact ⟨rfl, h⟩
  | ask i request =>
    simp only [move, Workspace.move, Workspace.step?]
    cases hs : w.sessions[i]? with
    | some s =>
      have hi : i < c.roots.size := h.size ▸ (Array.getElem?_eq_some_iff.mp hs).1
      have hroot : c.roots[i]? = some c.roots[i] := Array.getElem?_eq_getElem hi
      obtain ⟨hanswer, hholds⟩ := holds_ask h hs hroot request
      rw [hroot]
      exact ⟨congrArg some hanswer, hholds⟩
    | none =>
      have hroot : c.roots[i]? = none := by
        rw [Array.getElem?_eq_none_iff] at hs ⊢
        exact h.size ▸ hs
      rw [hroot]
      exact ⟨rfl, h⟩

theorem rooted_of_holds (h : Holds w c) {s : Session} (hs : w.sessions[i]? = some s)
    (hroot : c.roots[i]? = some root) :
    s.store.Rooted Session.root ∧ c.store.Rooted root := by
  obtain ⟨places, hplaces, hfirst, _⟩ := h.session i s root hs hroot
  exact ⟨Store.rooted_of_embeds_left hplaces hfirst, Store.rooted_of_embeds_right hplaces hfirst⟩

end Commons

namespace Move

variable {σ τ : Type} {next : Move → σ → Option Answer × σ} {next' : Move → τ → Option Answer × τ}
  {R : σ → τ → Prop}

theorem answersFrom_eq (hnext : ∀ m x y, R x y →
      (next m x).1 = (next' m y).1 ∧ R (next m x).2 (next' m y).2) (i : Nat) (moves : List Move)
    {x : σ} {y : τ} (h : R x y) :
    answersFrom next i moves x = answersFrom next' i moves y ∧
      R (stateAfter next moves x) (stateAfter next' moves y) := by
  induction moves generalizing x y with
  | nil => exact ⟨rfl, h⟩
  | cons m moves ih =>
    obtain ⟨hanswer, hstate⟩ := hnext m x y h
    obtain ⟨hanswers, hafter⟩ := ih hstate
    refine ⟨?_, hafter⟩
    rw [answersFrom, answersFrom, hanswer, hanswers]

end Move

namespace Workspace

/-- A session that is not there yet is a fresh one. -/
def session (w : Workspace) (i : Nat) : Session := w.sessions[i]?.getD Session.fresh

theorem session_start (limit : Option Int) (w : Workspace) (i : Nat) :
    (w.move (.start limit)).2.session i = w.session i := by
  simp only [move, start]
  cases limit.elim (.ok w.limit) Limit.check with
  | error e => rfl
  | ok n =>
    change ((w.sessions.push Session.fresh)[i]?).getD _ = (w.sessions[i]?).getD _
    rw [Array.getElem?_push]
    split
    · next hi => rw [hi, Array.getElem?_size]; rfl
    · rfl

theorem move_ask {w : Workspace} {j : Nat} {s : Session} (h : w.sessions[j]? = some s)
    (request : Request) : w.move (.ask j request) =
      (some (s.serve w.limit request).1,
        ⟨w.limit, w.sessions.setIfInBounds j (s.serve w.limit request).2⟩) := by
  simp only [move, step?, h, Option.map_some]

theorem move_ask_none {w : Workspace} {j : Nat} (h : w.sessions[j]? = none) (request : Request) :
    w.move (.ask j request) = (none, w) := by
  simp only [move, step?, h, Option.map_none]

theorem session_ask_of_ne {w : Workspace} {i j : Nat} (h : j ≠ i) (request : Request) :
    (w.move (.ask j request)).2.session i = w.session i := by
  cases hs : w.sessions[j]? with
  | some s =>
    rw [move_ask hs, session, session, Array.getElem?_setIfInBounds, if_neg h]
  | none => rw [move_ask_none hs]

theorem answersFrom_eq_served (i : Nat) (moves : List Move) (w : Workspace) :
    Move.answersFrom move i moves w = (w.session i).served (w.asked i moves) := by
  induction moves generalizing w with
  | nil => rfl
  | cons m moves ih =>
    cases m with
    | start limit =>
      rw [Move.answersFrom, ih, asked, session_start]
      rfl
    | ask j request =>
      rw [Move.answersFrom, ih, asked]
      by_cases hj : j = i
      · subst hj
        cases hs : w.sessions[j]? with
        | some s =>
          have hlt := (Array.getElem?_eq_some_iff.mp hs).1
          have hsession : w.session j = s := by rw [session, hs, Option.getD_some]
          have hnext : (⟨w.limit, w.sessions.setIfInBounds j (s.serve w.limit request).2⟩ :
              Workspace).session j = (s.serve w.limit request).2 := by
            rw [session, Array.getElem?_setIfInBounds, if_pos rfl, if_pos hlt, Option.getD_some]
          rw [move_ask hs, hsession, hnext]
          simp [Move.isTo, Session.served, hlt]
        | none =>
          have hlt : ¬ j < w.sessions.size := Nat.not_lt.mpr (Array.getElem?_eq_none_iff.mp hs)
          rw [move_ask_none hs]
          simp [Move.isTo, hlt]
      · rw [session_ask_of_ne hj]
        simp [Move.isTo, hj]

/-- Sessions are isolated, but for the limit: each gives the answers that it would give
alone, under the limits in force, whether every session has a store of its own or all have one
in common. In every state, the chain of each scope that a root reaches ends at this root. -/
theorem sessions_are_isolated (moves : List Move) :
    (∀ i, let alone := Session.fresh.served (empty.asked i moves)
      Move.answersFrom move i moves empty = alone ∧
        Move.answersFrom Commons.move i moves .empty = alone) ∧
    (∀ s ∈ (Move.stateAfter move moves empty).sessions, s.store.Rooted Session.root) ∧
    ∀ root ∈ (Move.stateAfter Commons.move moves .empty).roots,
      (Move.stateAfter Commons.move moves .empty).store.Rooted root := by
  have hrun (i : Nat) := Move.answersFrom_eq (fun m c w => Commons.move_holds (c := c) (w := w) m) i
    moves Commons.holds_empty
  have hholds := (hrun 0).2
  refine ⟨fun i => ⟨answersFrom_eq_served i moves empty, ?_⟩, fun s hs => ?_, fun root hroot => ?_⟩
  · exact (hrun i).1.trans (answersFrom_eq_served i moves empty)
  · obtain ⟨i, hi, rfl⟩ := Array.mem_iff_getElem.mp hs
    have hroot := Array.getElem?_eq_getElem (hholds.size.symm ▸ hi)
    exact (Commons.rooted_of_holds hholds (Array.getElem?_eq_getElem hi) hroot).1
  · obtain ⟨i, hi, rfl⟩ := Array.mem_iff_getElem.mp hroot
    have hs := Array.getElem?_eq_getElem (hholds.size ▸ hi)
    exact (Commons.rooted_of_holds hholds hs (Array.getElem?_eq_getElem hi)).2

theorem binding_in_one_of_two_sessions :
    let x : Symbol := ⟨"x", by decide⟩
    let moves : List Move := [.start none, .start (some 50), .ask 0 (.take (.bind x (.int 1))),
      .ask 1 (.take (.evaluate (.sym x)))]
    Move.answersFrom Commons.move 1 moves .empty =
        Session.fresh.served [(50, .take (.evaluate (.sym x)))] ∧
      (Move.stateAfter Commons.move moves .empty).store.Rooted 1 := by
  intro x moves
  have hasked : empty.asked 1 moves = [(50, .take (.evaluate (.sym x)))] := by
    rfl
  have hroots : (Move.stateAfter Commons.move moves .empty).roots = #[0, 1] := by
    rfl
  obtain ⟨hanswers, _, hrooted⟩ := sessions_are_isolated moves
  exact ⟨hasked ▸ (hanswers 1).2, hrooted 1 (by simp [hroots])⟩

end Workspace

end SmallLisp
