import SmallLisp.Proofs.FailedInput
import SmallLisp.Proofs.ScopeChains
import SmallLisp.Proofs.SharedStore

namespace SmallLisp

/-- What is asked of a session. All closures in the form or the value of a step hold the root
of the session. -/
inductive Request where
  | read (text : String)
  | take (step : Step)

namespace Store

def evaluate (limit : Nat) (form : Value) (root : ScopeId) (s : Store) : Reply × Store :=
  match (eval limit 0 form root).run ⟨s, #[]⟩ with
  | (.ok v, m) => (⟨.ok v, m.shown⟩, m.store)
  | (.error e, m) => (⟨.error (.evaluation e), m.shown⟩, m.store.restore root (s.bindings root))

def take (limit : Nat) (root : ScopeId) (step : Step) (s : Store) : Option Reply × Store :=
  match step with
  | .submit text =>
    match Program.read limit text with
    | .ok form => (some (s.evaluate limit form root).1, (s.evaluate limit form root).2)
    | .error e => (some ⟨.error (.reading e), #[]⟩, s)
  | .evaluate form => (some (s.evaluate limit form root).1, (s.evaluate limit form root).2)
  | .bind key value => (none, s.put root key value)

def answer (root : ScopeId) (reply : Option Reply) (s : Store) : Answer where
  result := reply.map fun r => (r.result.map Value.display).mapError Fault.report
  printed := (reply.map (·.printed)).getD #[]
  root := (s.bindings root).map fun entry => (entry.1.name, entry.2.display, entry.2.inspect)

def serve (limit : Nat) (root : ScopeId) (request : Request) (s : Store) : Answer × Store :=
  match request with
  | .read text => (s.answer root (some ⟨(Program.read limit text).mapError .reading, #[]⟩), s)
  | .take step =>
    let (reply, t) := s.take limit root (step.mapScopes fun _ => root)
    (t.answer root reply, t)

end Store

namespace Session

def serve (limit : Nat) (request : Request) (s : Session) : Answer × Session :=
  match request with
  | .read text => (s.answer (some ⟨(Program.read limit text).mapError .reading, #[]⟩), s)
  | .take step =>
    let (reply, t) := s.take limit (step.mapScopes fun _ => root)
    (t.answer reply, t)

variable {s : Session} {limit : Nat}

theorem evaluate_store (limit : Nat) (form : Value) (s : Session) :
    s.evaluate limit form =
      ((s.store.evaluate limit form root).1, ⟨(s.store.evaluate limit form root).2⟩) := by
  rw [evaluate, Store.evaluate]
  rcases (eval limit 0 form root).run ⟨s.store, #[]⟩ with ⟨_ | _, _⟩ <;> rfl

theorem take_store (limit : Nat) (step : Step) (s : Session) :
    s.take limit step = ((s.store.take limit root step).1, ⟨(s.store.take limit root step).2⟩) := by
  cases step with
  | submit text =>
    rw [take, submit, Store.take]
    cases Program.read limit text with
    | ok form => simp only [evaluate_store]
    | error e => rfl
  | evaluate form => simp only [take, Store.take, evaluate_store]
  | bind key value => rfl

theorem serve_store (limit : Nat) (request : Request) (s : Session) :
    s.serve limit request =
      ((s.store.serve limit root request).1, ⟨(s.store.serve limit root request).2⟩) := by
  cases request with
  | read text => rfl
  | take step =>
    simp only [serve, Store.serve, take_store]
    rfl

end Session

namespace Store

variable {places : List ScopeId} {i j k : ScopeId} {s t : Store}

theorem evaluate_of_ok {limit : Nat} {form v : Value} {m : Machine}
    (h : (eval limit 0 form i).run ⟨s, #[]⟩ = (.ok v, m)) :
    s.evaluate limit form i = (⟨.ok v, m.shown⟩, m.store) := by
  rw [evaluate, h]

theorem evaluate_of_error {limit : Nat} {form : Value} {e : EvalError} {m : Machine}
    (h : (eval limit 0 form i).run ⟨s, #[]⟩ = (.error e, m)) :
    s.evaluate limit form i =
      (⟨.error (.evaluation e), m.shown⟩, m.store.restore i (s.bindings i)) := by
  rw [evaluate, h]

theorem answer_embeds (h : s.Embeds places t) (hij : places[i]? = some j) {x y : Option Reply}
    (hresult : Option.Rel (fun r r' => Agree (fun e e' => e.report = e'.report)
      (Value.Placed places) r.result r'.result ∧ r.printed = r'.printed) x y) :
    s.answer i x = t.answer j y := by
  have hroot : ((s.bindings i).map fun e => (e.1.name, e.2.display, e.2.inspect)) =
      (t.bindings j).map fun e => (e.1.name, e.2.display, e.2.inspect) :=
    Value.Alike.map_eq_map ((bindings_embeds h hij).imp fun p q hpq => by
      rw [hpq.1, hpq.2.display_eq, hpq.2.inspect_eq])
  rw [answer, answer, hroot]
  cases hresult with
  | none => rfl
  | some hr =>
    obtain ⟨hr, hp⟩ := hr
    simp only [Option.map_some, hp]
    generalize Reply.result _ = a at hr
    generalize Reply.result _ = b at hr
    cases hr with
    | ok h => rw [Except.map, Except.map, h.display_eq]
    | error h => rw [Except.map, Except.map, Except.mapError, Except.mapError, h]

theorem evaluate_embeds (h : s.Embeds places t) (hij : places[i]? = some j) (limit : Nat)
    {v w : Value} (hv : v.Placed places w) :
    ∃ more, (∀ k ∈ more, t.frames.size ≤ k) ∧
      (s.evaluate limit v i).2.Embeds (places ++ more) (t.evaluate limit w j).2 ∧
      (s.evaluate limit v i).2.answer i (some (s.evaluate limit v i).1) =
        (t.evaluate limit w j).2.answer j (some (t.evaluate limit w j).1) := by
  obtain ⟨more, hmore, hstore, hp, hr⟩ := eval_embeds h hij limit hv
  have hij' : (places ++ more)[i]? = some j := place_append hij
  refine ⟨more, hmore, ?_⟩
  rcases hx : (eval limit 0 v i).run ⟨s, #[]⟩ with ⟨x, m⟩
  rcases hy : (eval limit 0 w j).run ⟨t, #[]⟩ with ⟨y, n⟩
  rw [hx, hy] at hstore hp hr
  cases hr with
  | ok ha =>
    rw [evaluate_of_ok hx, evaluate_of_ok hy]
    exact ⟨hstore, answer_embeds hstore hij' (.some ⟨.ok ha, hp⟩)⟩
  | error he =>
    rw [evaluate_of_error hx, evaluate_of_error hy]
    have hsaved : (s.bindings i).Alike (Value.Placed (places ++ more)) (t.bindings j) :=
      (bindings_embeds h hij).imp fun _ _ hb => ⟨hb.1, hb.2.mono fun _ _ _ => place_append⟩
    have hrestored := embeds_restore hstore hij' hsaved
    exact ⟨hrestored, answer_embeds hrestored hij' (.some ⟨.error he, hp⟩)⟩

theorem frame_evaluate (hk : k < t.frames.size) (hj : j ≠ k) (limit : Nat) (form : Value) :
    (t.evaluate limit form j).2.frames[k]? = t.frames[k]? := by
  have hextends := FrameEffect.eval_extends ⟨t, #[]⟩ limit 0 form j
  rcases hx : (eval limit 0 form j).run ⟨t, #[]⟩ with ⟨e | v, m⟩
  · rw [hx] at hextends
    rw [evaluate_of_error hx, frame_restore, if_neg hj]
    exact frame_of_extends hextends hk (Ne.symm hj)
  · rw [hx] at hextends
    rw [evaluate_of_ok hx]
    exact frame_of_extends hextends hk (Ne.symm hj)

theorem serve_embeds (h : s.Embeds places t) (hij : places[i]? = some j) (limit : Nat)
    (request : Request) :
    ∃ more, (∀ k ∈ more, t.frames.size ≤ k) ∧
      (s.serve limit i request).2.Embeds (places ++ more) (t.serve limit j request).2 ∧
      (s.serve limit i request).1 = (t.serve limit j request).1 := by
  have hplaces : s.Embeds (places ++ []) t := by rwa [List.append_nil]
  cases request with
  | read text =>
    refine ⟨[], nofun, hplaces, answer_embeds h hij (.some ⟨?_, rfl⟩)⟩
    cases hread : Program.read limit text with
    | ok form => exact .ok (Program.alike_of_read hread)
    | error e => exact .error rfl
  | take step =>
    cases step with
    | submit text =>
      simp only [serve, take, Step.mapScopes]
      cases hread : Program.read limit text with
      | ok form => exact evaluate_embeds h hij limit (Program.alike_of_read hread)
      | error e => exact ⟨[], nofun, hplaces, answer_embeds h hij (.some ⟨.error rfl, rfl⟩)⟩
    | evaluate form => exact evaluate_embeds h hij limit (Value.placed_mapScopes hij form)
    | bind key value =>
      have hput := embeds_put h hij key (Value.placed_mapScopes hij value)
      have hanswer := answer_embeds hput hij .none
      rw [← List.append_nil places] at hput
      exact ⟨[], nofun, hput, hanswer⟩

theorem frame_serve (hk : k < t.frames.size) (hj : j ≠ k) (limit : Nat) (request : Request) :
    (t.serve limit j request).2.frames[k]? = t.frames[k]? := by
  cases request with
  | read text => rfl
  | take step =>
    cases step with
    | submit text =>
      simp only [serve, take, Step.mapScopes]
      cases Program.read limit text with
      | ok form => exact frame_evaluate hk hj limit form
      | error e => rfl
    | evaluate form => exact frame_evaluate hk hj limit _
    | bind key value => exact (frame_put _ _ _ _ _).trans (if_neg hj)

end Store
end SmallLisp
