import SmallLisp.Proofs.FrameEffect
import SmallLisp.Proofs.JoinedText
import SmallLisp.Proofs.SessionSteps

namespace SmallLisp

namespace Run

/-- What was printed before has no influence, and stays in front of what is printed. -/
def PrintsAfter {α : Type} (x : Run α) : Prop :=
  ∀ (shown : Array Value) (m : Machine), x.run ⟨m.store, shown ++ m.shown⟩ =
    ((x.run m).1, ⟨(x.run m).2.store, shown ++ (x.run m).2.shown⟩)

theorem printsAfter_congruence : Congruence fun _ _ y => y.PrintsAfter where
  pure _ _ _ := rfl
  throw _ _ _ := rfl
  bind := by
    intro α β x y f g hy hg shown m
    rw [run_bind, run_bind, hy shown m]
    rcases y.run m with ⟨e | a, n⟩
    · rfl
    · exact hg a shown n
  find? _ _ _ _ := rfl
  put _ _ _ _ _ := rfl
  create _ _ _ := rfl
  print v shown m := by
    change (Except.ok (), Machine.mk m.store ((shown ++ m.shown).push v)) = _
    rw [← Array.append_push]
    rfl

end Run

theorem eval_printsAfter (limit : Nat) (depth : Int) (form : Value) (scope : ScopeId) :
    (eval limit depth form scope).PrintsAfter := by
  have h := evalLevels_related Run.printsAfter_congruence limit limit 0 (fun _ _ _ _ => rfl)
    (limit - depth).toNat form scope
  rwa [Nat.zero_add] at h

theorem Eval.sequence_append (ev : Evaluator) (scope : ScopeId) (forms : List Value)
    {more : List Value} (h : more ≠ []) :
    sequence ev scope (forms ++ more) = sequence ev scope forms >>= fun _ => sequence ev scope more := by
  obtain ⟨next, rest, rfl⟩ := List.exists_cons_of_ne_nil h
  induction forms with
  | nil => rfl
  | cons form forms ih =>
    cases forms with
    | nil => rfl
    | cons _ _ =>
      have hrun := congrArg (fun later => ev form scope >>= fun _ => later) ih
      exact hrun.trans (bind_assoc _ _ _).symm

namespace Session

variable {limit : Nat} {s : Session}

def runForms (limit : Nat) (forms : List Value) (store : Store) : Except EvalError Value × Machine :=
  (eval limit 0 (Program.sequence forms) root).run ⟨store, #[]⟩

theorem ne_zero_of_runForms {forms : List Value} {store : Store} {v : Value} {m : Machine}
    (h : runForms limit forms store = (.ok v, m)) : limit ≠ 0 := by
  rintro rfl
  rw [runForms, eval_sequence] at h
  cases h

theorem runForms_nil (h : limit ≠ 0) (store : Store) :
    runForms limit [] store = (.ok .nil, ⟨store, #[]⟩) := by
  rw [runForms, eval_sequence, if_neg h]
  rfl

theorem runForms_append_of_ok {forms : List Value} {store : Store} {v : Value} {m : Machine}
    (h : runForms limit forms store = (.ok v, m)) (more : List Value) :
    runForms limit (forms ++ more) store =
      (if more = [] then .ok v else (runForms limit more m.store).1,
        ⟨(runForms limit more m.store).2.store,
          m.shown ++ (runForms limit more m.store).2.shown⟩) := by
  have hlimit := ne_zero_of_runForms h
  by_cases hmore : more = []
  · subst hmore
    rw [List.append_nil, h, runForms_nil hlimit, if_pos rfl, Array.append_empty]
  · rw [runForms, eval_sequence, if_neg hlimit] at h
    rw [if_neg hmore, runForms, runForms, eval_sequence, eval_sequence, if_neg hlimit, if_neg hlimit,
      Eval.sequence_append _ _ _ hmore, Run.run_bind, h]
    have hafter : (Eval.sequence (eval limit 1) root more).PrintsAfter :=
      @Eval.sequence_related _ Run.printsAfter_congruence (eval limit 1) (eval limit 1)
        (eval_printsAfter limit 1) root more
    have hmore := hafter m.shown ⟨m.store, #[]⟩
    rwa [Array.append_empty] at hmore

theorem runForms_append_of_error {forms : List Value} {store : Store} {e : EvalError} {m : Machine}
    (h : runForms limit forms store = (.error e, m)) (more : List Value) :
    runForms limit (forms ++ more) store = (.error e, m) := by
  by_cases hmore : more = []
  · rw [hmore, List.append_nil, h]
  · rw [runForms, eval_sequence] at h ⊢
    by_cases hlimit : limit = 0
    · rwa [if_pos hlimit] at h ⊢
    · rw [if_neg hlimit] at h ⊢
      rw [Eval.sequence_append _ _ _ hmore, Run.run_bind, h]

theorem submit_of_runForms {text : String} (hread : ∃ form, Program.read limit text = .ok form)
    {x : Except EvalError Value} {m : Machine}
    (h : runForms limit (Program.forms limit text) s.store = (x, m)) :
    (s.submit limit text).1 = ⟨x.mapError .evaluation, m.shown⟩ ∧
      ∀ v, x = .ok v → (s.submit limit text).2 = ⟨m.store⟩ := by
  rw [submit_of_read (Program.read_eq_forms hread)]
  cases x with
  | ok v =>
    rw [evaluate_of_ok h]
    exact ⟨rfl, fun _ _ => rfl⟩
  | error e =>
    rw [evaluate_of_error h]
    exact ⟨rfl, nofun⟩

theorem submit_of_runForms_error {text : String}
    (hread : ∃ form, Program.read limit text = .ok form) {e : EvalError} {m : Machine}
    (h : runForms limit (Program.forms limit text) s.store = (.error e, m)) :
    s.submit limit text =
      (⟨.error (.evaluation e), m.shown⟩, ⟨m.store.restore root s.bindings⟩) := by
  rw [submit_of_read (Program.read_eq_forms hread), evaluate_of_error h]

theorem ne_zero_of_submit {text : String} (hread : ∃ form, Program.read limit text = .ok form)
    {v : Value} (h : (s.submit limit text).1.result = .ok v) : limit ≠ 0 := by
  rcases hx : runForms limit (Program.forms limit text) s.store with ⟨e | w, m⟩
  · rw [submit_of_runForms_error hread hx] at h
    cases h
  · exact ne_zero_of_runForms hx

theorem submit_of_no_forms (h : limit ≠ 0) {text : String}
    (hread : ∃ form, Program.read limit text = .ok form) (hnone : Program.forms limit text = []) :
    (s.submit limit text).1.result = .ok .nil := by
  have hrun := runForms_nil h s.store
  rw [← hnone] at hrun
  rw [(submit_of_runForms hread hrun).1]
  rfl

theorem bindings_of_failed_submit {text : String} {fault : Fault}
    (h : (s.submit limit text).1.result = .error fault) :
    (s.submit limit text).2.bindings = s.bindings := by
  cases hread : Program.read limit text with
  | error e => rw [submit_of_unread hread]
  | ok form =>
    rw [submit_of_read hread] at h ⊢
    have hextends := FrameEffect.eval_extends ⟨s.store, #[]⟩ limit 0 form root
    rcases hx : (eval limit 0 form root).run ⟨s.store, #[]⟩ with ⟨e | v, m⟩
    · rw [hx] at hextends
      have hsize : s.store.frames.size ≤ m.store.frames.size := Store.size_le_of_extends hextends
      rw [evaluate_of_error hx, bindings, Store.bindings_restore]
      split
      · rfl
      · -- Without a root there are no bindings.
        next hroot =>
        have hle : m.store.frames.size ≤ root := Nat.not_lt.mp fun hlt => hroot ⟨rfl, hlt⟩
        have hs : s.store.frames[root]? = none := Array.getElem?_eq_none (Nat.le_trans hsize hle)
        have hm : m.store.frames[root]? = none := Array.getElem?_eq_none hle
        rw [bindings, Store.bindings, Store.bindings, hs, hm]
    · rw [evaluate_of_ok hx] at h
      cases h

theorem submit_newline_of_ok {a b : String} (ha : ∃ form, Program.read limit a = .ok form)
    (hclosed : ∀ t ∈ Token.tokenize a, Token.IsClosed t.toList)
    (hb : ∃ form, Program.read limit b = .ok form) {v : Value}
    (h : (s.submit limit a).1.result = .ok v) :
    let t := (s.submit limit a).2
    let both := s.submit limit (a ++ "\n" ++ b)
    both.1.result = (if Program.forms limit b = [] then .ok v else (t.submit limit b).1.result) ∧
      both.1.printed = (s.submit limit a).1.printed ++ (t.submit limit b).1.printed ∧
      ∀ w, (t.submit limit b).1.result = .ok w → both.2 = (t.submit limit b).2 := by
  intro t both
  have hread := Program.read_newline hclosed (Program.read_eq_forms ha) (Program.read_eq_forms hb)
  rcases hx : runForms limit (Program.forms limit a) s.store with ⟨x, m⟩
  obtain ⟨hfirst, hstore⟩ := submit_of_runForms ha hx
  obtain rfl : x = .ok v := by
    rw [hfirst] at h
    cases x with
    | ok v' => exact congrArg Except.ok (Except.ok.inj h)
    | error e => cases h
  have ht : t = ⟨m.store⟩ := hstore v rfl
  rcases hy : runForms limit (Program.forms limit b) t.store with ⟨y, n⟩
  obtain ⟨hsecond, hnext⟩ := submit_of_runForms hb hy
  have hz := runForms_append_of_ok hx (Program.forms limit b)
  rw [← Program.forms_of_read hread, show m.store = t.store by rw [ht], hy] at hz
  obtain ⟨hboth, hlast⟩ := submit_of_runForms ⟨_, hread⟩ hz
  rw [hboth, hfirst, hsecond]
  refine ⟨by split <;> rfl, Array.map_append, fun w hw => ?_⟩
  obtain ⟨w', rfl⟩ : ∃ w', y = .ok w' := by
    cases y with
    | ok w' => exact ⟨w', rfl⟩
    | error e => cases hw
  rw [hnext w' rfl]
  exact hlast (if Program.forms limit b = [] then v else w') (by split <;> rfl)

theorem submit_newline_of_error {a b : String} (ha : ∃ form, Program.read limit a = .ok form)
    (hclosed : ∀ t ∈ Token.tokenize a, Token.IsClosed t.toList)
    (hb : ∃ form, Program.read limit b = .ok form) {fault : Fault}
    (h : (s.submit limit a).1.result = .error fault) :
    s.submit limit (a ++ "\n" ++ b) = s.submit limit a := by
  have hread := Program.read_newline hclosed (Program.read_eq_forms ha) (Program.read_eq_forms hb)
  rcases hx : runForms limit (Program.forms limit a) s.store with ⟨e | v, m⟩
  · have hboth := runForms_append_of_error hx (Program.forms limit b)
    rw [← Program.forms_of_read hread] at hboth
    rw [submit_of_runForms_error ha hx, submit_of_runForms_error ⟨_, hread⟩ hboth]
  · rw [(submit_of_runForms ha hx).1] at h
    cases h

end Session

end SmallLisp
