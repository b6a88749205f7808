import SmallLisp.Proofs.FrameEffect
import SmallLisp.Proofs.ScopesClosed
import SmallLisp.Proofs.ScopeShift

namespace SmallLisp

def Step.mapScopes (f : ScopeId → ScopeId) : Step → Step
  | submit text => .submit text
  | evaluate form => .evaluate (form.mapScopes f)
  | bind key value => .bind key (value.mapScopes f)

inductive Step.Shifted (n g : Nat) : Step → Step → Prop
  | submit (text : String) : Shifted n g (.submit text) (.submit text)
  | evaluate {v w : Value} (h : v.Shifted n g w) : Shifted n g (.evaluate v) (.evaluate w)
  | bind (key : Symbol) {v w : Value} (h : v.Shifted n g w) : Shifted n g (.bind key v) (.bind key w)

theorem Value.shifted_of_within {n : Nat} (g : Nat) {v : Value} (h : v.Within n) :
    v.Shifted n g v :=
  h.mono fun _ i j hi => by rw [← hi.1, shift_of_lt hi.2]

namespace Step

theorem shifted_mapScopes (n g : Nat) (step : Step) :
    Shifted n g step (step.mapScopes (shift n g)) := by
  cases step with
  | submit text => exact .submit text
  | evaluate form => exact .evaluate (form.shifted_mapScopes n g)
  | bind key value => exact .bind key (value.shifted_mapScopes n g)

theorem shifted_of_within {n : Nat} (g : Nat) {step : Step} (h : ∀ v ∈ step.values, v.Within n) :
    Shifted n g step step := by
  cases step with
  | submit text => exact .submit text
  | evaluate form => exact .evaluate (form.shifted_of_within g (h form (.head _)))
  | bind key value => exact .bind key (value.shifted_of_within g (h value (.head _)))

end Step

theorem Store.shifted_of_keeps {s t : Store} (hs : s.Closed) (h : s.Keeps t) :
    s.Shifted s.frames.size (t.frames.size - s.frames.size) t := by
  have hle := size_le_of_keeps h
  refine ⟨Nat.le_refl _, (Nat.add_sub_cancel' hle).symm, fun i f hf => ?_⟩
  have hi : i < s.frames.size := (Array.getElem?_eq_some_iff.mp hf).1
  have hc := hs i f hf
  refine ⟨f, by rw [shift_of_lt hi, h i hi, hf], ?_, List.forall₂_same.mpr fun p hp => ?_⟩
  · cases ho : f.outer with
    | none => rfl
    | some o => rw [Option.map_some, shift_of_lt (Nat.lt_trans (hc.outer o ho) hi)]
  · exact ⟨rfl, Value.shifted_of_within _ (hc.within p hp)⟩

namespace Session

variable {n g : Nat} {s t : Session}

theorem shift_root (hn : 0 < n) : shift n g root = root := shift_of_lt hn

theorem bindings_shifted (hn : 0 < n) (h : s.store.Shifted n g t.store) :
    s.bindings.Alike (Value.Shifted n g) t.bindings := by
  have hb := Store.bindings_shifted h root (Nat.lt_of_lt_of_le hn h.le)
  rwa [shift_root hn] at hb

theorem shownRoot_shifted (hn : 0 < n) (h : s.store.Shifted n g t.store) :
    s.shownRoot = t.shownRoot := by
  refine Value.Alike.map_eq_map ((bindings_shifted hn h).imp fun p q hpq => ?_)
  rw [hpq.1, hpq.2.display_eq, hpq.2.inspect_eq]

theorem answer_shifted (hn : 0 < n) (h : s.store.Shifted n g t.store) {r r' : Reply}
    (hr : Agree (fun e e' => e.report = e'.report) (Value.Shifted n g) r.result r'.result)
    (hp : r.printed = r'.printed) : answer (some r) s = answer (some r') t := by
  have hresult : (r.result.map Value.display).mapError Fault.report =
      (r'.result.map Value.display).mapError Fault.report := by
    generalize r.result = x at hr
    generalize r'.result = y at hr
    cases hr with
    | ok h => exact congrArg Except.ok h.display_eq
    | error h => exact congrArg Except.error h
  simp only [answer, Option.map_some, Option.getD_some, hresult, hp, shownRoot_shifted hn h]

theorem evaluate_shifted (hn : 0 < n) (h : s.store.Shifted n g t.store) (limit : Nat)
    {v w : Value} (hv : v.Shifted n g w) :
    answer (some (s.evaluate limit v).1) (s.evaluate limit v).2 =
        answer (some (t.evaluate limit w).1) (t.evaluate limit w).2 ∧
      (s.evaluate limit v).2.store.Shifted n g (t.evaluate limit w).2.store := by
  obtain ⟨hr, hstore, hprinted⟩ := eval_shifted limit 0 ⟨s.store, #[]⟩ ⟨t.store, #[]⟩ h rfl hv root
  rw [shift_root hn] at hr hstore hprinted
  unfold evaluate
  rcases hx : (eval limit 0 v root).run ⟨s.store, #[]⟩ with ⟨x, m⟩
  rcases hy : (eval limit 0 w root).run ⟨t.store, #[]⟩ with ⟨y, m'⟩
  rw [hx, hy] at hr hstore hprinted
  cases hr with
  | ok ha => exact ⟨answer_shifted hn hstore (.ok ha) hprinted, hstore⟩
  | error he =>
    have hrestored := Store.shifted_restore hstore root (bindings_shifted hn h)
    rw [shift_root hn] at hrestored
    exact ⟨answer_shifted hn hrestored (.error he) hprinted, hrestored⟩

theorem take_shifted (hn : 0 < n) (h : s.store.Shifted n g t.store) (limit : Nat)
    {step step' : Step} (hstep : step.Shifted n g step') :
    answer (s.take limit step).1 (s.take limit step).2 =
        answer (t.take limit step').1 (t.take limit step').2 ∧
      (s.take limit step).2.store.Shifted n g (t.take limit step').2.store := by
  cases hstep with
  | submit text =>
    simp only [take, submit]
    cases hread : Program.read limit text with
    | ok form =>
      have hform : form.Shifted n g form := Value.shifted_of_within g (Program.within_of_read hread)
      exact evaluate_shifted hn h limit hform
    | error e => exact ⟨answer_shifted hn h (.error rfl) rfl, h⟩
  | evaluate hv => exact evaluate_shifted hn h limit hv
  | bind key hv =>
    have hput := Store.shifted_put h root key hv
    rw [shift_root hn] at hput
    have hroot := shownRoot_shifted (s := s.bind key _) (t := t.bind key _) hn hput
    exact ⟨by simp only [take, answer, hroot, Option.map_none], hput⟩

theorem answers_shifted (hn : 0 < n) {steps steps' : List (Nat × Step)}
    (hsteps : List.Forall₂ (fun p q => p.1 = q.1 ∧ p.2.Shifted n g q.2) steps steps')
    (h : s.store.Shifted n g t.store) : s.answers steps = t.answers steps' := by
  induction hsteps generalizing s t with
  | nil => rfl
  | @cons p q steps steps' hpq _ ih =>
    obtain ⟨limit, step⟩ := p
    obtain ⟨limit', step'⟩ := q
    obtain ⟨rfl, hstep⟩ : limit = limit' ∧ step.Shifted n g step' := hpq
    obtain ⟨hanswer, hnext⟩ := take_shifted hn h limit hstep
    rw [answers, answers, hanswer, ih hnext]

theorem keeps_of_failed_evaluate {limit : Nat} {form : Value} {fault : Fault}
    (h : (s.evaluate limit form).1.result = .error fault) :
    s.store.Keeps (s.evaluate limit form).2.store := by
  have hext := FrameEffect.eval_extends ⟨s.store, #[]⟩ limit 0 form root
  unfold evaluate at h ⊢
  dsimp only at h ⊢
  split at h
  · cases h
  · next e m hm =>
    rw [hm] at hext
    exact Store.keeps_restore hext

theorem keeps_of_failed_submit {limit : Nat} {text : String} {fault : Fault}
    (h : (s.submit limit text).1.result = .error fault) :
    s.store.Keeps (s.submit limit text).2.store := by
  unfold submit at h ⊢
  split at h
  · exact keeps_of_failed_evaluate h
  · exact fun _ _ => rfl

/-- An input that fails cannot be told from one that was never made: the root has the
same bindings in the same order, and all later steps show the same. Steps that bring
along closures made after the input refer to scopes by new numbers. -/
theorem failed_input_is_invisible (hs : Reached Knows s) {limit : Nat} {text : String}
    {fault : Fault} (h : (s.submit limit text).1.result = .error fault) :
    let t := (s.submit limit text).2
    let added := t.store.frames.size - s.store.frames.size
    t.bindings = s.bindings ∧ s.store.Keeps t.store ∧
      ∀ steps : List (Nat × Step),
        t.answers (steps.map fun p => (p.1, p.2.mapScopes (shift s.store.frames.size added))) =
            s.answers steps ∧
          ((∀ p ∈ steps, s.Knows p.2) → t.answers steps = s.answers steps) := by
  intro t added
  have hclosed := closed_of_reached hs
  have hkeeps : s.store.Keeps t.store := keeps_of_failed_submit h
  -- The scopes that the input left behind come after those of `s`, and nothing refers to
  -- them, so they can be taken as put in there.
  have hshifted := Store.shifted_of_keeps hclosed.store hkeeps
  refine ⟨?_, hkeeps, fun steps => ⟨?_, fun hsteps => ?_⟩⟩
  · rw [bindings, bindings, Store.bindings, Store.bindings, hkeeps root hclosed.root_lt]
  · refine (answers_shifted hclosed.root_lt ?_ hshifted).symm
    rw [List.forall₂_map_right_iff, List.forall₂_same]
    exact fun p _ => ⟨rfl, p.2.shifted_mapScopes _ _⟩
  · refine (answers_shifted hclosed.root_lt ?_ hshifted).symm
    exact List.forall₂_same.mpr fun p hp => ⟨rfl, Step.shifted_of_within _ (hsteps p hp)⟩

theorem failed_sum_is_invisible :
    (fresh.submit 9 "(def! x 1) (+ x)").1.result = .error (.evaluation (.arity 2 1)) ∧
      (fresh.submit 9 "(def! x 1) (+ x)").2.bindings = fresh.bindings := by
  have hread : Token.tokenize "(def! x 1) (+ x)" =
      ["(", "def!", "x", "1", ")", "(", "+", "x", ")"] := by decide +kernel
  have hfail : (fresh.submit 9 "(def! x 1) (+ x)").1.result =
      .error (.evaluation (.arity 2 1)) := by
    unfold submit Program.read
    rw [hread]
    with_unfolding_all rfl
  exact ⟨hfail, (failed_input_is_invisible .fresh hfail).1⟩

end Session

end SmallLisp
