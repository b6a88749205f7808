import SmallLisp.Proofs.ScopeHistory
import SmallLisp.Proofs.SessionSteps
import SmallLisp.Proofs.ShapeErrors

namespace SmallLisp

namespace Store

variable {s t : Store} {scope home : ScopeId} {key : Symbol} {v : Value}

/-- What is found stays found, also where links lead to scopes that do not exist. -/
theorem find?_some_of_keeps (h : s.Keeps t) (hv : s.find? key scope = some v) :
    t.find? key scope = some v := by
  fun_induction find? s key scope with
  | case2 scope f hf w hw =>
    rw [find?, frame_of_keeps h hf]
    simp only [hw, hv]
  | case4 scope f hf hnone outer ho hlt ih =>
    rw [find?, frame_of_keeps h hf]
    simp only [hnone, ho, if_pos hlt, ih hv]
  | _ => cases hv

theorem find?_of_bindings (hv : (s.bindings scope).value? key = some v) :
    s.find? key scope = some v := by
  rw [bindings] at hv
  rw [find?]
  cases hf : s.frames[scope]? with
  | none =>
    rw [hf] at hv
    cases hv
  | some f =>
    rw [hf] at hv
    dsimp only at hv ⊢
    rw [hv]

theorem lt_of_find? (hv : s.find? key scope = some v) : scope < s.frames.size := by
  by_contra hs
  rw [find?, Array.getElem?_eq_none (Nat.not_lt.mp hs)] at hv
  cases hv

theorem keeps_opened (s : Store) (outer : Option ScopeId) (entries : List (Symbol × Value)) :
    s.Keeps (s.opened outer entries) := by
  intro i hi
  rw [frame_opened, if_neg (Nat.ne_of_lt hi)]

theorem find?_opened (hhome : home < s.frames.size) (entries : List (Symbol × Value)) (key : Symbol) :
    (s.opened (some home) entries).find? key s.frames.size =
      ((Bindings.putAll entries []).value? key).or ((s.opened (some home) entries).find? key home) := by
  rw [find?, frame_opened, if_pos rfl]
  cases hv : (Bindings.putAll entries []).value? key with
  | some v => simp only [hv, Option.some_or]
  | none => simp only [hv, if_pos hhome, Option.none_or]

end Store

namespace Run

variable {α β : Type} {limit levels n k : Nat} {m : Machine}

/-- With `levels` levels of evaluation left, the computation gives the value if `n` of them are
enough, and exceeds the limit otherwise. It prints nothing and changes no scope that exists. -/
def Needs (limit levels : Nat) (x : Run α) (n : Nat) (a : α) (m : Machine) : Prop :=
  ∃ m', x.run m = (if n ≤ levels then .ok a else .error (.tooDeep limit), m') ∧
    m'.shown = m.shown ∧ m.store.Keeps m'.store

theorem needs_pure (a : α) : Needs limit levels (pure a) 0 a m :=
  ⟨m, rfl, rfl, m.store.keeps_refl⟩

/-- One after the other, two computations need as much as the one that needs more. -/
theorem needs_bind {x : Run α} {f : α → Run β} {a : α} {b : β} (hx : Needs limit levels x n a m)
    (hf : ∀ m', m.store.Keeps m'.store → Needs limit levels (f a) k b m') :
    Needs limit levels (x >>= f) (max n k) b m := by
  obtain ⟨m', hrun, hshown, hkeeps⟩ := hx
  rw [Needs, run_bind, hrun]
  by_cases hn : n ≤ levels
  · obtain ⟨m'', hrun', hshown', hkeeps'⟩ := hf m' hkeeps
    have hmax : max n k ≤ levels ↔ k ≤ levels := by omega
    refine ⟨m'', ?_, hshown'.trans hshown, Store.keeps_trans hkeeps hkeeps'⟩
    simp only [if_pos hn, hrun', hmax]
  · have hmax : ¬ max n k ≤ levels := by omega
    refine ⟨m', ?_, hshown, hkeeps⟩
    rw [if_neg hn, if_neg hmax]

end Run

def SpecialForm.conditionalSymbol : Symbol := ⟨"if", by decide⟩

namespace Value

variable {base : Store} {scope home : ScopeId} {a b c n : Nat} {v w : Value}

/-- The form comes to the value in exactly so many levels of evaluation, itself included, in
every store that keeps the scopes of `base`. -/
def Needs (form : Value) (base : Store) (scope : ScopeId) (n : Nat) (v : Value) : Prop :=
  ∀ (limit levels : Nat) (m : Machine), base.Keeps m.store →
    Run.Needs limit levels (evalLevels limit levels form scope) n v m

inductive NeedsEach (base : Store) (scope : ScopeId) : List Value → Nat → List Value → Prop
  | nil : NeedsEach base scope [] 0 []
  | cons {form v : Value} {forms vs : List Value} {a b : Nat} (h : form.Needs base scope a v)
      (hs : NeedsEach base scope forms b vs) :
      NeedsEach base scope (form :: forms) (max a b) (v :: vs)

theorem needs_of_step {form : Value} (h : ∀ (limit levels : Nat) (m : Machine), base.Keeps m.store →
    Run.Needs limit levels (Eval.step (evalLevels limit levels) form scope) n v m) :
    form.Needs base scope (n + 1) v := by
  intro limit levels m hm
  cases levels with
  | zero => exact ⟨m, by rw [if_neg (Nat.not_succ_le_zero n)]; rfl, rfl, m.store.keeps_refl⟩
  | succ levels =>
    obtain ⟨m', hrun, hrest⟩ := h limit levels m hm
    refine ⟨m', ?_, hrest⟩
    rw [evalLevels, hrun]
    simp only [Nat.add_le_add_iff_right]

theorem needs_literal (hv : v.IsLiteral) : v.Needs base scope 1 v := by
  refine needs_of_step fun limit levels m _ => ?_
  cases v with
  | sym => cases hv
  | list => cases hv
  | _ => exact Run.needs_pure _

theorem needs_symbol {key : Symbol} (hv : base.find? key scope = some v) :
    (sym key).Needs base scope 1 v := by
  refine needs_of_step fun limit levels m hm => ⟨m, ?_, rfl, m.store.keeps_refl⟩
  rw [if_pos (Nat.zero_le levels)]
  exact Eval.symbol_run (Store.find?_some_of_keeps hm hv)

section Applications

variable {head : Value}

theorem needs_application {f : Value} {args : List Value} (hs : SpecialForm.ofHead? head = none)
    (hhead : head.Needs base scope a f)
    (hcall : ∀ (limit levels : Nat) (m : Machine), base.Keeps m.store →
      Run.Needs limit levels (match f with
        | .closure params body home => Eval.callClosure (evalLevels limit levels) params body home args scope
        | .operator op => Eval.callOperator (evalLevels limit levels) op args scope
        | v => pure v) n v m) :
    (list (head :: args)).Needs base scope (max a n + 1) v := by
  refine needs_of_step fun limit levels m hm => ?_
  rw [Eval.step, Eval.application, hs]
  exact Run.needs_bind (hhead limit levels m hm)
    fun m' hm' => hcall limit levels m' (Store.keeps_trans hm hm')

theorem needs_operator {op : Operator} {left right x : Value}
    (hs : SpecialForm.ofHead? head = none) (hhead : head.Needs base scope a (.operator op))
    (hl : left.Needs base scope b v) (hr : right.Needs base scope c w) (hx : op.apply v w = .ok x) :
    (list [head, left, right]).Needs base scope (max a (max b c) + 1) x := by
  refine needs_application hs hhead fun limit levels m hm => ?_
  have hresult (m : Machine) : Run.Needs limit levels (Run.ofExcept (op.apply v w)) 0 x m := by
    rw [hx]
    exact Run.needs_pure x
  rw [← Nat.max_zero c]
  exact Run.needs_bind (hl limit levels m hm) fun m₁ h₁ =>
    Run.needs_bind (hr limit levels m₁ (Store.keeps_trans hm h₁)) fun m₂ _ => hresult m₂

theorem needs_all {forms vs : List Value} (h : NeedsEach base scope forms n vs) {limit levels : Nat}
    {m : Machine} (hm : base.Keeps m.store) :
    Run.Needs limit levels (Eval.all (evalLevels limit levels) scope forms) n vs m := by
  induction h generalizing m with
  | nil => exact Run.needs_pure []
  | @cons form v forms vs a b h hs ih =>
    rw [← Nat.max_zero b]
    exact Run.needs_bind (h limit levels m hm) fun m₁ h₁ =>
      Run.needs_bind (ih (Store.keeps_trans hm h₁)) fun m₂ _ => Run.needs_pure _

/-- The call of a closure needs one level more than the deepest of its head, its arguments and
its body. The body is evaluated in a new scope that binds the parameters. -/
theorem needs_call {params : List Symbol} {body : Value} {args values : List Value}
    (hs : SpecialForm.ofHead? head = none)
    (hhead : head.Needs base scope a (.closure params body home))
    (hlength : params.length = args.length) (hargs : NeedsEach base scope args b values)
    (hbody : ∀ s, base.Keeps s →
      body.Needs (s.opened (some home) (params.zip values)) s.frames.size c v) :
    (list (head :: args)).Needs base scope (max a (max b c) + 1) v := by
  refine needs_application hs hhead fun limit levels m hm => ?_
  dsimp only
  rw [Eval.callClosure, if_pos hlength]
  refine Run.needs_bind (needs_all hargs hm) fun m₁ h₁ => ?_
  let inside : Machine := { m₁ with store := m₁.store.opened (some home) (params.zip values) }
  obtain ⟨m₂, hrun, hshown, hkeeps⟩ := hbody m₁.store (Store.keeps_trans hm h₁) limit levels inside
    inside.store.keeps_refl
  refine ⟨m₂, ?_, hshown, Store.keeps_trans (m₁.store.keeps_opened _ _) hkeeps⟩
  rw [Eval.enterBody_run]
  exact hrun

end Applications

theorem needs_conditional {test yes no t taken : Value} (ht : test.Needs base scope a t)
    (hbranch : (if t.isTruthy then yes else no) = taken) (h : taken.Needs base scope n v) :
    (list [.sym SpecialForm.conditionalSymbol, test, yes, no]).Needs base scope (max a n + 1) v := by
  refine needs_of_step fun limit levels m hm => ?_
  have hs : SpecialForm.ofHead? (.sym SpecialForm.conditionalSymbol) = some .conditional := rfl
  rw [Eval.step, Eval.application_special _ hs (show _ = Except.ok (Form.conditional _ _ _) from rfl)]
  refine Run.needs_bind (ht limit levels m hm) fun m₁ h₁ => ?_
  have hrun := h limit levels m₁ (Store.keeps_trans hm h₁)
  rw [← hbranch] at hrun
  cases htruthy : t.isTruthy with
  | true => rwa [htruthy] at hrun
  | false => rwa [htruthy] at hrun

theorem needs_sequence {form : Value} (h : form.Needs base scope n v) :
    (Program.sequence [form]).Needs base scope (n + 1) v := by
  refine needs_of_step fun limit levels m hm => ?_
  have hs : SpecialForm.ofHead? (.sym SpecialForm.sequenceSymbol) = some .sequence := rfl
  rw [Program.sequence, Eval.step, Eval.application_special _ hs rfl]
  exact h limit levels m hm

end Value

/-- A text of one form gives its value if the limit leaves the levels that the form needs, and
one for the text. Otherwise the limit is exceeded. The root has the same bindings afterwards. -/
theorem Session.submit_of_needs {s : Session} {text : String} {form v : Value} {limit n : Nat}
    (hread : Program.read limit text = .ok (Program.sequence [form]))
    (hroot : root < s.store.frames.size) (h : form.Needs s.store root n v) :
    (s.submit limit text).1 =
        ⟨if n + 1 ≤ limit then .ok v else .error (.evaluation (.tooDeep limit)), #[]⟩ ∧
      (s.submit limit text).2.bindings = s.bindings := by
  obtain ⟨m, hrun, hshown, hkeeps⟩ := Value.needs_sequence h limit limit ⟨s.store, #[]⟩ s.store.keeps_refl
  -- At depth 0 the whole limit is left.
  have heval : (eval limit 0 (Program.sequence [form]) root).run ⟨s.store, #[]⟩ = _ := hrun
  rw [submit_of_read hread]
  by_cases hn : n + 1 ≤ limit
  · rw [if_pos hn] at heval ⊢
    rw [evaluate_of_ok heval, hshown]
    exact ⟨rfl, Store.bindings_of_keeps hkeeps hroot⟩
  · rw [if_neg hn] at heval ⊢
    have hsize := Nat.lt_of_lt_of_le hroot (Store.size_le_of_keeps hkeeps)
    rw [evaluate_of_error heval, hshown]
    refine ⟨rfl, ?_⟩
    rw [bindings, Store.bindings_restore, if_pos ⟨rfl, hsize⟩]

end SmallLisp
