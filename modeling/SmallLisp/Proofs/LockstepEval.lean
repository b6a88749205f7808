import SmallLisp.Proofs.LockstepForm
import SmallLisp.Proofs.OperatorResult

namespace SmallLisp.Lockstep

variable {L : Lockstep} {W : L.World} {ev ev' : Evaluator} {s t : ScopeId}

abbrev ReadsEach (L : Lockstep) (W : L.World) (vs : List Value) (s t : ScopeId) : Prop :=
  ∀ v ∈ vs, L.reads W v s t

theorem readsEach_later {X : L.World} (hX : L.Later W X) {vs : List Value}
    (h : L.ReadsEach W vs s t) : L.ReadsEach X vs s t :=
  fun v hv => L.reads_mono hX (h v hv)

theorem alikeEach_later {X : L.World} (hX : L.Later W X) {vs ws : List Value}
    (h : L.AlikeEach W vs ws) : L.AlikeEach X vs ws :=
  h.imp fun _ _ => alike_later hX

theorem alikeBindings_later {X : L.World} (hX : L.Later W X) {bs cs : Bindings}
    (h : L.AlikeBindings W bs cs) : L.AlikeBindings X bs cs :=
  h.imp fun _ _ hb => ⟨hb.1, alike_later hX hb.2⟩

theorem node_unboundValue {k : Symbol} (h : L.node (.sym k)) : L.node (Eval.unboundValue k) := by
  unfold Eval.unboundValue
  split
  · exact L.node_nil
  · split
    · exact L.node_bool true
    · split
      · exact L.node_bool false
      · exact h

theorem symbol_runs {k : Symbol} (hn : L.node (.sym k)) (h : L.reads W (.sym k) s t) :
    L.Runs W L.Alike (Eval.symbol k s) (Eval.symbol k t) := by
  refine runs_bind (runs_find h) fun X x y _ hxy => ?_
  cases hxy with
  | some hv => exact runs_pure hv
  | none =>
    refine runs_pure (.atom ?_ (node_unboundValue hn))
    unfold Eval.unboundValue
    repeat' split
    all_goals trivial

theorem all_runs (hev : L.Evaluates ev ev') {vs ws : List Value} (h : L.AlikeEach W vs ws)
    (hr : L.ReadsEach W vs s t) : L.Runs W L.AlikeEach (Eval.all ev s vs) (Eval.all ev' t ws) := by
  induction vs generalizing W ws with
  | nil =>
    cases h
    exact runs_pure .nil
  | cons v vs ih =>
    obtain _ | ⟨hv, hvs⟩ := h
    refine runs_bind (hev _ _ _ _ _ hv (hr _ (.head _))) fun X a b hX ha => ?_
    have hrest : L.ReadsEach X vs s t := readsEach_later hX fun v hv => hr v (.tail _ hv)
    refine runs_bind (ih (alikeEach_later hX hvs) hrest) fun Y as bs hY has => ?_
    exact runs_pure (.cons (alike_later hY ha) has)

theorem sequence_runs (hev : L.Evaluates ev ev') {vs ws : List Value} (h : L.AlikeEach W vs ws)
    (hr : L.ReadsEach W vs s t) :
    L.Runs W L.Alike (Eval.sequence ev s vs) (Eval.sequence ev' t ws) := by
  induction vs generalizing W ws with
  | nil =>
    cases h
    exact runs_pure (.atom trivial L.node_nil)
  | cons v vs ih =>
    obtain _ | ⟨hv, _ | ⟨hw, hvs⟩⟩ := h
    · exact hev _ _ _ _ _ hv (hr _ (.head _))
    · refine runs_bind (hev _ _ _ _ _ hv (hr _ (.head _))) fun X _ _ hX _ => ?_
      exact ih (alikeEach_later hX (.cons hw hvs)) (readsEach_later hX fun v hv => hr v (.tail _ hv))

theorem putEach_runs {bs cs : Bindings} (h : L.AlikeBindings W bs cs)
    (hw : ∀ k, L.writes W k s t) :
    L.Runs W (fun _ _ _ => True) (Eval.putEach s bs) (Eval.putEach t cs) := by
  induction bs generalizing W cs with
  | nil =>
    cases h
    exact runs_pure trivial
  | cons b bs ih =>
    obtain ⟨k, v⟩ := b
    cases h with
    | @cons _ c _ cs hb hbs =>
      obtain ⟨l, w⟩ := c
      obtain ⟨rfl, hv⟩ : k = l ∧ L.Alike W v w := hb
      refine runs_bind (runs_put (hw _) hv) fun X _ _ hX _ => ?_
      exact ih (alikeBindings_later hX hbs) fun k => L.writes_mono hX (hw k)

theorem bindEach_runs (hev : L.Evaluates ev ev') {bs cs : Bindings}
    (h : L.AlikeBindings W bs cs) (hr : L.ReadsEach W (bs.map (·.2)) s t)
    (hw : ∀ k, L.writes W k s t) :
    L.Runs W (fun _ _ _ => True) (Eval.bindEach ev s bs) (Eval.bindEach ev' t cs) := by
  induction bs generalizing W cs with
  | nil =>
    cases h
    exact runs_pure trivial
  | cons b bs ih =>
    obtain ⟨k, v⟩ := b
    cases h with
    | @cons _ c _ cs hb hbs =>
      obtain ⟨l, w⟩ := c
      obtain ⟨rfl, hv⟩ : k = l ∧ L.Alike W v w := hb
      refine runs_bind (hev _ _ _ _ _ hv (hr _ (.head _))) fun X a b hX ha => ?_
      refine runs_bind (runs_put (L.writes_mono hX (hw _)) ha) fun Y _ _ hY _ => ?_
      have hXY := L.trans hX hY
      exact ih (alikeBindings_later hXY hbs) (readsEach_later hXY fun v hv => hr v (.tail _ hv))
        fun k => L.writes_mono hXY (hw k)

theorem boolean_runs (hev : L.Evaluates ev ev') (special : SpecialForm) {v w : Value}
    (h : L.Alike W v w) (hr : L.reads W v s t) :
    L.Runs W (fun _ => (· = ·)) (Eval.boolean ev special v s) (Eval.boolean ev' special w t) := by
  refine runs_bind (hev _ _ _ _ _ h hr) fun X a b _ hab => ?_
  cases hab with
  | atom ha hn =>
    cases a with
    | bool b => exact runs_pure rfl
    | _ => exact runs_throw (L.error_boolean special _)
  | list hn h => exact runs_throw (L.error_boolean special _)
  | closure h hl => exact runs_throw (L.error_boolean special _)

theorem items_runs (hev : L.Evaluates ev ev') (special : SpecialForm) {v w : Value}
    (h : L.Alike W v w) (hr : L.reads W v s t) :
    L.Runs W (fun _ as bs => L.node (.list as) ∧ as.length = bs.length) (Eval.items ev special v s)
      (Eval.items ev' special w t) := by
  refine runs_bind (hev _ _ _ _ _ h hr) fun X a b _ hab => ?_
  cases hab with
  | atom ha hn =>
    cases a with
    | list _ => cases ha
    | _ => exact runs_throw (L.error_list special _)
  | list hn h => exact runs_pure ⟨hn, h.length_eq⟩
  | closure h hl => exact runs_throw (L.error_list special _)

theorem letStar_runs (hev : L.Evaluates ev ev') {bs cs : Bindings} {v w : Value}
    (hbs : L.AlikeBindings W bs cs) (hv : L.Alike W v w)
    (hi : ∀ u ∈ v :: bs.map (·.2), L.opens W u s t) :
    L.Runs W L.Alike (Eval.form ev s (.letStar bs v)) (Eval.form ev' t (.letStar cs w)) := by
  refine runs_bind (runs_create (hi v (.head _))) fun X i j hX ⟨hr, hw⟩ => ?_
  have hreads : L.ReadsEach X (bs.map (·.2)) i j := fun u hu => hr u (hi u (.tail _ hu))
  refine runs_bind (bindEach_runs hev (alikeBindings_later hX hbs) hreads hw) fun Y _ _ hY _ => ?_
  exact hev _ _ _ _ _ (alike_later (L.trans hX hY) hv) (L.reads_mono hY (hr v (hi v (.head _))))

theorem conditional_runs (hev : L.Evaluates ev ev') {v v' w w' : Value} {x y : Option Value}
    (hv : L.Alike W v w) (hv' : L.Alike W v' w') (hx : Option.Rel (L.Alike W) x y)
    (hp : L.ReadsEach W (v :: v' :: x.toList) s t) :
    L.Runs W L.Alike (Eval.form ev s (.conditional v v' x)) (Eval.form ev' t (.conditional w w' y)) := by
  refine runs_bind (hev _ _ _ _ _ hv (hp v (.head _))) fun X a b hX hab => ?_
  rw [hab.isTruthy_eq]
  have hreads : L.ReadsEach X (v :: v' :: x.toList) s t := readsEach_later hX hp
  split
  · exact hev _ _ _ _ _ (alike_later hX hv') (hreads v' (.tail _ (.head _)))
  · cases hx with
    | none => exact runs_pure (.atom trivial L.node_nil)
    | some h => exact hev _ _ _ _ _ (alike_later hX h) (hreads _ (by simp))

theorem connective_runs (hev : L.Evaluates ev ev') (c : Connective) {v v' w w' : Value}
    (hv : L.Alike W v w) (hv' : L.Alike W v' w') (hp : L.ReadsEach W [v, v'] s t) :
    L.Runs W L.Alike (Eval.form ev s (.connective c v v')) (Eval.form ev' t (.connective c w w')) := by
  refine runs_bind (boolean_runs hev _ hv (hp v (.head _))) fun X a b hX hab => ?_
  subst hab
  have hr := L.reads_mono hX (hp v' (.tail _ (.head _)))
  refine runs_bind (boolean_runs hev _ (alike_later hX hv') hr) fun Y a' b' _ hab' => ?_
  subst hab'
  exact runs_pure (.atom trivial (L.node_bool _))

theorem isList_runs (hev : L.Evaluates ev ev') {v w : Value} (hv : L.Alike W v w)
    (hr : L.reads W v s t) :
    L.Runs W L.Alike (Eval.form ev s (.isList v)) (Eval.form ev' t (.isList w)) := by
  refine runs_bind (hev _ _ _ _ _ hv hr) fun X a b _ hab => ?_
  cases hab with
  | atom ha hn =>
    cases a with
    | list _ => cases ha
    | _ => exact runs_pure (.atom trivial (L.node_bool false))
  | list hn h => exact runs_pure (.atom trivial (L.node_bool true))
  | closure h hl => exact runs_pure (.atom trivial (L.node_bool false))

theorem sameKind_runs (hev : L.Evaluates ev ev') {v v' w w' : Value} (hv : L.Alike W v w)
    (hv' : L.Alike W v' w') (hp : L.ReadsEach W [v, v'] s t) :
    L.Runs W L.Alike (Eval.form ev s (.sameKind v v')) (Eval.form ev' t (.sameKind w w')) := by
  refine runs_bind (hev _ _ _ _ _ hv (hp v (.head _))) fun X a b hX hab => ?_
  have hr := L.reads_mono hX (hp v' (.tail _ (.head _)))
  refine runs_bind (hev _ _ _ _ _ (alike_later hX hv') hr) fun Y a' b' _ hab' => ?_
  rw [hab.kind_eq, hab'.kind_eq]
  exact runs_pure (.atom trivial (L.node_bool _))

theorem form_runs (hev : L.Evaluates ev ev') {f g : Form} (h : f.Alike (L.Alike W) g)
    (hp : L.ReadsEach W f.parts s t) (hi : ∀ u ∈ f.innerParts, L.opens W u s t)
    (hl : ∀ params body, f = .lambda params body → L.holds W body s t)
    (hb : ∀ k ∈ f.binds, L.writes W k s t) :
    L.Runs W L.Alike (Eval.form ev s f) (Eval.form ev' t g) := by
  cases h with
  | define name hv =>
    refine runs_bind (hev _ _ _ _ _ hv (hp _ (.head _))) fun X a b hX hab => ?_
    refine runs_bind (runs_put (L.writes_mono hX (hb _ (.head _))) hab) fun Y _ _ hY _ => ?_
    exact runs_pure (alike_later hY hab)
  | letStar hbs hv => exact letStar_runs hev hbs hv hi
  | lambda params hv => exact runs_pure (.closure hv (hl _ _ rfl))
  | sequence hvs => exact sequence_runs hev hvs hp
  | conditional hv hv' hx => exact conditional_runs hev hv hv' hx hp
  | connective c hv hv' => exact connective_runs hev c hv hv' hp
  | negation hv =>
    refine runs_bind (boolean_runs hev _ hv (hp _ (.head _))) fun X a b _ hab => ?_
    subst hab
    exact runs_pure (.atom trivial (L.node_bool _))
  | print hv =>
    refine runs_bind (hev _ _ _ _ _ hv (hp _ (.head _))) fun X a b _ hab => ?_
    exact runs_bind (runs_print hab) fun _ _ _ _ _ => runs_pure (.atom trivial L.node_nil)
  | literalList hvs => exact runs_pure hvs
  | isList hv => exact isList_runs hev hv (hp _ (.head _))
  | isEmpty hv =>
    refine runs_bind (items_runs hev _ hv (hp _ (.head _))) fun X as bs _ ⟨_, hl⟩ => ?_
    have he : as.isEmpty = bs.isEmpty := by
      rw [Bool.eq_iff_iff, List.isEmpty_iff_length_eq_zero, List.isEmpty_iff_length_eq_zero, hl]
    rw [he]
    exact runs_pure (.atom trivial (L.node_bool _))
  | count hv =>
    refine runs_bind (items_runs hev _ hv (hp _ (.head _))) fun X as bs _ ⟨hn, hl⟩ => ?_
    rw [← hl]
    exact runs_pure (.atom trivial (L.node_length hn))
  | sameKind hv hv' => exact sameKind_runs hev hv hv' hp

theorem zip_alike {vs ws : List Value} (params : List Symbol) (h : L.AlikeEach W vs ws) :
    L.AlikeBindings W (params.zip vs) (params.zip ws) := by
  induction params generalizing vs ws with
  | nil => exact .nil
  | cons k params ih =>
    cases h with
    | nil => exact .nil
    | cons hv h => exact .cons ⟨rfl, hv⟩ (ih h)

theorem enterBody_runs (hev : L.Evaluates ev ev') (params : List Symbol) {b c : Value}
    {i j : ScopeId} (hbody : L.Alike W b c) (hh : L.holds W b i j) {vs ws : List Value}
    (h : L.AlikeEach W vs ws) :
    L.Runs W L.Alike (Eval.enterBody ev params b i vs) (Eval.enterBody ev' params c j ws) := by
  have ho := L.opens_of_holds hh
  refine runs_bind (runs_create ho) fun X i' j' hX ⟨hr', hw'⟩ => ?_
  have hzip := alikeBindings_later hX (zip_alike params h)
  refine runs_bind (putEach_runs hzip hw') fun Y _ _ hY _ => ?_
  exact hev _ _ _ _ _ (alike_later (L.trans hX hY) hbody) (L.reads_mono hY (hr' b ho))

theorem callClosure_runs (hev : L.Evaluates ev ev') (params : List Symbol) {b c : Value}
    {i j : ScopeId} (hbody : L.Alike W b c) (hh : L.holds W b i j) {vs ws : List Value}
    (h : L.AlikeEach W vs ws) (hr : L.ReadsEach W vs s t) :
    L.Runs W L.Alike (Eval.callClosure ev params b i vs s) (Eval.callClosure ev' params c j ws t) := by
  unfold Eval.callClosure
  rw [← h.length_eq]
  split
  · -- The arguments are evaluated in the scope of the call, and only the body is not.
    refine runs_bind (all_runs hev h hr) fun X as bs hX has => ?_
    exact enterBody_runs hev params (alike_later hX hbody) (L.holds_mono hX hh) has
  · exact runs_throw (L.error_arity _ _)

/-- Operators do not look into closures. -/
theorem apply_eq (op : Operator) {v w v' w' : Value} (h : L.Alike W v w) (h' : L.Alike W v' w') :
    op.apply v v' = op.apply w w' := by
  cases h with
  | atom ha hn =>
    cases h' with
    | atom ha' hn' => rfl
    | list hn' h' => cases op <;> cases v <;> rfl
    | closure h' hl' => cases op <;> cases v <;> rfl
  | list hn h => cases op <;> cases h' <;> rfl
  | closure h hl => cases op <;> cases h' <;> rfl

theorem isAtom_of_result {x : Value} (h : Operator.Result x) : x.IsAtom := by
  cases h <;> trivial

theorem callOperator_runs (hev : L.Evaluates ev ev') (op : Operator) {vs ws : List Value}
    (h : L.AlikeEach W vs ws) (hr : L.ReadsEach W vs s t) :
    L.Runs W L.Alike (Eval.callOperator ev op vs s) (Eval.callOperator ev' op ws t) := by
  obtain _ | ⟨hv, _ | ⟨hw, _ | ⟨hx, h⟩⟩⟩ := h
  · exact runs_throw (L.error_arity _ _)
  · exact runs_throw (L.error_arity _ _)
  · refine runs_bind (hev _ _ _ _ _ hv (hr _ (.head _))) fun X a b hX hab => ?_
    have hr' := L.reads_mono hX (hr _ (.tail _ (.head _)))
    refine runs_bind (hev _ _ _ _ _ (alike_later hX hw) hr') fun Y a' b' hY hab' => ?_
    have hab := alike_later hY hab
    rw [← apply_eq op hab hab']
    cases hop : op.apply a a' with
    | ok x => exact runs_pure (.atom (isAtom_of_result (Operator.apply_ok hop))
        (L.node_apply hab.node_of_isAtom hab'.node_of_isAtom hop))
    | error e => exact runs_throw (L.error_apply hab.node_of_isAtom hab'.node_of_isAtom hop)
  · simp only [Eval.callOperator, List.length_cons, h.length_eq]
    exact runs_throw (L.error_arity _ _)

theorem application_runs (hev : L.Evaluates ev ev') {v w : Value} {vs ws : List Value}
    (hn : L.node (.list (v :: vs))) (hv : L.Alike W v w) (hvs : L.AlikeEach W vs ws)
    (hr : L.reads W (.list (v :: vs)) s t) :
    L.Runs W L.Alike (Eval.application ev v vs s) (Eval.application ev' w ws t) := by
  unfold Eval.application
  rw [← hv.ofHead?_eq]
  cases hs : SpecialForm.ofHead? v with
  | some special =>
    -- Both checks come to a form, or both to a fault, so that the two runs never part.
    have hc := ofTail_checks special hn hvs
    dsimp only
    generalize hf : Form.ofTail special vs = f at hc
    generalize Form.ofTail special ws = g at hc
    cases hc with
    | ok h =>
      obtain ⟨hp, hi, hb⟩ := L.reads_form hr hs hf
      refine form_runs hev h hp hi (fun params body he => ?_) hb
      subst he
      exact L.holds_of_lambda hr hs hf (hi body (.head _))
    | error h => exact runs_throw (L.error_shape h)
  | none =>
    have hreads := L.reads_call hr hs
    refine runs_bind (hev _ _ _ _ _ hv (hreads v (.head _))) fun X a b hX hab => ?_
    have hvs' := alikeEach_later hX hvs
    have hr' : L.ReadsEach X vs s t := readsEach_later hX fun u hu => hreads u (.tail _ hu)
    cases hab with
    | atom ha hn =>
      cases a with
      | operator op => exact callOperator_runs hev op hvs' hr'
      | closure _ _ _ => cases ha
      | _ => exact runs_pure (.atom ha hn)
    | list hn h => exact runs_pure (.list hn h)
    | closure hb hl => exact callClosure_runs hev _ hb hl hvs' hr'

theorem step_evaluates (hev : L.Evaluates ev ev') : L.Evaluates (Eval.step ev) (Eval.step ev') := by
  intro W v w s t hv hr
  cases hv with
  | atom ha hn =>
    cases v with
    | sym k => exact symbol_runs hn hr
    | list _ => cases ha
    | _ => exact runs_pure (.atom ha hn)
  | list hn h =>
    cases h with
    | nil => exact runs_pure (.atom trivial L.node_zero)
    | cons hv hvs => exact application_runs hev hn hv hvs hr
  | closure hb hl => exact runs_pure (.closure hb hl)

/-- Evaluations of alike forms stay in step, if the errors at the limits correspond. -/
theorem evalLevels_evaluates (limit limit' : Nat)
    (hl : L.error (.tooDeep limit) (.tooDeep limit')) (levels : Nat) :
    L.Evaluates (evalLevels limit levels) (evalLevels limit' levels) := by
  induction levels with
  | zero => exact fun _ _ _ _ _ _ _ => runs_throw hl
  | succ levels ih => exact step_evaluates ih

end SmallLisp.Lockstep
