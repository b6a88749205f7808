import SmallLisp.Proofs.ScopePairs
import SmallLisp.Proofs.ShapeErrors

namespace SmallLisp

namespace Form

def letStarOver (bs : Bindings) (forms : List Value) : Value :=
  .list (.sym SpecialForm.letStarSymbol :: .list (bs.flatMap fun b => [.sym b.1, b.2]) :: forms)

def callOver (bs : Bindings) (forms : List Value) : Value :=
  .list (.list (.sym SpecialForm.lambdaSymbol :: .list (bs.names.map .sym) :: forms) :: bs.map (·.2))

variable {forms : List Value} {body : Value}

theorem paramsOf_map (params : List Symbol) : paramsOf (params.map .sym) = .ok params := by
  induction params with
  | nil => rfl
  | cons name params ih =>
    change (paramsOf (params.map .sym) >>= fun rest => _) = _
    rw [ih]
    rfl

theorem ofTail_lambda_forms (params : List Symbol) (h : bodyOf forms = .ok body) :
    ofTail .lambda (.list (params.map .sym) :: forms) = .ok (.lambda params body) := by
  rw [ofTail, lambdaOf, paramsOf_map, h]
  rfl

end Form

namespace Insertion

variable {I : Insertion} {W : List Bool} {s t : Store} {c d : Bindings}

def withLocals (I : Insertion) (c : Bindings)
    (hc : ∀ key, ¬ I.hidden key → c.value? key = none) : Insertion :=
  { I with locals := c, hidden_locals := hc }

def RelatedWith (I : Insertion) (c : Bindings) (W : List Bool) (s t : Store) : Prop :=
  ∃ hc, (I.withLocals c hc).Related W s t

theorem relatedWith_put (h : I.RelatedWith c W s t) {key : Symbol} (hkey : I.hidden key)
    (value : Value) : I.RelatedWith (c.put key value) W s (t.put I.place key value) := by
  obtain ⟨hc, h⟩ := h
  refine ⟨fun k hk => ?_, h.size, by rw [Store.size_put]; exact h.size', h.kept, ?_, ?_, ?_⟩
  · rw [Bindings.value?_put, if_neg fun he : k = key => hk (he ▸ hkey)]
    exact hc k hk
  · intro i hi
    have hne : I.place ≠ i := Nat.ne_of_gt hi
    rw [Store.frame_put, if_neg hne]
    exact h.kept' i hi
  · have hplace := h.inserted
    change t.frames[I.place]? = some ⟨c, some I.home⟩ at hplace
    change (t.put I.place key value).frames[I.place]? = _
    rw [Store.frame_put, if_pos rfl, hplace]
    rfl
  · intro i f hi hf
    have hne : I.place ≠ i + 1 := Nat.ne_of_lt (Nat.lt_succ_of_le hi)
    obtain ⟨f', hf', houter, hb⟩ := h.frame i f hi hf
    rw [Store.frame_put, if_neg hne]
    exact ⟨f', hf', houter, hb⟩

/-- The arguments of a call, as a `let*` evaluates them one after the other inside the frame
in which it binds their values. No closure can hold that frame. -/
def ofArguments (base : Store) (home : ScopeId) (hc : base.Closed) (hhome : home < base.frames.size)
    (names : List Symbol) : Insertion where
  base := base
  home := home
  hidden key := key ∈ names ∨ key = SpecialForm.defineSymbol ∨ key = SpecialForm.lambdaSymbol
  locals := []
  closed := hc
  home_lt := hhome
  hidden_locals _ _ := rfl
  hidden_define := .inr (.inl rfl)
  held _ := False
  avoids_of_held := False.elim
  held_of_lambda ha hs hf _ :=
    SpecialForm.ne_lambda_of_avoids (.inr (.inr rfl)) ha hs (Form.eq_lambda_of_ofTail hf)

section

variable (limit levels : Nat) {m n : Machine}

theorem evalLevels_relatedWith (hm : I.RelatedWith c W m.store n.store) (hp : m.printed = n.printed)
    {form : Value} (hform : form.Within I.place) (ha : form.Avoids I.hidden) :
    let x := (evalLevels limit levels form I.home).run m
    let y := (evalLevels limit levels form I.place).run n
    ∃ X, W <+: X ∧ I.RelatedWith c X x.2.store y.2.store ∧ x.2.printed = y.2.printed ∧
      Agree EvalError.SameReport (I.Alike X) x.1 y.1 := by
  obtain ⟨hc, hm⟩ := hm
  obtain ⟨X, hX, hrelated, hprinted, hr⟩ := evalLevels_related limit limit levels hm hp hform ha
  refine ⟨X, hX, ⟨hc, hrelated⟩, hprinted, hr.imp (fun e e' he => ?_) fun _ _ => id⟩
  obtain he | ⟨rfl, rfl⟩ := he
  · exact he
  · rfl

theorem arguments_related {bs : Bindings} (hnames : ∀ b ∈ bs, I.hidden b.1)
    (hforms : ∀ b ∈ bs, b.2.Within I.place ∧ b.2.Avoids I.hidden)
    (hm : I.RelatedWith c W m.store n.store) (hp : m.printed = n.printed)
    (hd : d.Alike (I.Alike W) c) :
    let x := (Eval.all (evalLevels limit levels) I.home (bs.map (·.2))).run m
    let y := (Eval.bindEach (evalLevels limit levels) I.place bs).run n
    ∃ X c', I.RelatedWith c' X x.2.store y.2.store ∧ x.2.printed = y.2.printed ∧
      Agree EvalError.SameReport
        (fun values _ => Bindings.Alike (I.Alike X) (d.putAll (bs.names.zip values)) c') x.1 y.1 := by
  induction bs generalizing W m n c d with
  | nil => exact ⟨W, c, hm, hp, .ok hd⟩
  | cons b bs ih =>
    obtain ⟨name, form⟩ := b
    obtain ⟨hname, hnames⟩ := List.forall_mem_cons.mp hnames
    obtain ⟨⟨hform, havoids⟩, hforms⟩ := List.forall_mem_cons.mp hforms
    obtain ⟨X, hX, hrelated, hprinted, hr⟩ := evalLevels_relatedWith limit levels hm hp hform havoids
    rw [List.map_cons, Eval.all, Eval.bindEach, Run.run_bind, Run.run_bind]
    rcases hx : (evalLevels limit levels form I.home).run m with ⟨r, m'⟩
    rcases hy : (evalLevels limit levels form I.place).run n with ⟨q, n'⟩
    rw [hx, hy] at hrelated hprinted hr
    cases hr with
    | error he => exact ⟨X, c, hrelated, hprinted, .error he⟩
    | @ok v w hv =>
      have hdX : d.Alike (I.Alike X) c :=
        hd.imp fun _ _ hb => ⟨hb.1, hb.2.mono fun _ _ _ => meets_later hX⟩
      have hput : (Run.put name w I.place).run n' =
          (.ok (), { n' with store := n'.store.put I.place name w }) := rfl
      obtain ⟨Y, c', hrest, hprest, hr⟩ := ih (n := { n' with store := n'.store.put I.place name w })
        hnames hforms (relatedWith_put hrelated hname w) hprinted (Bindings.put_alike hdX name hv)
      dsimp only
      rw [Run.run_bind, Run.run_bind, hput]
      dsimp only
      rcases hxs : (Eval.all (evalLevels limit levels) I.home (bs.map (·.2))).run m' with ⟨r, m''⟩
      rw [hxs] at hrest hprest hr ⊢
      generalize (Eval.bindEach (evalLevels limit levels) I.place bs).run _ = y at hrest hprest hr ⊢
      obtain ⟨q, n''⟩ := y
      cases hr with
      | error he => exact ⟨Y, c', hrest, hprest, .error he⟩
      | ok hvs => exact ⟨Y, c', hrest, hprest, .ok hvs⟩

end

section Pairs

variable {i j : Nat}

theorem of_meets_false (h : I.Meets W False i j) :
    (i < I.place ∧ j = i) ∨ (I.place ≤ i ∧ i < I.place + W.length ∧ j = i + 1) := by
  have hlt := lt_of_meets h
  obtain ⟨_, _, hfalse⟩ | ⟨hj, _⟩ := h
  · exact hfalse.elim
  · unfold shift at hj
    split at hj <;> omega

/-- The scopes after the arguments of a call and after the forms of a `let*`. The frame of
the call takes the part of the frame that was put in, and later scopes have the same number
again. -/
def callPairs (I : Insertion) (W : List Bool) : ScopePairs where
  pairs i j := I.Meets W False i j ∨ (i = I.place + W.length ∧ j = I.place) ∨
    (I.place + W.length < i ∧ j = i)
  fresh := I.place + W.length + 1
  eq_iff_eq := by
    intro i j k l hij hkl
    replace hij := hij.imp_left of_meets_false
    replace hkl := hkl.imp_left of_meets_false
    omega
  pairs_fresh _ hi := .inr (.inr ⟨hi, rfl⟩)

theorem pairs_of_lt (hi : i < I.place) : (I.callPairs W).pairs i i := .inl (meets_of_lt hi)

variable (hheld : ∀ body, ¬ I.held body)

include hheld in
theorem bindings_paired (h : c.Alike (I.Alike W) d) : c.Alike (I.callPairs W).Alike d :=
  h.imp fun _ _ hp => ⟨hp.1, hp.2.mono fun v _ _ hv => .inl (meets_mono hv (hheld v))⟩

include hheld in
theorem framePaired_before {f : Frame} (hi : i < I.place) (hf : f.Closed I.place i) :
    (I.callPairs W).FramePaired i i f f := by
  refine ⟨?_, bindings_paired hheld (List.forall₂_same.mpr fun p hp =>
    ⟨rfl, alike_of_within (hf.within p hp)⟩)⟩
  cases ho : f.outer with
  | none => exact .none
  | some o =>
    have hlt : o < i := hf.outer o ho
    exact .some ⟨Iff.rfl, pairs_of_lt (Nat.lt_trans hlt hi)⟩

include hheld in
theorem framePaired_of_meets {f f' : Frame} (hm : I.Meets W False i j) (h : I.FrameMeets W i f f') :
    (I.callPairs W).FramePaired i (i + 1) f f' := by
  obtain ⟨⟨o, o', ho, ho', hlt, hlt', hmeets⟩, hb⟩ := h
  have houtside : ¬ I.inside? W i = some true := by
    obtain ⟨_, _, hfalse⟩ | ⟨_, b, hb, hfalse⟩ := hm
    · exact hfalse.elim
    · exact fun hinside => hfalse (Option.some.inj (hb.symm.trans hinside))
  refine ⟨?_, bindings_paired hheld hb⟩
  rw [ho, ho']
  exact .some ⟨iff_of_true hlt hlt', .inl (meets_mono hmeets houtside)⟩

include hheld in
/-- With the frame of the call, everything that closures can see has its part. Scopes that
were made inside the frame that was put in are left out. -/
theorem paired_of_relatedWith (h : I.RelatedWith c W s t) {entries : Bindings}
    (hd : Bindings.Alike (I.Alike W) (Bindings.putAll entries []) c) :
    (I.callPairs W).Paired ((s.create (some I.home)).2.putAll s.frames.size entries) t := by
  obtain ⟨hc, h⟩ := h
  have hsize : s.frames.size = I.place + W.length := h.size
  have hcall : (I.callPairs W).pairs s.frames.size I.place := .inr (.inl ⟨hsize, rfl⟩)
  have hnew : ((s.create (some I.home)).2.putAll s.frames.size entries).frames.size =
      s.frames.size + 1 := by rw [Store.size_putAll, Store.size_create]
  refine ⟨by rw [hnew, hsize]; exact h.size'.symm, by rw [hnew, hsize]; exact Nat.le_refl _, ?_⟩
  intro i j f hij hf
  rw [Store.frame_putAll_create] at hf
  split at hf
  · next hi =>
    obtain rfl := ((I.callPairs W).eq_iff_eq hij hcall).mp hi
    obtain rfl := Option.some.inj hf
    have hlt : I.home < i := hi ▸ hsize ▸ Nat.lt_of_lt_of_le I.home_lt (Nat.le_add_right _ _)
    exact ⟨⟨c, some I.home⟩, h.inserted,
      .some ⟨iff_of_true hlt I.home_lt, pairs_of_lt I.home_lt⟩, bindings_paired hheld hd⟩
  · next hi =>
    have hlt : i < s.frames.size := (Array.getElem?_eq_some_iff.mp hf).1
    obtain hm | ⟨hq, _⟩ | ⟨hq, _⟩ := hij
    · obtain ⟨hbefore, rfl⟩ | ⟨hle, _, rfl⟩ := of_meets_false hm
      · have hbase : I.base.frames[j]? = some f := (h.kept j hbefore).symm.trans hf
        exact ⟨f, (h.kept' j hbefore).trans hbase,
          framePaired_before hheld hbefore (I.closed j f hbase)⟩
      · obtain ⟨f', hf', houter, hb⟩ := h.frame i f hle hf
        exact ⟨f', hf', framePaired_of_meets hheld hm ⟨houter, hb⟩⟩
    · exact absurd (hq.trans hsize.symm) hi
    · exact absurd hlt (by omega)

end Pairs

end Insertion

/-- Two evaluations that cannot be told apart by what they come to and what they print. -/
def SameOutcome (x y : Except EvalError Value × Machine) : Prop :=
  Agree EvalError.SameReport
      (fun v w => v.display = w.display ∧ v.Alike (fun _ => True) (fun _ _ _ => True) w) x.1 y.1 ∧
    x.2.printed = y.2.printed

theorem Insertion.enterBody_agrees {I : Insertion} (hheld : ∀ body, ¬ I.held body) {W : List Bool}
    {c : Bindings} {m n : Machine} (h : I.RelatedWith c W m.store n.store)
    (hp : m.printed = n.printed) {params : List Symbol} {values : List Value}
    (hd : Bindings.Alike (I.Alike W) (Bindings.putAll (params.zip values) []) c) {body : Value}
    (hbody : body.Within I.place) (limit levels : Nat) :
    SameOutcome ((Eval.enterBody (evalLevels limit levels) params body I.home values).run m)
      ((evalLevels limit levels body I.place).run n) := by
  have hbodies : (I.callPairs W).Alike body body :=
    hbody.mono fun _ i j hij => hij.1 ▸ pairs_of_lt hij.2
  have hscopes : (I.callPairs W).pairs m.store.frames.size I.place := .inr (.inl ⟨h.2.size, rfl⟩)
  rw [Eval.enterBody_run]
  obtain ⟨hagree, hprinted⟩ := ScopePairs.evalLevels_paired limit levels (n := n)
    (m := { m with store := _ }) (paired_of_relatedWith hheld h hd) hp hbodies hscopes
  exact ⟨hagree.imp (fun _ _ => id) fun v w h => ⟨h.display_eq, h.mono fun _ _ _ _ => trivial⟩,
    hprinted⟩

section

variable {limit : Nat} {bs : Bindings} {scope : ScopeId} {m : Machine}

theorem callClosure_agrees {body : Value} (levels : Nat) (hm : m.store.Closed)
    (hscope : scope < m.store.frames.size) (hbody : body.Within m.store.frames.size)
    (hargs : ∀ b ∈ bs, b.2.Within m.store.frames.size ∧
      b.2.Avoids (Insertion.ofArguments m.store scope hm hscope bs.names).hidden) :
    let x := (Eval.callClosure (evalLevels limit levels) bs.names body scope (bs.map (·.2)) scope).run m
    let y := (Eval.form (evalLevels limit levels) scope (.letStar bs body)).run m
    SameOutcome x y ∧ m.store.Keeps x.2.store := by
  intro x y
  let I := Insertion.ofArguments m.store scope hm hscope bs.names
  let n : Machine := { m with store := (m.store.create (some scope)).2 }
  have hstart : I.RelatedWith [] [] m.store n.store := by
    have hrelated : I.Related [] I.base ((I.base.create (some I.home)).2.putAll I.place []) :=
      Insertion.related_letStar I rfl
    rw [Store.putAll_nil] at hrelated
    exact ⟨fun _ _ => rfl, hrelated⟩
  have hnames : ∀ b ∈ bs, I.hidden b.1 := fun b hb => .inl (List.mem_map_of_mem hb)
  obtain ⟨W, c, hrelated, hprinted, hr⟩ := Insertion.arguments_related (d := []) limit levels hnames
    hargs hstart rfl .nil
  have hlength : bs.names.length = (bs.map (·.2)).length := by
    rw [Bindings.names, List.length_map, List.length_map]
  have hx : x = _ := Eval.callClosure_run hlength body scope scope m
  have hy : y = (Eval.bindEach (evalLevels limit levels) I.place bs >>= fun _ =>
      evalLevels limit levels body I.place).run n := rfl
  rw [Run.run_bind] at hy
  change I.RelatedWith c W ((Eval.all (evalLevels limit levels) scope _).run m).2.store _ at hrelated
  change ((Eval.all (evalLevels limit levels) scope _).run m).2.printed = _ at hprinted
  change Agree _ _ ((Eval.all (evalLevels limit levels) scope _).run m).1 _ at hr
  rcases hall : (Eval.all (evalLevels limit levels) scope (bs.map (·.2))).run m with ⟨r, m'⟩
  rcases hbind : (Eval.bindEach (evalLevels limit levels) I.place bs).run n with ⟨q, n'⟩
  rw [hall, hbind] at hrelated hprinted hr
  rw [hall] at hx
  rw [hbind] at hy
  rw [hx, hy]
  have hkept : m.store.Keeps m'.store := hrelated.2.kept
  cases hr with
  | error he => exact ⟨⟨.error he, hprinted⟩, hkept⟩
  | @ok values _ hd =>
    have hkeeps := FrameEffect.enterBody_extends m' limit levels bs.names body scope values
    exact ⟨Insertion.enterBody_agrees (fun _ => id) hrelated hprinted hd hbody limit levels,
      Store.keeps_trans hkept (Store.keeps_of_extends hkeeps)⟩

theorem letStar_cut_off (limit : Nat) (bs : Bindings) (body : Value) (scope : ScopeId) (m : Machine) :
    (Eval.form (evalLevels limit 0) scope (.letStar bs body)).run m =
      (.error (.tooDeep limit), { m with store := (m.store.create (some scope)).2 }) := by
  cases bs <;> rfl

section

variable {forms : List Value} {body : Value} (hbody : Form.bodyOf forms = .ok body)

include hbody

theorem evalLevels_letStarOver (levels : Nat) :
    evalLevels limit (levels + 1) (Form.letStarOver bs forms) scope =
      Eval.form (evalLevels limit levels) scope (.letStar bs body) := by
  have hs : SpecialForm.ofHead? (.sym SpecialForm.letStarSymbol) = some .letStar := rfl
  rw [evalLevels, Form.letStarOver, Eval.step]
  exact Eval.application_special _ hs (Form.ofTail_letStar_forms bs hbody) scope

theorem evalLevels_callOver (levels : Nat) :
    (evalLevels limit (levels + 2) (Form.callOver bs forms) scope).run m =
      (Eval.callClosure (evalLevels limit (levels + 1)) bs.names body scope (bs.map (·.2)) scope).run m := by
  have hs : SpecialForm.ofHead? (.sym SpecialForm.lambdaSymbol) = some .lambda := rfl
  have hhead : (evalLevels limit (levels + 1) (.list (.sym SpecialForm.lambdaSymbol ::
      .list (bs.names.map .sym) :: forms)) scope).run m = (.ok (.closure bs.names body scope), m) := by
    rw [evalLevels, Eval.step, Eval.application_special _ hs
      (Form.ofTail_lambda_forms bs.names hbody)]
    rfl
  rw [evalLevels, Form.callOver, Eval.step, Eval.application_of_closure _ rfl hhead]

end

/-- A `let*` does what the call of a closure with its names as parameters does, where the
forms that it binds its names to mention none of them, and neither `def!` nor `fn*`. A name
may stand there several times. As in all sessions, the store and the forms refer to scopes
that exist. Neither evaluation changes a frame that was there. -/
theorem letStar_agrees_with_call {depth : Int} {forms : List Value} (hm : m.store.Closed)
    (hscope : scope < m.store.frames.size) (hforms : forms ≠ [])
    (hwithin : ∀ v ∈ forms, v.Within m.store.frames.size)
    (hargs : ∀ b ∈ bs, b.2.Within m.store.frames.size ∧
      ¬ b.2.Mentions SpecialForm.defineSymbol ∧ ¬ b.2.Mentions SpecialForm.lambdaSymbol ∧
      ∀ c ∈ bs, ¬ b.2.Mentions c.1) :
    let x := (eval limit depth (Form.callOver bs forms) scope).run m
    let y := (eval limit depth (Form.letStarOver bs forms) scope).run m
    SameOutcome x y ∧ m.store.Keeps x.2.store ∧ m.store.Keeps y.2.store := by
  intro x y
  obtain ⟨body, hbody⟩ := Form.bodyOf_ok_iff.mpr hforms
  have hbodyWithin : body.Within m.store.frames.size := by
    obtain hmem | rfl := Form.bodyOf_ok hbody
    · exact hwithin body hmem
    · exact .list trivial (.cons (.atom trivial trivial) (List.forall₂_same.mpr hwithin))
  have havoids : ∀ b ∈ bs, b.2.Within m.store.frames.size ∧
      b.2.Avoids (Insertion.ofArguments m.store scope hm hscope bs.names).hidden := by
    intro b hb
    obtain ⟨hw, hdefine, hlambda, hnames⟩ := hargs b hb
    refine ⟨hw, Value.avoids_of_not_mentions ?_⟩
    rintro key (hkey | rfl | rfl)
    · obtain ⟨c, hc, rfl⟩ := List.mem_map.mp hkey
      exact hnames c hc
    · exact hdefine
    · exact hlambda
  have hkeeps : m.store.Keeps y.2.store :=
    Store.keeps_of_extends (FrameEffect.letStar_extends m limit _ _ scope rfl)
  suffices h : SameOutcome x y ∧ m.store.Keeps x.2.store from ⟨h.1, h.2, hkeeps⟩
  change SameOutcome ((evalLevels limit _ (Form.callOver bs forms) scope).run m)
    ((evalLevels limit _ (Form.letStarOver bs forms) scope).run m) ∧
      m.store.Keeps ((evalLevels limit _ (Form.callOver bs forms) scope).run m).2.store
  generalize (limit - depth).toNat = levels
  obtain _ | _ | levels := levels
  · exact ⟨⟨.error rfl, rfl⟩, fun _ _ => rfl⟩
  · -- The head of the call is cut off, and so is the first form of the `let*`, or its body.
    rw [evalLevels_letStarOver hbody, letStar_cut_off]
    exact ⟨⟨.error rfl, rfl⟩, fun _ _ => rfl⟩
  · rw [evalLevels_letStarOver hbody, evalLevels_callOver hbody]
    exact callClosure_agrees (levels + 1) hm hscope hbodyWithin havoids

end

theorem let_binds_a_name_twice :
    let x : Symbol := ⟨"x", by decide⟩
    let f : Symbol := ⟨"f", by decide⟩
    let m : Machine := ⟨⟨#[⟨[(f, .closure [] (.int 7) 0)], none⟩]⟩, #[]⟩
    let bs : Bindings := [(x, .int 1), (x, .list [.sym f])]
    let forms : List Value := [.list [.sym ⟨"prn", by decide⟩, .sym x], .sym x]
    let y := (eval 4 0 (Form.letStarOver bs forms) 0).run m
    (∃ v, y.1 = .ok v ∧ v.display = "7") ∧ y.2.printed = #["7"] := by
  intro x f m bs forms y
  have hcall : ((eval 4 0 (Form.callOver bs forms) 0).run m).1 = .ok (.int 7) ∧
      ((eval 4 0 (Form.callOver bs forms) 0).run m).2.printed = #["7"] := by
    with_unfolding_all exact ⟨rfl, rfl⟩
  have hclosed : m.store.Closed := Store.closed_singleton
    (List.forall_mem_singleton.mpr (.closure (.atom trivial trivial) ⟨rfl, Nat.one_pos⟩))
  have hsymbol (key : Symbol) : (Value.sym key).Within 1 := .atom trivial trivial
  have hwithin : ∀ v ∈ forms, v.Within 1 :=
    List.forall_mem_cons.mpr ⟨.list trivial (.cons (hsymbol _) (.cons (hsymbol _) .nil)),
      List.forall_mem_singleton.mpr (hsymbol _)⟩
  have hnames : ∀ c ∈ bs, c.1 = x := List.forall_mem_cons.mpr ⟨rfl, List.forall_mem_singleton.mpr rfl⟩
  have hargs : ∀ b ∈ bs, b.2.Within 1 ∧ ¬ b.2.Mentions SpecialForm.defineSymbol ∧
      ¬ b.2.Mentions SpecialForm.lambdaSymbol ∧ ∀ c ∈ bs, ¬ b.2.Mentions c.1 := by
    refine List.forall_mem_cons.mpr ⟨⟨.atom trivial trivial, nofun, nofun, fun _ _ => nofun⟩, ?_⟩
    refine List.forall_mem_singleton.mpr ⟨.list trivial (.cons (hsymbol f) .nil), ?_, ?_, ?_⟩
    · exact fun h => absurd (Value.eq_of_mentions_singleton h) (by decide)
    · exact fun h => absurd (Value.eq_of_mentions_singleton h) (by decide)
    · exact fun c hc h => absurd ((hnames c hc).symm.trans (Value.eq_of_mentions_singleton h)) (by decide)
  obtain ⟨⟨hagree, hprinted⟩, _⟩ := @letStar_agrees_with_call 4 bs 0 m 0 forms hclosed Nat.one_pos
    (List.cons_ne_nil _ _) hwithin hargs
  rw [hcall.1] at hagree
  change Agree _ _ _ y.1 at hagree
  change _ = y.2.printed at hprinted
  generalize y.1 = r at hagree ⊢
  obtain ⟨hdisplay, _⟩ | _ := hagree
  exact ⟨⟨_, rfl, hdisplay.symm⟩, hprinted.symm.trans hcall.2⟩

end SmallLisp
