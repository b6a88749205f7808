import SmallLisp.Proofs.DepthGuard
import SmallLisp.Proofs.InsertedFrame

namespace SmallLisp

/-- The value can be written in a program and stands for itself there. -/
def Value.IsLiteral : Value → Prop
  | int _ => True
  | str _ => True
  | bool _ => True
  | nil => True
  | _ => False

def SpecialForm.letStarSymbol : Symbol := ⟨"let*", by decide⟩

namespace Form

def letStarAround (bs : Bindings) (body : Value) : Value :=
  .list [.sym SpecialForm.letStarSymbol, .list (bs.flatMap fun b => [.sym b.1, b.2]), body]

theorem bindingsOf_flatMap (bs : Bindings) :
    bindingsOf (bs.flatMap fun b => [.sym b.1, b.2]) = .ok bs := by
  induction bs with
  | nil => rfl
  | cons b bs ih =>
    change (bindingsOf (bs.flatMap fun b => [.sym b.1, b.2]) >>= fun rest => _) = _
    rw [ih]
    rfl

theorem ofTail_letStar_forms (bs : Bindings) {forms : List Value} {body : Value}
    (h : bodyOf forms = .ok body) :
    ofTail .letStar (.list (bs.flatMap fun b => [.sym b.1, b.2]) :: forms) =
      .ok (.letStar bs body) := by
  have heven : (bs.flatMap fun b => [Value.sym b.1, b.2]).length % 2 = 0 := by
    simp [List.length_flatMap]
  cases forms with
  | nil => cases h
  | cons form forms =>
    rw [ofTail, letStarOf, bindingsOf_flatMap, heven, h]
    rfl

theorem ofTail_letStar (bs : Bindings) (body : Value) :
    ofTail .letStar [.list (bs.flatMap fun b => [.sym b.1, b.2]), body] = .ok (.letStar bs body) :=
  ofTail_letStar_forms bs rfl

end Form

theorem Eval.application_special (ev : Evaluator) {head : Value} {tail : List Value}
    {special : SpecialForm} {f : Form} (hs : SpecialForm.ofHead? head = some special)
    (hf : Form.ofTail special tail = .ok f) (scope : ScopeId) :
    application ev head tail scope = form ev scope f := by
  rw [application, hs]
  dsimp only
  rw [hf]

section

variable {limit : Nat} {depth : Int} (m : Machine)

theorem eval_literal (h : depth < limit) {v : Value} (hv : v.IsLiteral) (scope : ScopeId) :
    eval limit depth v scope = pure v := by
  rw [eval_eq, if_neg (by omega)]
  cases v with
  | sym => cases hv
  | list => cases hv
  | _ => rfl

theorem bindEach_literals (h : depth < limit) (scope : ScopeId) {bs : Bindings}
    (hbs : ∀ b ∈ bs, b.2.IsLiteral) :
    (Eval.bindEach (eval limit depth) scope bs).run m =
      (.ok (), { m with store := m.store.putAll scope bs }) := by
  induction bs generalizing m with
  | nil =>
    rw [Store.putAll_nil]
    rfl
  | cons b bs ih =>
    obtain ⟨name, v⟩ := b
    obtain ⟨hv, hbs⟩ := List.forall_mem_cons.mp hbs
    rw [Eval.bindEach, eval_literal h hv, Store.putAll_cons]
    exact ih { m with store := m.store.put scope name v } hbs

theorem eval_letStarAround (h : depth < limit) {bs : Bindings} (hbs : ∀ b ∈ bs, b.2.IsLiteral)
    (body : Value) (scope : ScopeId) :
    (eval (limit + 1) depth (Form.letStarAround bs body) scope).run m =
      (eval (limit + 1) (depth + 1) body m.store.frames.size).run
        { m with store := (m.store.create (some scope)).2.putAll m.store.frames.size bs } := by
  have hcreate : (Run.create scope).run m =
      (.ok m.store.frames.size, { m with store := (m.store.create (some scope)).2 }) := rfl
  rw [eval_eq, if_neg (by omega), Form.letStarAround, Eval.step,
    Eval.application_special _ rfl (Form.ofTail_letStar bs body), Eval.form, Run.run_bind, hcreate]
  dsimp only
  rw [Run.run_bind, bindEach_literals _ (by omega) _ hbs]

end

theorem lt_of_not_tooDeep {limit : Nat} {depth : Int} {form : Value} {scope : ScopeId} {m : Machine}
    (h : ((eval limit depth form scope).run m).1 ≠ .error (.tooDeep limit)) : depth < limit := by
  by_contra hlt
  rw [eval_eq, if_pos (by omega)] at h
  exact h rfl

namespace Insertion

def ofLocals (base : Store) (home : ScopeId) (hc : base.Closed) (hhome : home < base.frames.size)
    (locals : Bindings) : Insertion where
  base := base
  home := home
  hidden key := key ∈ locals.names ∨ key = SpecialForm.defineSymbol
  locals := Bindings.putAll locals []
  closed := hc
  home_lt := hhome
  hidden_locals _ h := Bindings.value?_putAll_of_ne (fun _ hp he =>
    h (.inl (List.mem_map.mpr ⟨_, hp, he⟩))) []
  hidden_define := .inr rfl

theorem related_letStar (I : Insertion) {bs : Bindings} (hbs : I.locals = Bindings.putAll bs []) :
    I.Related [] I.base ((I.base.create (some I.home)).2.putAll I.place bs) := by
  refine ⟨rfl, ?_, fun _ _ => rfl, fun i hi => ?_, ?_, fun i f hi hf => ?_⟩
  · rw [Store.size_putAll, Store.size_create]
    rfl
  · rw [place, Store.frame_putAll_create, if_neg (Nat.ne_of_lt hi)]
  · rw [place, Store.frame_putAll_create, if_pos rfl, hbs]
  · exact absurd (Array.getElem?_eq_some_iff.mp hf).1 (Nat.not_lt.mpr hi)

end Insertion

/-- Scopes are lexical: a `let*` around a form that mentions none of its names, and no
`def!`, makes no difference, whatever the closures mention that the form calls. As in all
sessions, the store and the form refer to scopes that exist. Values are the same but for
the scopes that closures hold, and neither evaluation changes a frame that was there. -/
theorem locals_not_mentioned_change_nothing {limit : Nat} {depth : Int} {form : Value}
    {scope : ScopeId} {locals : Bindings} {m : Machine} (hm : m.store.Closed)
    (hscope : scope < m.store.frames.size) (hform : form.Within m.store.frames.size)
    (hdefine : ¬ form.Mentions SpecialForm.defineSymbol)
    (hlocals : ∀ b ∈ locals, b.2.IsLiteral ∧ ¬ form.Mentions b.1)
    (hdeep : ((eval limit depth form scope).run m).1 ≠ .error (.tooDeep limit)) :
    let x := (eval limit depth form scope).run m
    let y := (eval (limit + 1) depth (Form.letStarAround locals form) scope).run m
    Agree (fun e e' => e.report = e'.report)
        (fun v w => v.display = w.display ∧ v.Alike (fun _ => True) (fun _ _ _ => True) w) x.1 y.1 ∧
      x.2.printed = y.2.printed ∧ m.store.Keeps x.2.store ∧ m.store.Keeps y.2.store := by
  intro x y
  let I := Insertion.ofLocals m.store scope hm hscope locals
  have havoids : form.Avoids I.hidden := by
    refine Value.avoids_of_not_mentions ?_
    rintro key (hkey | rfl)
    · obtain ⟨b, hb, rfl⟩ := List.mem_map.mp hkey
      exact (hlocals b hb).2
    · exact hdefine
  let n : Machine := { m with store := (m.store.create (some scope)).2.putAll I.place locals }
  have hy : y = (eval (limit + 1) (depth + 1) form I.place).run n :=
    eval_letStarAround m (lt_of_not_tooDeep hdeep) (fun b hb => (hlocals b hb).1) form scope
  -- The body is one level deeper than the form, and the limit is one higher.
  have hlevels : (((limit + 1 : Nat) : Int) - (depth + 1)).toNat = (limit - depth).toNat := by omega
  rw [eval, hlevels] at hy
  have hmn : I.Related [] m.store n.store := Insertion.related_letStar I rfl
  obtain ⟨W, hrelated, hprinted, hagree⟩ :=
    I.evalLevels_inserted limit (limit + 1) (limit - depth).toNat hmn rfl hform havoids
  rw [← hy] at hrelated hprinted hagree
  refine ⟨?_, hprinted, hrelated.kept, hrelated.kept'⟩
  change Agree _ _ x.1 y.1 at hagree
  change x.1 ≠ _ at hdeep
  generalize x.1 = r at hagree hdeep
  generalize y.1 = r' at hagree
  cases hagree with
  | ok h => exact .ok ⟨h.display_eq, h.mono fun _ _ _ _ => trivial⟩
  | error h =>
    obtain h | ⟨rfl, _⟩ := h
    · exact .error h
    · exact absurd rfl hdeep

theorem closure_does_not_see_locals :
    let x : Symbol := ⟨"x", by decide⟩
    let f : Symbol := ⟨"f", by decide⟩
    let m : Machine := ⟨⟨#[⟨[(x, .int 7), (f, .closure [] (.sym x) 0)], none⟩]⟩, #[]⟩
    ∃ v, ((eval 3 0 (Form.letStarAround [(x, .int 1)] (.list [.sym f])) 0).run m).1 = .ok v ∧
      v.display = "7" := by
  intro x f m
  have hcall : ((eval 2 0 (.list [.sym f]) 0).run m).1 = .ok (.int 7) := by
    with_unfolding_all rfl
  have hclosed : m.store.Closed := Store.closed_singleton (List.forall_mem_cons.mpr
    ⟨.atom trivial trivial, List.forall_mem_singleton.mpr
      (.closure (.atom trivial trivial) ⟨rfl, Nat.one_pos⟩)⟩)
  have hlocals : ∀ b ∈ [(x, Value.int 1)], b.2.IsLiteral ∧ ¬ (Value.list [.sym f]).Mentions b.1 :=
    List.forall_mem_singleton.mpr ⟨trivial, fun h => absurd (Value.eq_of_mentions_singleton h) (by decide)⟩
  have hdeep : ((eval 2 0 (.list [.sym f]) 0).run m).1 ≠ .error (.tooDeep 2) := by
    rw [hcall]
    exact nofun
  obtain ⟨hsame, _⟩ := locals_not_mentioned_change_nothing hclosed Nat.one_pos
    (.list trivial (.cons (.atom (v := .sym f) trivial trivial) .nil))
    (fun h => absurd (Value.eq_of_mentions_singleton h) (by decide)) hlocals hdeep
  rw [hcall] at hsame
  generalize ((eval 3 0 _ 0).run m).1 = r at hsame ⊢
  obtain ⟨hdisplay, _⟩ | _ := hsame
  exact ⟨_, rfl, hdisplay.symm⟩

end SmallLisp
