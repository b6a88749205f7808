import SmallLisp.Proofs.FormShape
import SmallLisp.Proofs.Invariant

namespace SmallLisp

def Frame.Grows (f g : Frame) : Prop :=
  f.bindings.names <+: g.bindings.names ∧ g.outer = f.outer

namespace Frame

theorem grows_refl (f : Frame) : f.Grows f := ⟨List.prefix_refl _, rfl⟩

theorem grows_put {f g : Frame} (h : f.Grows g) (key : Symbol) (value : Value) :
    f.Grows (g.put key value) :=
  ⟨h.1.trans (Bindings.names_prefix_put g.bindings key value), h.2⟩

end Frame

namespace Store

/-- The frames of the first store are in the second, the same as before except that the
frames in `own` may have grown. -/
def Extends (own : ScopeId → Prop) (s t : Store) : Prop :=
  ∀ (i : ScopeId) (f : Frame), s.frames[i]? = some f →
    ∃ g, t.frames[i]? = some g ∧ f.Grows g ∧ (¬ own i → g = f)

/-- The frames of the first store are in the second as they were. -/
def Keeps (s t : Store) : Prop := ∀ i < s.frames.size, t.frames[i]? = s.frames[i]?

variable {own : ScopeId → Prop} {base s t : Store}

theorem extends_refl (s : Store) : s.Extends own s :=
  fun _ f hf => ⟨f, hf, f.grows_refl, fun _ => rfl⟩

theorem frame_of_extends (h : s.Extends own t) {i : ScopeId} (hi : i < s.frames.size)
    (ho : ¬ own i) : t.frames[i]? = s.frames[i]? := by
  have hf : s.frames[i]? = some s.frames[i] := Array.getElem?_eq_getElem hi
  obtain ⟨g, hg, _, he⟩ := h i _ hf
  rw [hg, hf, he ho]

theorem keeps_of_extends (h : s.Extends (fun _ => False) t) : s.Keeps t :=
  fun _ hi => frame_of_extends h hi id

theorem frame_of_keeps (h : s.Keeps t) {i : ScopeId} {f : Frame} (hf : s.frames[i]? = some f) :
    t.frames[i]? = some f :=
  (h i (Array.getElem?_eq_some_iff.mp hf).1).trans hf

theorem bindings_of_keeps (h : s.Keeps t) {i : ScopeId} (hi : i < s.frames.size) :
    t.bindings i = s.bindings i := by
  rw [bindings, bindings, h i hi]

theorem size_le_of_keeps (h : s.Keeps t) : s.frames.size ≤ t.frames.size := by
  by_contra hlt
  have hi : t.frames.size < s.frames.size := by omega
  have hnone := h t.frames.size hi
  rw [Array.getElem?_size, Array.getElem?_eq_getElem hi] at hnone
  cases hnone

theorem keeps_refl (s : Store) : s.Keeps s := fun _ _ => rfl

theorem keeps_trans {u : Store} (hst : s.Keeps t) (htu : t.Keeps u) : s.Keeps u :=
  fun i hi => (htu i (Nat.lt_of_lt_of_le hi (size_le_of_keeps hst))).trans (hst i hi)

theorem size_le_of_extends (h : s.Extends own t) : s.frames.size ≤ t.frames.size := by
  by_contra hlt
  have hi : t.frames.size < s.frames.size := by omega
  obtain ⟨g, hg, _⟩ := h t.frames.size _ (Array.getElem?_eq_getElem hi)
  rw [Array.getElem?_size] at hg
  cases hg

theorem keeps_restore {scope : ScopeId} (h : s.Extends (· = scope) t) :
    s.Keeps (t.restore scope (s.bindings scope)) := by
  intro i hi
  have hf : s.frames[i]? = some s.frames[i] := Array.getElem?_eq_getElem hi
  obtain ⟨g, hg, hfg, he⟩ := h i _ hf
  rw [frame_restore, hg, hf]
  by_cases hs : scope = i
  · subst i
    rw [if_pos rfl, Option.map_some, hfg.2, bindings, hf]
  · rw [if_neg hs, he fun h => hs h.symm]

theorem extends_put (h : base.Extends own s) {scope : ScopeId}
    (hs : own scope ∨ base.frames.size ≤ scope) (key : Symbol) (value : Value) :
    base.Extends own (s.put scope key value) := by
  intro i f hf
  obtain ⟨g, hg, hfg, he⟩ := h i f hf
  rw [frame_put, hg]
  split
  · next hi =>
    subst i
    -- A scope that is new since `base` has no frame there.
    refine ⟨g.put key value, rfl, Frame.grows_put hfg key value, fun ho => ?_⟩
    have hlt : scope < base.frames.size := (Array.getElem?_eq_some_iff.mp hf).1
    exact absurd hs (not_or.mpr ⟨ho, Nat.not_le.mpr hlt⟩)
  · exact ⟨g, rfl, hfg, he⟩

theorem extends_create (h : base.Extends own s) (outer : Option ScopeId) :
    base.Extends own (s.create outer).2 := by
  intro i f hf
  obtain ⟨g, hg, hfg, he⟩ := h i f hf
  have hlt : i < s.frames.size := (Array.getElem?_eq_some_iff.mp hg).1
  rw [frame_create, if_neg (Nat.ne_of_lt hlt)]
  exact ⟨g, hg, hfg, he⟩

end Store

/-- Forms are evaluated only in the scopes in `own` and in scopes that are new since
`base`. -/
def framesKept (base : Store) (own : ScopeId → Prop) : Invariant where
  World := Unit
  Later _ _ := True
  node _ := True
  home _ _ := True
  opens _ i := own i ∨ base.frames.size ≤ i
  machine _ m := base.Extends own m.store
  error _ := True
  refl _ := trivial
  trans _ _ := trivial
  home_mono _ _ := trivial
  opens_mono _ h := h
  home_of_opens _ := trivial
  node_zero := trivial
  node_nil := trivial
  node_bool _ := trivial
  node_sequence := trivial
  node_length _ := trivial
  node_list _ _ := trivial
  node_apply _ _ _ := trivial
  error_apply _ _ _ := trivial
  error_arity _ _ := trivial
  error_boolean _ _ := trivial
  error_list _ _ := trivial
  error_shape _ _ := trivial
  bound _ _ _ := .refl (fun _ => trivial) (fun _ _ => ⟨rfl, trivial⟩) _
  put h hs _ := Store.extends_put h hs _ _
  create h _ := ⟨(), trivial, Store.extends_create h _, .inr (Store.size_le_of_extends h)⟩
  print h _ := h

structure Evaluation where
  limit : Nat
  depth : Int
  form : Value
  scope : ScopeId

/-- The machine after an evaluation, whether it succeeds or fails. -/
def Evaluation.after (e : Evaluation) (m : Machine) : Machine :=
  ((eval e.limit e.depth e.form e.scope).run m).2

def Evaluation.afterAll (es : List Evaluation) (m : Machine) : Machine :=
  es.foldl (fun m e => e.after m) m

namespace FrameEffect

variable {own : ScopeId → Prop} (m : Machine)

theorem fits (base : Store) (v : Value) : (framesKept base own).Fits () v :=
  .refl (fun _ => trivial) (fun _ _ => ⟨rfl, trivial⟩) v

theorem extends_of_runs {α : Type} {A : Unit → α → α → Prop} {x : Run α}
    (h : (framesKept m.store own).lockstep.Runs () A x x) :
    m.store.Extends own (x.run m).2.store := by
  obtain ⟨_, _, hm, _⟩ := h m m ⟨rfl, Store.extends_refl m.store⟩
  exact hm.2

theorem evaluates (base : Store) (limit levels : Nat) :
    (framesKept base own).lockstep.Evaluates (evalLevels limit levels) (evalLevels limit levels) :=
  (framesKept base own).lockstep.evalLevels_evaluates limit limit ⟨rfl, trivial⟩ levels

theorem eval_extends (limit : Nat) (depth : Int) (form : Value) (scope : ScopeId) :
    m.store.Extends (· = scope) ((eval limit depth form scope).run m).2.store :=
  extends_of_runs m (evaluates m.store limit _ () form form scope scope (fits _ form) ⟨rfl, .inl rfl⟩)

theorem letStar_extends (limit levels : Nat) {head : Value} (tail : List Value) (scope : ScopeId)
    (hhead : SpecialForm.ofHead? head = some .letStar) :
    m.store.Extends (fun _ => False)
      ((evalLevels limit levels (.list (head :: tail)) scope).run m).2.store := by
  cases levels with
  | zero => exact Store.extends_refl m.store
  | succ levels =>
    simp only [evalLevels, Eval.step, Eval.application, hhead, Form.ofTail]
    cases htail : Form.letStarOf tail with
    | error fault => exact Store.extends_refl m.store
    | ok f =>
      obtain ⟨_, _, bs, body, _, _, _, rfl⟩ := Form.letStarOf_ok htail
      have hbs : (framesKept m.store fun _ => False).lockstep.AlikeBindings () bs bs :=
        List.forall₂_same.mpr fun b _ => ⟨rfl, fits m.store b.2⟩
      exact extends_of_runs m (Lockstep.letStar_runs (evaluates m.store limit levels) hbs
        (fits m.store body) fun _ _ => ⟨rfl, trivial⟩)

theorem enterBody_extends (limit levels : Nat) (params : List Symbol) (body : Value)
    (home : ScopeId) (values : List Value) :
    m.store.Extends (fun _ => False)
      ((Eval.enterBody (evalLevels limit levels) params body home values).run m).2.store :=
  extends_of_runs m (Lockstep.enterBody_runs (evaluates m.store limit levels) params
    (fits m.store body) ⟨rfl, trivial⟩ (List.forall₂_same.mpr fun v _ => fits m.store v))

theorem frame_afterAll (es : List Evaluation) {i : ScopeId} (hi : i < m.store.frames.size)
    (hes : ∀ e ∈ es, e.scope ≠ i) :
    (Evaluation.afterAll es m).store.frames[i]? = m.store.frames[i]? := by
  induction es generalizing m with
  | nil => rfl
  | cons e es ih =>
    have he := eval_extends m e.limit e.depth e.form e.scope
    have hi' : i < (e.after m).store.frames.size :=
      Nat.lt_of_lt_of_le hi (Store.size_le_of_extends he)
    have hstep : (e.after m).store.frames[i]? = m.store.frames[i]? :=
      Store.frame_of_extends he hi (hes e (.head _)).symm
    have hrest := ih (e.after m) hi' fun e' he' => hes e' (.tail _ he')
    exact hrest.trans hstep

/-- An evaluation changes no frame but that of its own scope, where names can only be
added at the end. A `let*` and the body of a call change none at all, and what they
leave stays as long as nothing is evaluated in it. -/
theorem evaluation_changes_own_frame_only (limit : Nat) (m : Machine) :
    (∀ depth form scope,
      m.store.Extends (· = scope) ((eval limit depth form scope).run m).2.store) ∧
    (∀ depth head tail scope, SpecialForm.ofHead? head = some .letStar →
      m.store.Keeps ((eval limit depth (.list (head :: tail)) scope).run m).2.store) ∧
    (∀ levels params body home values, m.store.Keeps
      ((Eval.enterBody (evalLevels limit levels) params body home values).run m).2.store) ∧
    ∀ (es : List Evaluation), ∀ i < m.store.frames.size, (∀ e ∈ es, e.scope ≠ i) →
      (Evaluation.afterAll es m).store.frames[i]? = m.store.frames[i]? := by
  refine ⟨fun depth form scope => eval_extends m limit depth form scope, ?_, ?_, ?_⟩
  · intro depth head tail scope hhead
    exact Store.keeps_of_extends (letStar_extends m limit _ tail scope hhead)
  · intro levels params body home values
    exact Store.keeps_of_extends (enterBody_extends m limit levels params body home values)
  · exact fun es i hi hes => frame_afterAll m es hi hes

theorem let_with_call_and_definition :
    let x : Symbol := ⟨"x", by decide⟩
    let y : Symbol := ⟨"y", by decide⟩
    let z : Symbol := ⟨"z", by decide⟩
    let f : Symbol := ⟨"f", by decide⟩
    let plus : Symbol := Operator.add.symbol
    let define : Symbol := ⟨"def!", by decide⟩
    let frames : Array Frame := #[
      ⟨[(plus, .operator .add), (f, .closure [y] (.list [.sym define, .sym z, .sym y]) 0),
        (x, .int 1)], none⟩, ⟨[(x, .int 2)], some 0⟩, ⟨[(z, .int 5)], some 0⟩]
    let added : Array Frame := #[
      ⟨[(x, .int 3), (z, .int 3), (y, .int 3)], some 1⟩, ⟨[(y, .int 3), (z, .int 3)], some 0⟩]
    let form : Value := .list [.sym ⟨"let*", by decide⟩,
      .list [.sym x, .list [.sym f, .int 3], .sym y, .list [.sym define, .sym z, .sym x]],
      .list [.sym plus, .sym y, .sym z]]
    let m : Machine := ⟨⟨frames⟩, #[]⟩
    let n : Machine := ⟨⟨frames ++ added⟩, #[]⟩
    let later : Evaluation := ⟨9, 0, .list [.sym define, .sym z, .int 7], 2⟩
    (eval 9 0 form 1).run m = (.ok (.int 6), n) ∧ m.store.Keeps n.store ∧
      n.store.Extends (· = 2) (later.after n).store ∧
      (Evaluation.afterAll [later] n).store.frames[3]? = n.store.frames[3]? := by
  intro x y z f plus define frames added form m n later
  have hrun : (eval 9 0 form 1).run m = (.ok (.int 6), n) := by
    subst form m n frames added define plus f x y z
    with_unfolding_all rfl
  have hkeeps : m.store.Keeps ((eval 9 0 form 1).run m).2.store :=
    (evaluation_changes_own_frame_only 9 m).2.1 0 _ _ 1 rfl
  rw [hrun] at hkeeps
  obtain ⟨hextends, -, -, hlater⟩ := evaluation_changes_own_frame_only 9 n
  exact ⟨hrun, hkeeps, hextends 0 later.form 2, hlater [later] 3 (by decide) (by decide)⟩

end FrameEffect

end SmallLisp
