import SmallLisp.Proofs.LexicalScope

namespace SmallLisp

namespace Run

variable {ev : Evaluator} {forms : List Value} {α β : Type}

/-- An error of shape that ends the computation is the error of a nested evaluation of one
of the forms, after which nothing else is done. -/
def Blames (ev : Evaluator) (forms : List Value) (x : Run α) : Prop :=
  ∀ m special fault n, x.run m = (.error (.shape special fault), n) →
    ∃ form ∈ forms, ∃ scope m', (ev form scope).run m' = (.error (.shape special fault), n)

theorem blames_eval {form : Value} (h : form ∈ forms) (scope : ScopeId) :
    (ev form scope).Blames ev forms :=
  fun m _ _ _ hm => ⟨form, h, scope, m, hm⟩

theorem blames_throw {e : EvalError} (h : ∀ special fault, e ≠ .shape special fault) :
    (throw e : Run α).Blames ev forms := by
  intro m special fault n hm
  cases hm
  exact absurd rfl (h special fault)

theorem blames_of_succeeds {x : Run α} (h : ∀ m, ∃ a n, x.run m = (.ok a, n)) :
    x.Blames ev forms := by
  intro m special fault n hm
  obtain ⟨a, n', h⟩ := h m
  cases hm.symm.trans h

theorem blames_pure (a : α) : (pure a : Run α).Blames ev forms :=
  blames_of_succeeds fun m => ⟨a, m, rfl⟩

theorem blames_bind {x : Run α} {f : α → Run β} (hx : x.Blames ev forms)
    (hf : ∀ a, (f a).Blames ev forms) : (x >>= f).Blames ev forms := by
  intro m special fault n hm
  rw [run_bind] at hm
  rcases hxm : x.run m with ⟨e | a, m'⟩
  all_goals
    rw [hxm] at hm
    dsimp only at hm
  · obtain ⟨he, rfl⟩ := Prod.mk.inj hm
    obtain rfl := Except.error.inj he
    exact hx m special fault _ hxm
  · exact hf a m' special fault n hm

end Run

namespace Eval

open Run

variable {ev : Evaluator} {forms : List Value}

theorem sequence_blames (scope : ScopeId) {vs : List Value} (h : ∀ v ∈ vs, v ∈ forms) :
    (sequence ev scope vs).Blames ev forms := by
  induction vs with
  | nil => exact blames_pure _
  | cons v vs ih =>
    obtain ⟨hv, hvs⟩ := List.forall_mem_cons.mp h
    cases vs with
    | nil => exact blames_eval hv scope
    | cons _ _ => exact blames_bind (blames_eval hv scope) fun _ => ih hvs

theorem bindEach_blames (scope : ScopeId) {bs : Bindings} (h : ∀ b ∈ bs, b.2 ∈ forms) :
    (bindEach ev scope bs).Blames ev forms := by
  induction bs with
  | nil => exact blames_pure _
  | cons b bs ih =>
    obtain ⟨hb, hbs⟩ := List.forall_mem_cons.mp h
    refine blames_bind (blames_eval hb scope) fun v => ?_
    exact blames_bind (blames_of_succeeds fun m => ⟨_, _, rfl⟩) fun _ => ih hbs

theorem boolean_blames (special : SpecialForm) {operand : Value} (h : operand ∈ forms)
    (scope : ScopeId) : (boolean ev special operand scope).Blames ev forms := by
  refine blames_bind (blames_eval h scope) fun v => ?_
  cases v with
  | bool b => exact blames_pure b
  | _ => exact blames_throw nofun

theorem items_blames (special : SpecialForm) {operand : Value} (h : operand ∈ forms)
    (scope : ScopeId) : (items ev special operand scope).Blames ev forms := by
  refine blames_bind (blames_eval h scope) fun v => ?_
  cases v with
  | list vs => exact blames_pure vs
  | _ => exact blames_throw nofun

theorem form_blames (scope : ScopeId) (f : Form) :
    (form ev scope f).Blames ev (f.parts ++ f.innerParts) := by
  cases f with
  | define name value =>
    refine blames_bind (blames_eval (.head _) scope) fun v => ?_
    exact blames_bind (blames_of_succeeds fun m => ⟨_, _, rfl⟩) fun _ => blames_pure v
  | letStar bs body =>
    refine blames_bind (blames_of_succeeds fun m => ⟨_, _, rfl⟩) fun inner => ?_
    have hbs : ∀ b ∈ bs, b.2 ∈ body :: bs.map (·.2) :=
      fun b hb => .tail _ (List.mem_map_of_mem hb)
    exact blames_bind (bindEach_blames inner hbs) fun _ => blames_eval (.head _) inner
  | lambda params body => exact blames_pure _
  | sequence vs => exact sequence_blames scope fun v hv => List.mem_append_left _ hv
  | conditional test yes no =>
    refine blames_bind (blames_eval (.head _) scope) fun v => ?_
    split
    · exact blames_eval (.tail _ (.head _)) scope
    · cases no with
      | none => exact blames_pure _
      | some no => exact blames_eval (.tail _ (.tail _ (.head _))) scope
  | connective c left right =>
    refine blames_bind (boolean_blames _ (.head _) scope) fun a => ?_
    exact blames_bind (boolean_blames _ (.tail _ (.head _)) scope) fun b => blames_pure _
  | negation operand => exact blames_bind (boolean_blames _ (.head _) scope) fun b => blames_pure _
  | print operand =>
    refine blames_bind (blames_eval (.head _) scope) fun v => ?_
    exact blames_bind (blames_of_succeeds fun m => ⟨_, _, rfl⟩) fun _ => blames_pure _
  | literalList items => exact blames_pure _
  | isList operand =>
    refine blames_bind (blames_eval (.head _) scope) fun v => ?_
    cases v <;> exact blames_pure _
  | isEmpty operand => exact blames_bind (items_blames _ (.head _) scope) fun vs => blames_pure _
  | count operand => exact blames_bind (items_blames _ (.head _) scope) fun vs => blames_pure _
  | sameKind left right =>
    refine blames_bind (blames_eval (.head _) scope) fun a => ?_
    exact blames_bind (blames_eval (.tail _ (.head _)) scope) fun b => blames_pure _

theorem putEach_run (scope : ScopeId) (entries : List (Symbol × Value)) (m : Machine) :
    (putEach scope entries).run m = (.ok (), { m with store := m.store.putAll scope entries }) := by
  induction entries generalizing m with
  | nil =>
    rw [Store.putAll_nil]
    rfl
  | cons entry entries ih =>
    rw [Store.putAll_cons]
    exact ih { m with store := m.store.put scope entry.1 entry.2 }

theorem length_of_all {scope : ScopeId} {forms values : List Value} {m n : Machine}
    (h : (all ev scope forms).run m = (.ok values, n)) : values.length = forms.length := by
  induction forms generalizing m values n with
  | nil =>
    cases h
    rfl
  | cons form forms ih =>
    rw [all, run_bind] at h
    rcases hv : (ev form scope).run m with ⟨e | v, m'⟩
    all_goals
      rw [hv] at h
      dsimp only at h
    · cases h
    · rw [run_bind] at h
      rcases hvs : (all ev scope forms).run m' with ⟨e | vs, n'⟩
      all_goals
        rw [hvs] at h
        cases h
      exact congrArg Nat.succ (ih hvs)

theorem enterBody_run (ev : Evaluator) (params : List Symbol) (body : Value) (home : ScopeId)
    (values : List Value) (m : Machine) :
    (enterBody ev params body home values).run m =
      (ev body m.store.frames.size).run { m with
        store := (m.store.create (some home)).2.putAll m.store.frames.size (params.zip values) } := by
  have hcreate : (Run.create home).run m =
      (.ok m.store.frames.size, { m with store := (m.store.create (some home)).2 }) := rfl
  rw [enterBody, run_bind, hcreate]
  dsimp only
  rw [run_bind, putEach_run]

theorem callClosure_run {params : List Symbol} {args : List Value}
    (h : params.length = args.length) (body : Value) (home scope : ScopeId) (m : Machine) :
    (callClosure ev params body home args scope).run m = match (all ev scope args).run m with
      | (.ok values, n) => (enterBody ev params body home values).run n
      | (.error e, n) => (.error e, n) := by
  rw [callClosure, if_pos h]
  refine (run_bind _ _ m).trans ?_
  rcases (all ev scope args).run m with ⟨e | values, n⟩ <;> rfl

theorem enterBody_run_enter (ev : Evaluator) {params : List Symbol} {values : List Value}
    (h : params.length = values.length) (body : Value) (home : ScopeId) (m : Machine) :
    ∃ inner store, m.store.enter home params values = .ok (inner, store) ∧
      (enterBody ev params body home values).run m = (ev body inner).run { m with store } :=
  ⟨_, _, if_pos h, enterBody_run ev params body home values m⟩

theorem callClosure_of_ne {params : List Symbol} {args : List Value}
    (h : params.length ≠ args.length) (body : Value) (home scope : ScopeId) :
    callClosure ev params body home args scope = throw (.arity params.length args.length) :=
  if_neg h

theorem callOperator_of_ne (op : Operator) {args : List Value} (h : args.length ≠ 2)
    (scope : ScopeId) : callOperator ev op args scope = throw (.arity 2 args.length) := by
  unfold callOperator
  split
  · exact absurd rfl h
  · rfl

theorem application_of_fault (ev : Evaluator) {head : Value} {tail : List Value}
    {special : SpecialForm} {fault : ShapeFault} (hs : SpecialForm.ofHead? head = some special)
    (hf : Form.ofTail special tail = .error fault) (scope : ScopeId) :
    application ev head tail scope = throw (.shape special fault) := by
  rw [application, hs]
  dsimp only
  rw [hf]

theorem symbol_run {key : Symbol} {v : Value} {scope : ScopeId} {m : Machine}
    (hv : m.store.find? key scope = some v) : (symbol key scope).run m = (.ok v, m) := by
  have hfind : (Run.find? key scope).run m = (.ok (some v), m) := by
    rw [← hv]
    rfl
  refine (run_bind _ _ m).trans ?_
  rw [hfind]
  rfl

section

variable {head : Value} (tail : List Value) {scope : ScopeId} {m n : Machine}

theorem application_of_closure {params : List Symbol} {body : Value} {home : ScopeId}
    (hs : SpecialForm.ofHead? head = none)
    (hv : (ev head scope).run m = (.ok (.closure params body home), n)) :
    (application ev head tail scope).run m = (callClosure ev params body home tail scope).run n := by
  rw [application, hs]
  refine (run_bind _ _ m).trans ?_
  simp only [hv]

theorem application_of_operator {op : Operator} (hs : SpecialForm.ofHead? head = none)
    (hv : (ev head scope).run m = (.ok (.operator op), n)) :
    (application ev head tail scope).run m = (callOperator ev op tail scope).run n := by
  rw [application, hs]
  refine (run_bind _ _ m).trans ?_
  simp only [hv]

end

end Eval

namespace SpecialForm

/-- The heads of special forms, each with the name that the errors of its form give. -/
def headNames : List (String × String) := [
  ("def!", "def!"), ("let*", "let*"), ("fn*", "fn*"), ("do", "do"), ("if", "if"),
  ("and", "and"), ("&&", "and"), ("or", "or"), ("||", "or"), ("xor", "xor"), ("^", "xor"),
  ("not", "not"), ("!", "not"), ("prn", "prn"), ("list", "list"), ("list?", "list?"),
  ("empty?", "empty?"), ("count", "count"), ("type?", "type?")]

theorem headNames_eq_map : headNames = table.map fun entry => (entry.1, entry.2.name) := rfl

theorem mem_table_iff {key : String} {special : SpecialForm} :
    (key, special) ∈ table ↔ ofName? key = some special := by
  have hall : ∀ entry ∈ table, ofName? entry.1 = some entry.2 := by decide
  refine ⟨hall _, fun h => ?_⟩
  obtain ⟨before, after, htable, _⟩ := List.lookup_eq_some_iff.mp h
  rw [htable]
  exact List.mem_append_right _ (.head _)

theorem name_of_head_iff {head : Value} (name : String) :
    (∃ special, ofHead? head = some special ∧ special.name = name) ↔
      ∃ s, head = .sym s ∧ (s.name, name) ∈ headNames := by
  rw [headNames_eq_map]
  constructor
  · rintro ⟨special, hs, rfl⟩
    cases head with
    | sym s => exact ⟨s, rfl, List.mem_map.mpr ⟨_, mem_table_iff.mpr hs, rfl⟩⟩
    | _ => cases hs
  · rintro ⟨s, rfl, hs⟩
    obtain ⟨⟨key, special⟩, hmem, hentry⟩ := List.mem_map.mp hs
    obtain ⟨rfl, rfl⟩ := Prod.mk.inj hentry
    exact ⟨special, mem_table_iff.mp hmem, rfl⟩

end SpecialForm

theorem eval_application {limit : Nat} {depth : Int} (hdepth : depth < limit) (head : Value)
    (tail : List Value) (scope : ScopeId) :
    eval limit depth (.list (head :: tail)) scope =
      Eval.application (eval limit (depth + 1)) head tail scope := by
  rw [eval_eq, if_neg (by omega)]
  rfl

/-- The shape of a special form and the number of arguments of a call are checked before
anything else is done. A wrong shape can be told from what follows the head, and no evaluator
is asked anything; the error has the name that goes with the head. Of a form of the right
shape, errors of shape are those of nested evaluations. A wrong number of arguments is told
right after the head is evaluated; with the right number, the closure enters its scope without
an error. -/
theorem shape_and_arity_come_first {limit : Nat} {depth : Int} (hdepth : depth < limit)
    (head : Value) (tail : List Value) (scope : ScopeId) (m : Machine) :
    let nested := eval limit (depth + 1)
    let whole := eval limit depth (.list (head :: tail)) scope
    (∀ name, (∃ special, SpecialForm.ofHead? head = some special ∧ special.name = name) ↔
      ∃ s, head = .sym s ∧ (s.name, name) ∈ SpecialForm.headNames) ∧
    (∀ special, SpecialForm.ofHead? head = some special →
      (¬ special.Accepts tail → ∃ fault, Form.ofTail special tail = .error fault ∧
        (EvalError.shape special fault).message =
          "Malformed \x22" ++ special.name ++ "\x22: " ++ fault.message ∧
        whole.run m = (.error (.shape special fault), m) ∧
        ∀ ev, (Eval.step ev (.list (head :: tail)) scope).run m = (.error (.shape special fault), m)) ∧
      (special.Accepts tail → ∃ f, Form.ofTail special tail = .ok f ∧
        whole = Eval.form nested scope f ∧
        ∀ ev, (Eval.form ev scope f).Blames ev (f.parts ++ f.innerParts))) ∧
    (SpecialForm.ofHead? head = none → ∀ n,
      (∀ params body home, (nested head scope).run m = (.ok (.closure params body home), n) →
        (params.length ≠ tail.length →
          whole.run m = (.error (.arity params.length tail.length), n)) ∧
        (params.length = tail.length →
          (∀ e n', (Eval.all nested scope tail).run n = (.error e, n') →
            whole.run m = (.error e, n')) ∧
          ∀ values n', (Eval.all nested scope tail).run n = (.ok values, n') →
            ∃ inner store, n'.store.enter home params values = .ok (inner, store) ∧
              whole.run m = (nested body inner).run { n' with store })) ∧
      ∀ op, (nested head scope).run m = (.ok (.operator op), n) → tail.length ≠ 2 →
        whole.run m = (.error (.arity 2 tail.length), n)) := by
  intro nested whole
  have hwhole : whole = Eval.application nested head tail scope :=
    eval_application hdepth head tail scope
  rw [hwhole]
  refine ⟨SpecialForm.name_of_head_iff, fun special hs => ⟨fun hshape => ?_, fun hshape => ?_⟩,
    fun hs n => ⟨?_, ?_⟩⟩
  · cases hf : Form.ofTail special tail with
    | ok f => exact absurd ((Form.ofTail_ok_iff special).mp ⟨f, hf⟩) hshape
    | error fault =>
      refine ⟨fault, rfl, rfl, by rw [Eval.application_of_fault nested hs hf]; rfl, fun ev => ?_⟩
      rw [Eval.step, Eval.application_of_fault ev hs hf]
      rfl
  · obtain ⟨f, hf⟩ := (Form.ofTail_ok_iff special).mpr hshape
    exact ⟨f, hf, Eval.application_special nested hs hf scope, fun ev => Eval.form_blames scope f⟩
  · intro params body home hv
    rw [Eval.application_of_closure tail hs hv]
    refine ⟨fun hne => ?_, fun heq => ?_⟩
    · rw [Eval.callClosure_of_ne hne]
      rfl
    · rw [Eval.callClosure_run heq]
      refine ⟨fun e n' he => by rw [he], fun values n' hvalues => ?_⟩
      rw [hvalues]
      have hlength := heq.trans (Eval.length_of_all hvalues).symm
      exact Eval.enterBody_run_enter nested hlength body home n'
  · intro op hv hne
    rw [Eval.application_of_operator tail hs hv, Eval.callOperator_of_ne op hne]
    rfl

theorem odd_bindings_print_nothing :
    let x : Symbol := ⟨"x", by decide⟩
    let print : Value := .list [.sym ⟨"prn", by decide⟩, .int 1]
    let form : Value := .list [.sym ⟨"let*", by decide⟩, .list [.sym x, print, .sym x], print]
    (EvalError.shape .letStar .bindingsOdd).message =
        "Malformed \x22let*\x22: binding list must have an even number of elements" ∧
      ∀ m, (eval 9 0 form 0).run m = (.error (.shape .letStar .bindingsOdd), m) := by
  intro x print form
  refine ⟨by decide, fun m => ?_⟩
  obtain ⟨_, hspecial, _⟩ := shape_and_arity_come_first (show (0 : Int) < (9 : Nat) by decide)
    (.sym ⟨"let*", by decide⟩) [.list [.sym x, print, .sym x], print] 0 m
  have hodd : ¬ SpecialForm.letStar.Accepts [.list [.sym x, print, .sym x], print] := by
    rintro ⟨items, forms, htail, heven, _⟩
    cases htail
    exact absurd heven (by decide)
  obtain ⟨fault, hfault, _, hrun, _⟩ := (hspecial .letStar rfl).1 hodd
  have hbindings : Form.ofTail .letStar [.list [.sym x, print, .sym x], print] =
      .error .bindingsOdd := by with_unfolding_all rfl
  obtain rfl := Except.error.inj (hbindings.symm.trans hfault)
  exact hrun

end SmallLisp
