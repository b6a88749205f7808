import Mathlib.Data.Nat.Factorial.Basic
import SmallLisp.Proofs.ExactLevels
import SmallLisp.Proofs.ReadBack
import SmallLisp.Proofs.WordArithmetic

namespace SmallLisp

namespace Factorial

open Session (root)

def name : Symbol := ⟨"fact", by decide⟩

def parameter : Symbol := ⟨"n", by decide⟩

def withParameter (op : Operator) (right : Value) : Value :=
  .list [.sym op.symbol, .sym parameter, right]

def test : Value := withParameter (.order .le) (.int 1)

def predecessor : Value := withParameter .sub (.int 1)

def call (arg : Value) : Value := .list [.sym name, arg]

def product : Value := withParameter .mul (call predecessor)

def body : Value := .list [.sym SpecialForm.conditionalSymbol, test, .int 1, product]

def lambda : Value := .list [.sym SpecialForm.lambdaSymbol, .list [.sym parameter], body]

def definition : Value := .list [.sym SpecialForm.defineSymbol, .sym name, lambda]

def source : String := "(def! fact (fn* (n) (if (<= n 1) 1 (* n (fact (- n 1))))))"

def closure : Value := .closure [parameter] body root

def operators : List Operator := [.order .le, .mul, .sub]

/-- The name means the function that the definition makes, and the operators in its body have
their meaning. -/
structure Bound (b : Bindings) : Prop where
  closure : b.value? name = some closure
  operator : ∀ op ∈ operators, b.value? op.symbol = some (.operator op)

structure Visible (s : Store) (scope : ScopeId) : Prop where
  closure : s.find? name scope = some closure
  operator : ∀ op ∈ operators, s.find? op.symbol scope = some (.operator op)

structure Activation (s : Store) (scope : ScopeId) (n : Int) : Prop where
  root : Visible s root
  visible : Visible s scope
  parameter : s.find? parameter scope = some (.int n)

section Scopes

variable {s t : Store} {scope : ScopeId}

theorem visible_of_bound (h : Bound (s.bindings scope)) : Visible s scope :=
  ⟨Store.find?_of_bindings h.closure, fun op hop => Store.find?_of_bindings (h.operator op hop)⟩

theorem visible_of_keeps (hs : s.Keeps t) (h : Visible s scope) : Visible t scope :=
  ⟨Store.find?_some_of_keeps hs h.closure,
    fun op hop => Store.find?_some_of_keeps hs (h.operator op hop)⟩

theorem symbol_ne_parameter (op : Operator) : op.symbol ≠ parameter := by
  have hall : ∀ op ∈ Operator.all, op.symbol ≠ parameter := by decide
  exact hall op op.mem_all

/-- Every call has a scope of its own, which hides nothing but a parameter of another call. -/
theorem activation_opened (h : Visible s root) (n : Int) :
    Activation (s.opened (some root) [(parameter, .int n)]) s.frames.size n := by
  have hroot := visible_of_keeps (s.keeps_opened (some root) [(parameter, .int n)]) h
  have hlt : root < s.frames.size := Store.lt_of_find? h.closure
  have hfind {key : Symbol} (hkey : key ≠ parameter) :
      (s.opened (some root) [(parameter, .int n)]).find? key s.frames.size =
        (s.opened (some root) [(parameter, .int n)]).find? key root := by
    have hnone : (Bindings.putAll [(parameter, Value.int n)] []).value? key = none :=
      if_neg (Ne.symm hkey)
    rw [Store.find?_opened hlt, hnone, Option.none_or]
  refine ⟨hroot, ⟨?_, fun op hop => ?_⟩, ?_⟩
  · rw [hfind (by decide), hroot.closure]
  · rw [hfind (symbol_ne_parameter op), hroot.operator op hop]
  · have hvalue : (Bindings.putAll [(parameter, Value.int n)] []).value? parameter = some (.int n) := rfl
    rw [Store.find?_opened hlt, hvalue, Option.some_or]

end Scopes

section Levels

variable {s : Store} {scope : ScopeId} {n : Int} {a b : Nat} {v w : Value}

theorem needs_withParameter (h : Activation s scope n) {op : Operator} (hop : op ∈ operators)
    {right : Value} (hr : right.Needs s scope a v) (hw : op.apply (.int n) v = .ok w) :
    (withParameter op right).Needs s scope (max 1 (max 1 a) + 1) w :=
  Value.needs_operator (SpecialForm.ofHead?_operator op)
    (Value.needs_symbol (h.visible.operator op hop)) (Value.needs_symbol h.parameter) hr hw

theorem needs_test (h : Activation s scope n) : test.Needs s scope 2 (.bool (decide (n ≤ 1))) :=
  needs_withParameter h (by decide) (Value.needs_literal (v := .int 1) trivial) rfl

theorem needs_predecessor (h : Activation s scope n) :
    predecessor.Needs s scope 2 (.int (Number.wrap (n - 1))) :=
  needs_withParameter h (by decide) (Value.needs_literal (v := .int 1) trivial) rfl

theorem needs_call (hroot : Visible s root) (hscope : Visible s scope) {arg : Value}
    (harg : arg.Needs s scope a (.int n))
    (hbody : ∀ t inner, Activation t inner n → body.Needs t inner b v) :
    (call arg).Needs s scope (max 1 (max a b) + 1) v := by
  have hs : SpecialForm.ofHead? (.sym name) = none := by decide
  have hargs : Value.NeedsEach s scope [arg] (max a 0) [.int n] := .cons harg .nil
  rw [Nat.max_zero] at hargs
  refine Value.needs_call hs (Value.needs_symbol hscope.closure) rfl hargs fun t ht => ?_
  exact hbody _ _ (activation_opened (visible_of_keeps ht hroot) n)

theorem mul_apply_factorial {k : Nat} (hn : n = (k + 1 : Nat)) :
    Operator.mul.apply (.int n) (.int (Number.wrap k.factorial)) =
      .ok (.int (Number.wrap (k + 1).factorial)) := by
  have hmod := (Number.wrap_modEq k.factorial).mul_left n
  rw [hn, ← Nat.cast_mul, ← Nat.factorial_succ, ← hn] at hmod
  rw [← Number.wrap_eq_of_modEq hmod]
  exact RingOperator.apply_int .mul _ _

/-- A body takes three levels for itself and three for each of the calls inside it. -/
theorem needs_body (k : Nat) (hk : (n - 1).toNat = k)
    (hn : Number.intMin ≤ n ∧ n ≤ Number.intMax) (h : Activation s scope n) :
    body.Needs s scope (3 * (k + 1)) (.int (Number.wrap (k + 1).factorial)) := by
  induction k generalizing s scope n with
  | zero =>
    have hle : n ≤ 1 := by omega
    refine Value.needs_conditional (needs_test h) ?_ (Value.needs_literal (v := .int 1) trivial)
    rw [decide_eq_true hle]
    rfl
  | succ k ih =>
    -- The call inside goes to a scope of its own in a later store, and to this hypothesis there.
    have hgt : ¬ n ≤ 1 := by omega
    have hprevious : Number.wrap (n - 1) = n - 1 :=
      Number.wrap_eq_self (by unfold Number.intMin; omega) (by omega)
    have hpredecessor := needs_predecessor h
    rw [hprevious] at hpredecessor
    have hcall := needs_call h.root h.visible hpredecessor fun t inner ht =>
      ih (by omega) ⟨by unfold Number.intMin; omega, by omega⟩ ht
    have hproduct := needs_withParameter h (by decide) hcall
      (mul_apply_factorial (show n = (k + 1 + 1 : Nat) by omega))
    have hbranch : (if (Value.bool (decide (n ≤ 1))).isTruthy then Value.int 1 else product) = product := by
      rw [decide_eq_false hgt]
      rfl
    have hbody := Value.needs_conditional (needs_test h) hbranch hproduct
    have hlevels : max 2 (max 1 (max 1 (max 1 (max 2 (3 * (k + 1))) + 1)) + 1) + 1 = 3 * (k + 2) := by
      omega
    rwa [hlevels] at hbody

end Levels

section Texts

theorem display_call (n : Int) : (call (.int n)).display = "(fact " ++ toString n ++ ")" := by
  rw [call, Value.display, Value.displayEach_eq_map]
  rfl

theorem display_definition : definition.display = source := by
  decide +kernel

theorem readable_sym {key : Symbol} (h : key.Readable) (k : Nat) : (Value.sym key).Readable k :=
  .atom (.sym h)

theorem readable_one (k : Nat) : (Value.int 1).Readable k := .atom (.int 1 (by decide) (by decide))

theorem readable_call {arg : Value} {k : Nat} (h : arg.Readable k) : (call arg).Readable (k + 1) := by
  refine .list ?_
  simp only [List.forall_mem_cons]
  exact ⟨readable_sym (by decide +kernel) k, h, List.forall_mem_nil _⟩

theorem readable_withParameter (op : Operator) {right : Value} {k : Nat} (h : right.Readable k) :
    (withParameter op right).Readable (k + 1) := by
  refine .list ?_
  simp only [List.forall_mem_cons]
  exact ⟨readable_sym op.readable_symbol k, readable_sym (by decide +kernel) k, h, List.forall_mem_nil _⟩

theorem readable_body (k : Nat) : body.Readable (k + 4) := by
  have hpredecessor : predecessor.Readable (k + 1) := readable_withParameter .sub (readable_one k)
  have hproduct : product.Readable (k + 3) := readable_withParameter .mul (readable_call hpredecessor)
  refine .list ?_
  simp only [List.forall_mem_cons]
  exact ⟨readable_sym (by decide +kernel) _, readable_withParameter (.order .le) (readable_one _),
    readable_one _, hproduct, List.forall_mem_nil _⟩

theorem readable_definition (k : Nat) : definition.Readable (k + 6) := by
  have hparams : (Value.list [.sym parameter]).Readable (k + 4) :=
    .list (List.forall_mem_singleton.mpr (readable_sym (by decide +kernel) _))
  have hlambda : lambda.Readable (k + 5) := by
    refine .list ?_
    simp only [List.forall_mem_cons]
    exact ⟨readable_sym (by decide +kernel) _, hparams, readable_body k, List.forall_mem_nil _⟩
  refine .list ?_
  simp only [List.forall_mem_cons]
  exact ⟨readable_sym (by decide +kernel) _, readable_sym (by decide +kernel) _, hlambda,
    List.forall_mem_nil _⟩

/-- The definition nests its lists six deep, and gives the closure in three levels. -/
theorem submit_source {limit : Nat} (h : 6 ≤ limit) (s : Session) :
    s.submit limit source = (⟨.ok closure, #[]⟩, s.bind name closure) := by
  obtain ⟨k, rfl⟩ := Nat.exists_eq_add_of_le' h
  have hread : Program.read (k + 6) source = .ok (Program.sequence [definition]) := by
    rw [← display_definition]
    exact Program.read_display_of_short (readable_definition k) (by decide +kernel)
  have hrun : (eval (k + 6) 0 (Program.sequence [definition]) root).run ⟨s.store, #[]⟩ =
      (.ok closure, ⟨s.store.put root name closure, #[]⟩) := by
    rfl
  rw [Session.submit_of_read hread, Session.evaluate_of_ok hrun]
  rfl

end Texts

end Factorial

/-- The text `source` makes a recursive function at the root. Where the root binds its name to
that function, and the operators that it uses to themselves, the text `(fact n)` gives the
factorial of `n`, wrapped to 32 bits, or exceeds the limit. Every call down to the one for 1 takes
three levels, and one level each goes to the text and to the operands of the last comparison. The
root has the same bindings afterwards. -/
theorem factorial_takes_three_levels_per_call :
    (∀ (limit : Nat) (s : Session), 6 ≤ limit → s.submit limit Factorial.source =
      (⟨.ok Factorial.closure, #[]⟩, s.bind Factorial.name Factorial.closure)) ∧
    ∀ (limit : Nat) (s : Session) (n : Int), 1 ≤ limit → Factorial.Bound s.bindings →
      Number.intMin ≤ n ∧ n ≤ Number.intMax →
        let m := (max n 1).toNat
        let answer := s.submit limit ("(fact " ++ toString n ++ ")")
        (3 * m + 2 ≤ limit → answer.1 = ⟨.ok (.int (Number.wrap m.factorial)), #[]⟩) ∧
        (limit < 3 * m + 2 → answer.1 = ⟨.error (.evaluation (.tooDeep limit)), #[]⟩) ∧
        answer.2.bindings = s.bindings := by
  refine ⟨fun limit s h => Factorial.submit_source h s, fun limit s n hlimit hs hn => ?_⟩
  intro m answer
  have hvisible : Factorial.Visible s.store Session.root := Factorial.visible_of_bound hs
  have hm : m = (n - 1).toNat + 1 := by omega
  have hcall := Factorial.needs_call hvisible hvisible (Value.needs_literal (v := .int n) trivial)
    fun t inner ht => Factorial.needs_body _ rfl hn ht
  have hlevels : max 1 (max 1 (3 * ((n - 1).toNat + 1))) + 1 + 1 = 3 * m + 2 := by omega
  have hread : Program.read limit ("(fact " ++ toString n ++ ")") =
      .ok (Program.sequence [Factorial.call (.int n)]) := by
    obtain ⟨k, rfl⟩ := Nat.exists_eq_add_of_le' hlimit
    rw [← Factorial.display_call]
    exact Program.read_display_of_short (Factorial.readable_call (.atom (.int n hn.1 hn.2))) rfl
  obtain ⟨hanswer, hbindings⟩ :=
    Session.submit_of_needs hread (Store.lt_of_find? hvisible.closure) hcall
  rw [hlevels, ← hm] at hanswer
  refine ⟨fun hle => ?_, fun hlt => ?_, hbindings⟩
  · rw [if_pos hle] at hanswer
    exact hanswer
  · rw [if_neg (Nat.not_le.mpr hlt)] at hanswer
    exact hanswer

theorem factorial_of_thirteen :
    let s := (Session.fresh.submit 6 Factorial.source).2
    let answer (limit : Nat) := s.submit limit "(fact 13)"
    Factorial.Bound s.bindings ∧ (answer 41).1 = ⟨.ok (.int 1932053504), #[]⟩ ∧
      (answer 40).1 = ⟨.error (.evaluation (.tooDeep 40)), #[]⟩ ∧ (answer 40).2.bindings = s.bindings := by
  intro s answer
  obtain ⟨hdefine, hcall⟩ := factorial_takes_three_levels_per_call
  have hs : s = Session.fresh.bind Factorial.name Factorial.closure := by
    change (Session.fresh.submit 6 Factorial.source).2 = _
    rw [hdefine 6 Session.fresh (by decide)]
  have hbound : Factorial.Bound s.bindings := by
    rw [hs]
    refine ⟨rfl, ?_⟩
    simp only [Factorial.operators, List.forall_mem_cons]
    exact ⟨rfl, rfl, rfl, List.forall_mem_nil _⟩
  obtain ⟨hvalue, -, -⟩ := hcall 41 s 13 (by decide) hbound (by decide)
  obtain ⟨-, hdeep, hroot⟩ := hcall 40 s 13 (by decide) hbound (by decide)
  have htext : "(fact " ++ toString (13 : Int) ++ ")" = "(fact 13)" := by decide +kernel
  rw [htext] at hvalue hdeep hroot
  exact ⟨hbound, hvalue (by decide), hdeep (by decide), hroot⟩

end SmallLisp
