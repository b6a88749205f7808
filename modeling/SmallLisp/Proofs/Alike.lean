import Mathlib.Data.List.Forall2
import SmallLisp.Form
import SmallLisp.Operator.Apply
import SmallLisp.Scope
import SmallLisp.Value.Display

namespace SmallLisp

namespace Value

def IsAtom : Value → Prop
  | list _ => False
  | closure .. => False
  | _ => True

@[elab_as_elim, induction_eliminator]
theorem ind {motive : Value → Prop} (atom : ∀ v : Value, v.IsAtom → motive v)
    (list : ∀ items, (∀ v ∈ items, motive v) → motive (.list items))
    (closure : ∀ params body scope, motive body → motive (.closure params body scope)) :
    ∀ v, motive v :=
  fun v => @Value.rec motive (fun items => ∀ v ∈ items, motive v) (fun _ => atom _ trivial)
    (fun _ => atom _ trivial) (fun _ => atom _ trivial) (atom _ trivial) (fun _ => atom _ trivial)
    (fun _ => atom _ trivial) list (fun _ _ _ => closure _ _ _) (fun _ => atom _ trivial) nofun
    (fun _ _ ih ihs => List.forall_mem_cons.mpr ⟨ih, ihs⟩) v

/-- Two values that differ at most in the scopes which their closures hold. At every
atom and every list `node` holds, and at every closure `link` relates the two scopes
for the closure's body. -/
inductive Alike (node : Value → Prop) (link : Value → ScopeId → ScopeId → Prop) :
    Value → Value → Prop
  | atom {v : Value} (ha : v.IsAtom) (hn : node v) : Alike node link v v
  | list {as bs : List Value} (hn : node (.list as)) (h : List.Forall₂ (Alike node link) as bs) :
      Alike node link (.list as) (.list bs)
  | closure {params : List Symbol} {b c : Value} {i j : ScopeId} (h : Alike node link b c)
      (hl : link b i j) : Alike node link (.closure params b i) (.closure params c j)

namespace Alike

variable {node node' : Value → Prop} {link link' : Value → ScopeId → ScopeId → Prop}

theorem ind {motive : Value → Value → Prop}
    (atom : ∀ v, v.IsAtom → node v → motive v v)
    (list : ∀ as bs, node (.list as) → List.Forall₂ (Alike node link) as bs →
      List.Forall₂ motive as bs → motive (.list as) (.list bs))
    (closure : ∀ params b c i j, Alike node link b c → motive b c → link b i j →
      motive (.closure params b i) (.closure params c j))
    {v w : Value} (h : Alike node link v w) : motive v w :=
  @Alike.rec node link (fun v w _ => motive v w) (fun as bs _ => List.Forall₂ motive as bs)
    (fun ha hn => atom _ ha hn) (fun hn h ih => list _ _ hn h ih)
    (fun h hl ih => closure _ _ _ _ _ h ih hl) .nil (fun _ _ ih ihs => .cons ih ihs) v w h

theorem mono (hlink : ∀ b i j, link b i j → link' b i j) {v w : Value}
    (h : Alike node link v w) : Alike node link' v w := by
  refine ind (motive := Alike node link') ?_ ?_ ?_ h
  · exact fun v ha hn => .atom ha hn
  · exact fun as bs hn _ ih => .list hn ih
  · exact fun params b c i j _ ih hl => .closure ih (hlink b i j hl)

theorem mono_node (hnode : ∀ v, node v → node' v) {v w : Value} (h : Alike node link v w) :
    Alike node' link v w := by
  refine ind (motive := Alike node' link) ?_ ?_ ?_ h
  · exact fun v ha hn => .atom ha (hnode v hn)
  · exact fun as bs hn _ ih => .list (hnode _ hn) ih
  · exact fun params b c i j _ ih hl => .closure ih hl

theorem refl (hn : ∀ v, node v) (hl : ∀ b i, link b i i) (v : Value) : Alike node link v v := by
  induction v with
  | atom v ha => exact .atom ha (hn v)
  | list items ih => exact .list (hn _) (List.forall₂_same.mpr ih)
  | closure params body scope ih => exact .closure ih (hl body scope)

theorem eq_of_link (hl : ∀ b i j, link b i j → i = j) {v w : Value} (h : Alike node link v w) :
    v = w := by
  refine ind (motive := fun v w => v = w) ?_ ?_ ?_ h
  · exact fun _ _ _ => rfl
  · intro as bs _ _ ih
    rw [List.forall₂_eq_eq_eq] at ih
    rw [ih]
  · intro params b c i j _ ih h
    rw [ih, hl b i j h]

theorem node_of_isAtom {v w : Value} (h : Alike node link v w) (ha : v.IsAtom) : node v := by
  cases h with
  | atom _ hn => exact hn
  | list => cases ha
  | closure => cases ha

theorem kind_eq {v w : Value} (h : Alike node link v w) : v.kind = w.kind := by
  cases h <;> rfl

theorem isTruthy_eq {v w : Value} (h : Alike node link v w) : v.isTruthy = w.isTruthy := by
  cases h <;> rfl

theorem symm {R : ScopeId → ScopeId → Prop} {v w : Value}
    (h : Alike (fun _ => True) (fun _ => R) v w) : Alike (fun _ => True) (fun _ => Function.swap R) w v := by
  refine ind (motive := fun v w => Alike (fun _ => True) (fun _ => Function.swap R) w v) ?_ ?_ ?_ h
  · exact fun v ha _ => .atom ha trivial
  · exact fun as bs _ _ ih => .list trivial ih.flip
  · exact fun params b c i j _ ih hl => .closure ih hl

theorem exists_mem_left {α β : Type} {R : α → β → Prop} {as : List α} {bs : List β}
    (h : List.Forall₂ R as bs) {b : β} (hb : b ∈ bs) : ∃ a ∈ as, R a b := by
  induction h with
  | nil => cases hb
  | cons hr _ ih =>
    obtain rfl | hb := List.mem_cons.mp hb
    · exact ⟨_, .head _, hr⟩
    · obtain ⟨a, ha, hr⟩ := ih hb
      exact ⟨a, .tail _ ha, hr⟩

theorem map_eq_map {α β : Type} {f : α → β} {as bs : List α}
    (h : List.Forall₂ (fun a b => f a = f b) as bs) : as.map f = bs.map f := by
  induction h with
  | nil => rfl
  | cons h _ ih => rw [List.map_cons, List.map_cons, h, ih]

theorem display_eq {v w : Value} (h : Alike node link v w) : v.display = w.display := by
  refine ind (motive := fun v w => v.display = w.display) ?_ ?_ ?_ h
  · exact fun _ _ _ => rfl
  · intro as bs _ _ ih
    rw [display, display, displayEach_eq_map, displayEach_eq_map, map_eq_map ih]
  · exact fun _ _ _ _ _ _ _ _ => rfl

theorem inspect_eq {v w : Value} (h : Alike node link v w) : v.inspect = w.inspect := by
  refine ind (motive := fun v w => v.inspect = w.inspect) ?_ ?_ ?_ h
  · exact fun _ _ _ => rfl
  · intro as bs _ _ ih
    rw [inspect, inspect, inspectEach_eq_map, inspectEach_eq_map, map_eq_map ih]
  · intro params b c i j _ ih _
    rw [inspect, inspect, ih]

theorem ofHead?_eq {v w : Value} (h : Alike node link v w) :
    SpecialForm.ofHead? v = SpecialForm.ofHead? w := by
  cases h <;> rfl

end Alike

end Value

inductive ShapeFault.Alike (R : Value → Value → Prop) : ShapeFault → ShapeFault → Prop
  | wrongCount (wanted : List Nat) (got : Nat) : Alike R (.wrongCount wanted got) (.wrongCount wanted got)
  | nameExpected {v w : Value} (h : R v w) : Alike R (.nameExpected v) (.nameExpected w)
  | bindingsOrBodyMissing : Alike R .bindingsOrBodyMissing .bindingsOrBodyMissing
  | bindingsNotList : Alike R .bindingsNotList .bindingsNotList
  | bindingsOdd : Alike R .bindingsOdd .bindingsOdd
  | bindingNotSymbol {v w : Value} (h : R v w) : Alike R (.bindingNotSymbol v) (.bindingNotSymbol w)
  | parametersMissing : Alike R .parametersMissing .parametersMissing
  | parametersNotList : Alike R .parametersNotList .parametersNotList
  | parameterNotSymbol {v w : Value} (h : R v w) :
      Alike R (.parameterNotSymbol v) (.parameterNotSymbol w)
  | bodyMissing : Alike R .bodyMissing .bodyMissing

theorem ShapeFault.Alike.message_eq {node : Value → Prop} {link : Value → ScopeId → ScopeId → Prop}
    {x y : ShapeFault} (h : x.Alike (Value.Alike node link) y) : x.message = y.message := by
  cases h with
  | nameExpected h => exact congrArg (fun text => "cannot bind to " ++ text ++ _) h.inspect_eq
  | bindingNotSymbol h => exact congrArg ("binding names must be symbols, got " ++ ·) h.inspect_eq
  | parameterNotSymbol h => exact congrArg ("parameters must be symbols, got " ++ ·) h.inspect_eq
  | _ => rfl

abbrev Bindings.Alike (R : Value → Value → Prop) : Bindings → Bindings → Prop :=
  List.Forall₂ fun p q => p.1 = q.1 ∧ R p.2 q.2

inductive Form.Alike (R : Value → Value → Prop) : Form → Form → Prop
  | define (name : Symbol) {v w : Value} (h : R v w) : Alike R (.define name v) (.define name w)
  | letStar {bs cs : Bindings} {v w : Value} (hb : bs.Alike R cs) (h : R v w) :
      Alike R (.letStar bs v) (.letStar cs w)
  | lambda (params : List Symbol) {v w : Value} (h : R v w) :
      Alike R (.lambda params v) (.lambda params w)
  | sequence {vs ws : List Value} (h : List.Forall₂ R vs ws) : Alike R (.sequence vs) (.sequence ws)
  | conditional {v v' w w' : Value} {x y : Option Value} (h : R v w) (h' : R v' w')
      (ho : Option.Rel R x y) : Alike R (.conditional v v' x) (.conditional w w' y)
  | connective (c : Connective) {v v' w w' : Value} (h : R v w) (h' : R v' w') :
      Alike R (.connective c v v') (.connective c w w')
  | negation {v w : Value} (h : R v w) : Alike R (.negation v) (.negation w)
  | print {v w : Value} (h : R v w) : Alike R (.print v) (.print w)
  | literalList {vs ws : List Value} (h : R (.list vs) (.list ws)) :
      Alike R (.literalList vs) (.literalList ws)
  | isList {v w : Value} (h : R v w) : Alike R (.isList v) (.isList w)
  | isEmpty {v w : Value} (h : R v w) : Alike R (.isEmpty v) (.isEmpty w)
  | count {v w : Value} (h : R v w) : Alike R (.count v) (.count w)
  | sameKind {v v' w w' : Value} (h : R v w) (h' : R v' w') : Alike R (.sameKind v v') (.sameKind w w')

theorem ShapeFault.Alike.eq {R : Value → Value → Prop} (hR : ∀ v w, R v w → v = w)
    {x y : ShapeFault} (h : x.Alike R y) : x = y := by
  cases h with
  | nameExpected h => rw [hR _ _ h]
  | bindingNotSymbol h => rw [hR _ _ h]
  | parameterNotSymbol h => rw [hR _ _ h]
  | _ => rfl

end SmallLisp
