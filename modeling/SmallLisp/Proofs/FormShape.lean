import SmallLisp.Form
import SmallLisp.Proofs.Lockstep

namespace SmallLisp

def Value.IsSymbol (v : Value) : Prop := ∃ name, v = .sym name

/-- What may follow the head of a special form. -/
def SpecialForm.Accepts : SpecialForm → List Value → Prop
  | define, tail => ∃ name value, tail = [.sym name, value]
  | letStar, tail => ∃ items forms, tail = .list items :: forms ∧ items.length % 2 = 0 ∧
      (∀ i v, i % 2 = 0 → items[i]? = some v → v.IsSymbol) ∧ forms ≠ []
  | lambda, tail => ∃ items forms, tail = .list items :: forms ∧
      (∀ v ∈ items, v.IsSymbol) ∧ forms ≠ []
  | sequence, _ => True
  | literalList, _ => True
  | conditional, tail => tail.length = 2 ∨ tail.length = 3
  | connective _, tail => tail.length = 2
  | sameKind, tail => tail.length = 2
  | _, tail => tail.length = 1

namespace Form

variable {tail : List Value} {f : Form}

theorem defineOf_ok (h : defineOf tail = .ok f) :
    ∃ name value, tail = [.sym name, value] ∧ f = .define name value := by
  unfold defineOf at h
  split at h
  · exact ⟨_, _, rfl, (Except.ok.inj h).symm⟩
  · cases h
  · cases h

theorem unaryOf_ok {make : Value → Form} (h : unaryOf make tail = .ok f) :
    ∃ operand, tail = [operand] ∧ f = make operand := by
  unfold unaryOf at h
  split at h
  · exact ⟨_, rfl, (Except.ok.inj h).symm⟩
  · cases h

theorem binaryOf_ok {make : Value → Value → Form} (h : binaryOf make tail = .ok f) :
    ∃ left right, tail = [left, right] ∧ f = make left right := by
  unfold binaryOf at h
  split at h
  · exact ⟨_, _, rfl, (Except.ok.inj h).symm⟩
  · cases h

theorem conditionalOf_ok (h : conditionalOf tail = .ok f) :
    ∃ test yes no, tail = test :: yes :: no.toList ∧ f = .conditional test yes no := by
  unfold conditionalOf at h
  split at h
  · exact ⟨_, _, none, rfl, (Except.ok.inj h).symm⟩
  · exact ⟨_, _, some _, rfl, (Except.ok.inj h).symm⟩
  · cases h

theorem bodyOf_ok {forms : List Value} {body : Value} (h : bodyOf forms = .ok body) :
    body ∈ forms ∨ body = .list (.sym SpecialForm.sequenceSymbol :: forms) := by
  unfold bodyOf at h
  split at h
  · cases h
  · exact .inl (Except.ok.inj h ▸ .head _)
  · exact .inr (Except.ok.inj h).symm

theorem mem_tail_of_bindingsOf {items : List Value} {bs : Bindings} (h : bindingsOf items = .ok bs) :
    ∀ b ∈ bs, b.2 ∈ items.tail := by
  fun_induction bindingsOf items generalizing bs with
  | case1 => cases h; exact nofun
  | case2 => cases h
  | case3 name value rest ih =>
    obtain ⟨more, hmore, h⟩ := bind_eq_ok.mp h
    cases h
    refine List.forall_mem_cons.mpr ⟨.head _, fun b hb => .tail _ ?_⟩
    exact List.mem_of_mem_tail (ih hmore b hb)
  | case4 => cases h

theorem letStarOf_ok (h : letStarOf tail = .ok f) :
    ∃ items forms bs body, tail = .list items :: forms ∧ bindingsOf items = .ok bs ∧
      bodyOf forms = .ok body ∧ f = .letStar bs body := by
  unfold letStarOf at h
  split at h
  · dsimp only at h
    split at h
    · cases h
    · obtain ⟨bs, hbs, h⟩ := bind_eq_ok.mp h
      obtain ⟨body, hbody, h⟩ := bind_eq_ok.mp h
      exact ⟨_, _, bs, body, rfl, hbs, hbody, (Except.ok.inj h).symm⟩
  · cases h
  · cases h

theorem lambdaOf_ok (h : lambdaOf tail = .ok f) :
    ∃ items forms params body, tail = .list items :: forms ∧ paramsOf items = .ok params ∧
      bodyOf forms = .ok body ∧ f = .lambda params body := by
  unfold lambdaOf at h
  split at h
  · obtain ⟨params, hparams, h⟩ := bind_eq_ok.mp h
    obtain ⟨body, hbody, h⟩ := bind_eq_ok.mp h
    exact ⟨_, _, params, body, rfl, hparams, hbody, (Except.ok.inj h).symm⟩
  · cases h
  · cases h

theorem bindingsOf_ok_iff {items : List Value} :
    (∃ bs, bindingsOf items = .ok bs) ↔
      items.length % 2 = 0 ∧ ∀ i v, i % 2 = 0 → items[i]? = some v → v.IsSymbol := by
  fun_induction bindingsOf items with
  | case1 => exact ⟨fun _ => ⟨rfl, nofun⟩, fun _ => ⟨[], rfl⟩⟩
  | case2 => exact ⟨nofun, nofun⟩
  | case3 name value rest ih =>
    have hlength : (Value.sym name :: value :: rest).length % 2 = rest.length % 2 :=
      Nat.add_mod_right rest.length 2
    rw [exists_bind_pure_eq_ok, ih, hlength]
    refine and_congr_right fun _ => ⟨fun h i v hi hv => ?_, fun h i v hi hv => ?_⟩
    · match i, hv with
      | 0, hv => exact ⟨name, (Option.some.inj hv).symm⟩
      | 1, _ => exact absurd hi (by decide)
      | i + 2, hv => exact h i v (by omega) hv
    · exact h (i + 2) v (by omega) hv
  | case4 got value rest hgot =>
    refine ⟨nofun, fun ⟨_, h⟩ => ?_⟩
    obtain ⟨name, rfl⟩ := h 0 got rfl rfl
    exact absurd rfl (hgot name)

theorem paramsOf_ok_iff {items : List Value} :
    (∃ params, paramsOf items = .ok params) ↔ ∀ v ∈ items, v.IsSymbol := by
  fun_induction paramsOf items with
  | case1 => exact ⟨fun _ => nofun, fun _ => ⟨[], rfl⟩⟩
  | case2 name rest ih =>
    rw [exists_bind_pure_eq_ok, ih, List.forall_mem_cons]
    exact ⟨fun h => ⟨⟨name, rfl⟩, h⟩, fun h => h.2⟩
  | case3 got rest hgot =>
    refine ⟨nofun, fun h => ?_⟩
    obtain ⟨name, rfl⟩ := h got (.head _)
    exact absurd rfl (hgot name)

theorem bodyOf_ok_iff {forms : List Value} : (∃ body, bodyOf forms = .ok body) ↔ forms ≠ [] := by
  match forms with
  | [] => exact ⟨nofun, fun h => absurd rfl h⟩
  | [form] => exact ⟨fun _ => nofun, fun _ => ⟨form, rfl⟩⟩
  | _ :: _ :: _ => exact ⟨fun _ => nofun, fun _ => ⟨_, rfl⟩⟩

theorem unaryOf_ok_iff {make : Value → Form} :
    (∃ f, unaryOf make tail = .ok f) ↔ tail.length = 1 := by
  constructor
  · rintro ⟨f, hf⟩
    obtain ⟨operand, rfl, _⟩ := unaryOf_ok hf
    rfl
  · intro h
    obtain ⟨operand, rfl⟩ := List.length_eq_one_iff.mp h
    exact ⟨make operand, rfl⟩

theorem binaryOf_ok_iff {make : Value → Value → Form} :
    (∃ f, binaryOf make tail = .ok f) ↔ tail.length = 2 := by
  constructor
  · rintro ⟨f, hf⟩
    obtain ⟨left, right, rfl, _⟩ := binaryOf_ok hf
    rfl
  · intro h
    obtain ⟨left, right, rfl⟩ := List.length_eq_two.mp h
    exact ⟨make left right, rfl⟩

theorem conditionalOf_ok_iff :
    (∃ f, conditionalOf tail = .ok f) ↔ tail.length = 2 ∨ tail.length = 3 := by
  constructor
  · rintro ⟨f, hf⟩
    obtain ⟨test, yes, no, rfl, _⟩ := conditionalOf_ok hf
    cases no with
    | none => exact .inl rfl
    | some no => exact .inr rfl
  · rintro (h | h)
    · obtain ⟨test, yes, rfl⟩ := List.length_eq_two.mp h
      exact ⟨.conditional test yes none, rfl⟩
    · obtain ⟨test, yes, no, rfl⟩ := List.length_eq_three.mp h
      exact ⟨.conditional test yes (some no), rfl⟩

theorem letStarOf_ok_iff : (∃ f, letStarOf tail = .ok f) ↔ SpecialForm.letStar.Accepts tail := by
  constructor
  · rintro ⟨f, hf⟩
    obtain ⟨items, forms, bs, body, rfl, hbs, hbody, _⟩ := letStarOf_ok hf
    obtain ⟨heven, hsymbols⟩ := bindingsOf_ok_iff.mp ⟨bs, hbs⟩
    exact ⟨items, forms, rfl, heven, hsymbols, bodyOf_ok_iff.mp ⟨body, hbody⟩⟩
  · rintro ⟨items, forms, rfl, heven, hsymbols, hforms⟩
    obtain ⟨bs, hbs⟩ := bindingsOf_ok_iff.mpr ⟨heven, hsymbols⟩
    obtain ⟨body, hbody⟩ := bodyOf_ok_iff.mpr hforms
    obtain ⟨form, forms, rfl⟩ := List.exists_cons_of_ne_nil hforms
    refine ⟨.letStar bs body, ?_⟩
    rw [letStarOf, heven, hbs, hbody]
    rfl

theorem lambdaOf_ok_iff : (∃ f, lambdaOf tail = .ok f) ↔ SpecialForm.lambda.Accepts tail := by
  constructor
  · rintro ⟨f, hf⟩
    obtain ⟨items, forms, params, body, rfl, hparams, hbody, _⟩ := lambdaOf_ok hf
    exact ⟨items, forms, rfl, paramsOf_ok_iff.mp ⟨params, hparams⟩, bodyOf_ok_iff.mp ⟨body, hbody⟩⟩
  · rintro ⟨items, forms, rfl, hsymbols, hforms⟩
    obtain ⟨params, hparams⟩ := paramsOf_ok_iff.mpr hsymbols
    obtain ⟨body, hbody⟩ := bodyOf_ok_iff.mpr hforms
    refine ⟨.lambda params body, ?_⟩
    rw [lambdaOf, hparams, hbody]
    rfl

/-- The check of a special form passes what its rule says, and nothing else. -/
theorem ofTail_ok_iff (special : SpecialForm) :
    (∃ f, ofTail special tail = .ok f) ↔ special.Accepts tail := by
  cases special with
  | define =>
    constructor
    · rintro ⟨f, hf⟩
      obtain ⟨name, value, rfl, _⟩ := defineOf_ok hf
      exact ⟨name, value, rfl⟩
    · rintro ⟨name, value, rfl⟩
      exact ⟨.define name value, rfl⟩
  | letStar => exact letStarOf_ok_iff
  | lambda => exact lambdaOf_ok_iff
  | sequence => exact ⟨fun _ => trivial, fun _ => ⟨_, rfl⟩⟩
  | literalList => exact ⟨fun _ => trivial, fun _ => ⟨_, rfl⟩⟩
  | conditional => exact conditionalOf_ok_iff
  | connective c => exact binaryOf_ok_iff
  | sameKind => exact binaryOf_ok_iff
  | _ => exact unaryOf_ok_iff

theorem eq_lambda_of_ofTail {special : SpecialForm} {params : List Symbol} {body : Value}
    (h : ofTail special tail = .ok (.lambda params body)) : special = .lambda := by
  cases special with
  | lambda => rfl
  | define =>
    obtain ⟨_, _, _, hf⟩ := defineOf_ok h
    cases hf
  | letStar =>
    obtain ⟨_, _, _, _, _, _, _, hf⟩ := letStarOf_ok h
    cases hf
  | sequence => cases h
  | literalList => cases h
  | conditional =>
    obtain ⟨_, _, _, _, hf⟩ := conditionalOf_ok h
    cases hf
  | connective c =>
    obtain ⟨_, _, _, hf⟩ := binaryOf_ok h
    cases hf
  | sameKind =>
    obtain ⟨_, _, _, hf⟩ := binaryOf_ok h
    cases hf
  | _ =>
    obtain ⟨_, _, hf⟩ := unaryOf_ok h
    cases hf

/-- What holds of all that follows the head of a special form holds of the parts of the
form, if it passes on to the items of binding lists and to the bodies of several forms.
Only `def!` binds a name in the scope of the form. -/
theorem forall_parts {P : Value → Prop} {special : SpecialForm}
    (hitems : ∀ items, P (.list items) → ∀ v ∈ items.tail, P v)
    (hbody : ∀ forms, (∀ v ∈ forms, P v) → P (.list (.sym SpecialForm.sequenceSymbol :: forms)))
    (h : ofTail special tail = .ok f) (ht : ∀ v ∈ tail, P v) :
    (∀ v ∈ f.parts, P v) ∧ (∀ v ∈ f.innerParts, P v) ∧ (special ≠ .define → f.binds = []) := by
  have hbodyOf {forms : List Value} {body : Value} (h : bodyOf forms = .ok body)
      (hforms : ∀ v ∈ forms, P v) : P body := by
    obtain hmem | rfl := bodyOf_ok h
    · exact hforms _ hmem
    · exact hbody forms hforms
  cases special with
  | define =>
    obtain ⟨name, value, rfl, rfl⟩ := defineOf_ok h
    exact ⟨fun v hv => ht v (.tail _ hv), List.forall_mem_nil _, fun hs => absurd rfl hs⟩
  | letStar =>
    obtain ⟨items, forms, bs, body, rfl, hbs, hb, rfl⟩ := letStarOf_ok h
    obtain ⟨hi, hforms⟩ := List.forall_mem_cons.mp ht
    refine ⟨List.forall_mem_nil _, List.forall_mem_cons.mpr ⟨hbodyOf hb hforms, ?_⟩, fun _ => rfl⟩
    intro v hv
    obtain ⟨b, hmem, rfl⟩ := List.mem_map.mp hv
    exact hitems items hi _ (mem_tail_of_bindingsOf hbs b hmem)
  | lambda =>
    obtain ⟨items, forms, params, body, rfl, _, hb, rfl⟩ := lambdaOf_ok h
    obtain ⟨_, hforms⟩ := List.forall_mem_cons.mp ht
    exact ⟨List.forall_mem_nil _, List.forall_mem_singleton.mpr (hbodyOf hb hforms), fun _ => rfl⟩
  | sequence =>
    obtain rfl := Except.ok.inj h
    exact ⟨ht, List.forall_mem_nil _, fun _ => rfl⟩
  | conditional =>
    obtain ⟨test, yes, no, rfl, rfl⟩ := conditionalOf_ok h
    exact ⟨ht, List.forall_mem_nil _, fun _ => rfl⟩
  | literalList =>
    obtain rfl := Except.ok.inj h
    exact ⟨List.forall_mem_nil _, List.forall_mem_nil _, fun _ => rfl⟩
  | connective c =>
    obtain ⟨left, right, rfl, rfl⟩ := binaryOf_ok h
    exact ⟨ht, List.forall_mem_nil _, fun _ => rfl⟩
  | sameKind =>
    obtain ⟨left, right, rfl, rfl⟩ := binaryOf_ok h
    exact ⟨ht, List.forall_mem_nil _, fun _ => rfl⟩
  | _ =>
    obtain ⟨operand, rfl, rfl⟩ := unaryOf_ok h
    exact ⟨ht, List.forall_mem_nil _, fun _ => rfl⟩

end Form

end SmallLisp
