import SmallLisp.Proofs.FormShape

namespace SmallLisp

def SpecialForm.defineSymbol : Symbol := ⟨"def!", by decide⟩

def SpecialForm.lambdaSymbol : Symbol := ⟨"fn*", by decide⟩

namespace Value

/-- The name occurs somewhere in the form. Closures are not looked into. -/
inductive Mentions (key : Symbol) : Value → Prop
  | sym : Mentions key (.sym key)
  | list {items : List Value} {v : Value} (hv : v ∈ items) (h : Mentions key v) :
      Mentions key (.list items)

/-- Evaluating the form looks up none of the hidden names. It binds no names in its own
scope if `def!` is hidden, and makes no closures there if `fn*` is. The head of any other
special form is not looked up. -/
inductive Avoids (hidden : Symbol → Prop) : Value → Prop
  | atom {v : Value} (ha : v.IsAtom) (h : ∀ key, v = .sym key → ¬ hidden key) : Avoids hidden v
  | list {items : List Value} (h : ∀ v ∈ items, Avoids hidden v) : Avoids hidden (.list items)
  | special {head : Value} {tail : List Value} {special : SpecialForm}
      (hs : SpecialForm.ofHead? head = some special)
      (hk : special = .define ∨ special = .lambda → ∀ key, head = .sym key → ¬ hidden key)
      (h : ∀ v ∈ tail, Avoids hidden v) : Avoids hidden (.list (head :: tail))
  | closure (params : List Symbol) (body : Value) (scope : ScopeId) :
      Avoids hidden (.closure params body scope)

variable {hidden : Symbol → Prop}

theorem avoids_of_not_mentions {v : Value} (h : ∀ key, hidden key → ¬ v.Mentions key) :
    v.Avoids hidden := by
  induction v with
  | atom v ha =>
    refine .atom ha ?_
    rintro key rfl hkey
    exact h key hkey .sym
  | list items ih => exact .list fun v hv => ih v hv fun key hkey hm => h key hkey (.list hv hm)
  | closure params body scope _ => exact .closure params body scope

theorem eq_of_mentions_singleton {key name : Symbol} (h : (list [sym name]).Mentions key) :
    key = name := by
  obtain _ | ⟨hv, h⟩ := h
  rw [List.mem_singleton.mp hv] at h
  cases h
  rfl

theorem not_hidden_of_avoids {key : Symbol} (h : (sym key).Avoids hidden) : ¬ hidden key := by
  cases h with
  | atom _ h => exact h key rfl

theorem avoids_tail {items : List Value} (h : (list items).Avoids hidden) :
    ∀ v ∈ items.tail, v.Avoids hidden := by
  cases h with
  | atom ha _ => cases ha
  | list h => exact fun v hv => h v (List.mem_of_mem_tail hv)
  | special _ _ h => exact h

theorem avoids_items {head : Value} {tail : List Value} (h : (list (head :: tail)).Avoids hidden)
    (hs : SpecialForm.ofHead? head = none) : ∀ v ∈ head :: tail, v.Avoids hidden := by
  cases h with
  | atom ha _ => cases ha
  | list h => exact h
  | special hs' _ _ =>
    rw [hs] at hs'
    cases hs'

end Value

namespace SpecialForm

theorem mem_table_of_ofName? {name : String} {special : SpecialForm}
    (h : ofName? name = some special) : (name, special) ∈ table := by
  obtain ⟨before, after, htable, _⟩ := List.lookup_eq_some_iff.mp h
  rw [htable]
  exact List.mem_append_right before (.head after)

theorem eq_defineSymbol {key : Symbol} (h : ofName? key.name = some .define) :
    key = defineSymbol := by
  have hmem := mem_table_of_ofName? h
  simp only [table, List.mem_cons, Prod.mk.injEq, List.not_mem_nil, reduceCtorEq, and_false,
    and_true, or_false] at hmem
  exact Symbol.ext_name hmem

theorem eq_lambdaSymbol {key : Symbol} (h : ofName? key.name = some .lambda) :
    key = lambdaSymbol := by
  have hmem := mem_table_of_ofName? h
  simp only [table, List.mem_cons, Prod.mk.injEq, List.not_mem_nil, reduceCtorEq, and_false,
    and_true, or_false, false_or] at hmem
  exact Symbol.ext_name hmem

section

variable {hidden : Symbol → Prop} {head : Value} {tail : List Value} {special : SpecialForm}

theorem exists_head_of_avoids (h : (Value.list (head :: tail)).Avoids hidden)
    (hs : ofHead? head = some special) (hk : special = .define ∨ special = .lambda) :
    ∃ key, ofName? key.name = some special ∧ ¬ hidden key := by
  cases head with
  | sym key =>
    refine ⟨key, hs, ?_⟩
    cases h with
    | atom ha _ => cases ha
    | list h => exact Value.not_hidden_of_avoids (h _ (.head _))
    | special hs' hk' _ => exact hk' (Option.some.inj (hs.symm.trans hs') ▸ hk) key rfl
  | _ => cases hs

theorem ne_define_of_avoids (hdef : hidden defineSymbol) (h : (Value.list (head :: tail)).Avoids hidden)
    (hs : ofHead? head = some special) : special ≠ .define := by
  rintro rfl
  obtain ⟨key, hkey, hn⟩ := exists_head_of_avoids h hs (.inl rfl)
  exact hn (eq_defineSymbol hkey ▸ hdef)

theorem ne_lambda_of_avoids (hlambda : hidden lambdaSymbol)
    (h : (Value.list (head :: tail)).Avoids hidden) (hs : ofHead? head = some special) :
    special ≠ .lambda := by
  rintro rfl
  obtain ⟨key, hkey, hn⟩ := exists_head_of_avoids h hs (.inr rfl)
  exact hn (eq_lambdaSymbol hkey ▸ hlambda)

end

end SpecialForm

theorem Form.avoids_parts {hidden : Symbol → Prop} (hdef : hidden SpecialForm.defineSymbol)
    {head : Value} {tail : List Value} {special : SpecialForm} {f : Form}
    (h : (Value.list (head :: tail)).Avoids hidden) (hs : SpecialForm.ofHead? head = some special)
    (hf : Form.ofTail special tail = .ok f) :
    (∀ v ∈ f.parts, v.Avoids hidden) ∧ (∀ v ∈ f.innerParts, v.Avoids hidden) ∧ f.binds = [] := by
  have hbody : ∀ forms : List Value, (∀ v ∈ forms, v.Avoids hidden) →
      (Value.list (.sym SpecialForm.sequenceSymbol :: forms)).Avoids hidden :=
    fun _ hforms => .special (show _ = some SpecialForm.sequence from rfl) (by simp) hforms
  obtain ⟨hparts, hinner, hbinds⟩ :=
    forall_parts (fun _ hi => Value.avoids_tail hi) hbody hf (Value.avoids_tail h)
  exact ⟨hparts, hinner, hbinds (SpecialForm.ne_define_of_avoids hdef h hs)⟩

end SmallLisp
