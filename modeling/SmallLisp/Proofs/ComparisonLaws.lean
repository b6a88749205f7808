import SmallLisp.Operator.Apply
import SmallLisp.Proofs.ExactIntegers

namespace SmallLisp

namespace Value

/-- An integer has 32 bits, and a float is a number. -/
def IsRegular : Value → Prop
  | int n => Number.intMin ≤ n ∧ n ≤ Number.intMax
  | float x => x ≠ .nan
  | _ => True

def orderKey? : Value → Option Int
  | int n => some n
  | float x => x.place?
  | bool b => some b.toInt
  | str text => some text.length
  | sym s => some s.name.length
  | _ => none

def place? : Value → Option Int
  | int n => (Double.ofRat false n).place?
  | float x => x.place?
  | _ => none

theorem natAbs_lt_of_isRegular {n : Int} (h : (int n).IsRegular) : n.natAbs < 2 ^ 53 := by
  obtain ⟨hl, hu⟩ := h
  unfold Number.intMin at hl
  unfold Number.intMax at hu
  omega

theorem exists_orderKey {a : Value} (h : a.IsRegular) (ha : a.kind ∉ [.list, .function, .nil]) :
    ∃ x, a.orderKey? = some x := by
  cases a with
  | float x => exact Double.exists_place h
  | list _ | closure _ _ _ | operator _ | nil => simp [kind] at ha
  | _ => exact ⟨_, rfl⟩

theorem exists_place {a : Value} (h : a.IsRegular) (ha : a.isNumeric) : ∃ p, a.place? = some p := by
  cases a with
  | int n => exact ⟨_, rfl⟩
  | float x => exact Double.exists_place h
  | _ => cases ha

/-- Numbers at one place, or one value of a kind that is compared as a whole. -/
inductive Equals : Value → Value → Prop
  | place {a b : Value} {p : Int} (ha : a.place? = some p) (hb : b.place? = some p) : Equals a b
  | whole {a : Value} (h : a.kind ∈ [.bool, .nil, .string, .symbol]) : Equals a a

theorem isNumeric_of_place {a : Value} {p : Int} (h : a.place? = some p) : a.isNumeric := by
  cases a with
  | int _ | float _ => rfl
  | _ => cases h

theorem not_isNumeric_of_kind {a : Value} (h : a.kind ∈ [.bool, .nil, .string, .symbol]) :
    ¬ a.isNumeric := by
  cases a with
  | int _ | float _ => simp [kind] at h
  | _ => nofun

namespace Equals

variable {a b c : Value}

theorem symm (h : a.Equals b) : b.Equals a := by
  cases h with
  | place ha hb => exact .place hb ha
  | whole h => exact .whole h

theorem trans (hab : a.Equals b) (hbc : b.Equals c) : a.Equals c := by
  cases hab with
  | place ha hb =>
    cases hbc with
    | place hb' hc => exact .place ha (hc.trans (hb'.symm.trans hb))
    | whole h => exact absurd (isNumeric_of_place hb) (not_isNumeric_of_kind h)
  | whole h => exact hbc

end Equals

end Value

namespace Operator

/-- The operands are refused for their kinds. -/
def Mismatches (op : Operator) (a b : Value) : Prop := ∃ fault, op.apply a b = .error (.kind fault)

def Decides (op : Operator) (a b : Value) : Prop := ∃ p, op.apply a b = .ok (.bool p)

def Holds (op : Operator) (a b : Value) : Prop := op.apply a b = .ok (.bool true)

variable {a b c : Value}

theorem not_mismatches_of_decides {op : Operator} (h : op.Decides a b) : ¬ op.Mismatches a b := by
  rintro ⟨fault, hf⟩
  obtain ⟨p, hp⟩ := h
  cases hp.symm.trans hf

theorem compareWith_of_place {x y : Double} {p q : Int} (holds : Int → Int → Bool)
    (hx : x.place? = some p) (hy : y.place? = some q) : x.compareWith holds y = holds p q := by
  rw [Double.compareWith, hx, hy]

theorem apply_order (cmp : Comparison) {x y : Int} (h : a.kind = b.kind)
    (hx : a.orderKey? = some x) (hy : b.orderKey? = some y) :
    (order cmp).apply a b = .ok (.bool (cmp.holds x y)) := by
  cases a with
  | int m =>
    cases b with
    | int n =>
      cases hx
      cases hy
      rfl
    | _ => cases h
  | float v =>
    cases b with
    | float w => exact congrArg (Except.ok ∘ Value.bool) (compareWith_of_place _ hx hy)
    | _ => cases h
  | bool p =>
    cases b with
    | bool q =>
      cases hx
      cases hy
      rfl
    | _ => cases h
  | str s =>
    cases b with
    | str t =>
      cases hx
      cases hy
      rfl
    | _ => cases h
  | sym s =>
    cases b with
    | sym t =>
      cases hx
      cases hy
      rfl
    | _ => cases h
  | _ => cases hx

theorem mismatches_of_map {op : Operator} {x : Except EvalError Bool} {fault : KindFault}
    (h : op.apply a b = x.map Value.bool) (hx : x = .error (.kind fault)) : op.Mismatches a b :=
  ⟨fault, by rw [h, hx]; rfl⟩

theorem mismatches_order (cmp : Comparison)
    (h : a.kind ≠ b.kind ∨ a.kind ∈ [.list, .function, .nil]) : (order cmp).Mismatches a b := by
  have hfault : ∃ fault, compare cmp a b = .error (.kind fault) := by
    unfold compare
    split
    -- Each pair that is compared is of one kind with an order.
    case h_6 => split <;> exact ⟨_, rfl⟩
    all_goals simp [Value.kind] at h
  obtain ⟨fault, hfault⟩ := hfault
  exact mismatches_of_map rfl hfault

section

variable (ha : a.IsRegular) (hb : b.IsRegular)

include ha hb

theorem decides_order (cmp : Comparison) (h : a.kind = b.kind)
    (hmem : a.kind ∉ [.list, .function, .nil]) : (order cmp).Decides a b := by
  obtain ⟨x, hx⟩ := Value.exists_orderKey ha hmem
  obtain ⟨y, hy⟩ := Value.exists_orderKey hb (h ▸ hmem)
  exact ⟨_, apply_order cmp h hx hy⟩

theorem mismatches_order_iff (cmp : Comparison) :
    (order cmp).Mismatches a b ↔ a.kind ≠ b.kind ∨ a.kind ∈ [.list, .function, .nil] := by
  refine ⟨fun h => ?_, mismatches_order cmp⟩
  by_contra hne
  obtain ⟨hkind, hmem⟩ := not_or.mp hne
  exact not_mismatches_of_decides (decides_order ha hb cmp (not_not.mp hkind) hmem) h

theorem holds_order_iff (cmp : Comparison) : (order cmp).Holds a b ↔
    a.kind = b.kind ∧ ∃ x y, a.orderKey? = some x ∧ b.orderKey? = some y ∧ cmp.holds x y = true := by
  constructor
  · intro h
    have hfits := (mismatches_order_iff ha hb cmp).not.mp (not_mismatches_of_decides ⟨true, h⟩)
    obtain ⟨hkind, hmem⟩ := not_or.mp hfits
    rw [not_not] at hkind
    obtain ⟨x, hx⟩ := Value.exists_orderKey ha hmem
    obtain ⟨y, hy⟩ := Value.exists_orderKey hb (hkind ▸ hmem)
    rw [Holds, apply_order cmp hkind hx hy] at h
    exact ⟨hkind, x, y, hx, hy, Value.bool.inj (Except.ok.inj h)⟩
  · rintro ⟨hkind, x, y, hx, hy, h⟩
    rw [Holds, apply_order cmp hkind hx hy, h]

end

theorem apply_eq_numbers {p q : Int} (ha : a.IsRegular) (hb : b.IsRegular)
    (hp : a.place? = some p) (hq : b.place? = some q) : eq.apply a b = .ok (.bool (p == q)) := by
  have hmap {x y : Double} (hx : x.place? = some p) (hy : y.place? = some q) :
      Except.map Value.bool (.ok (x.eq y) : Except EvalError Bool) = .ok (.bool (p == q)) :=
    congrArg (Except.ok ∘ Value.bool) (compareWith_of_place _ hx hy)
  change (equal a b).map Value.bool = _
  cases a with
  | int m =>
    have hm := widen_of_natAbs_lt (Value.natAbs_lt_of_isRegular ha)
    cases b with
    | int n =>
      rw [equal, hm, widen_of_natAbs_lt (Value.natAbs_lt_of_isRegular hb)]
      exact hmap hp hq
    | float y =>
      rw [equal, hm]
      exact hmap hp hq
    | _ => cases hq
  | float x =>
    cases b with
    | int n =>
      rw [equal, widen_of_natAbs_lt (Value.natAbs_lt_of_isRegular hb)]
      exact hmap hp hq
    | float y => exact hmap hp hq
    | _ => cases hq
  | _ => cases hp

theorem apply_eq_whole (h : a.kind = b.kind) (ha : a.kind ∈ [.bool, .nil, .string, .symbol]) :
    ∃ p, eq.apply a b = .ok (.bool p) ∧ (p = true ↔ a = b) := by
  cases a with
  | bool p =>
    cases b with
    | bool q => exact ⟨p == q, rfl, by rw [beq_iff_eq, Value.bool.injEq]⟩
    | _ => cases h
  | nil =>
    cases b with
    | nil => exact ⟨true, rfl, iff_of_true rfl rfl⟩
    | _ => cases h
  | str s =>
    cases b with
    | str t => exact ⟨s == t, rfl, by rw [beq_iff_eq, Value.str.injEq]⟩
    | _ => cases h
  | sym s =>
    cases b with
    | sym t => exact ⟨s == t, rfl, by rw [beq_iff_eq, Value.sym.injEq]⟩
    | _ => cases h
  | _ => simp [Value.kind] at ha

theorem mismatches_eq (hnumbers : ¬ (a.isNumeric ∧ b.isNumeric))
    (h : a.kind ≠ b.kind ∨ a.kind ∈ [.list, .function]) : eq.Mismatches a b := by
  have hfault : ∃ fault, equal a b = .error (.kind fault) := by
    unfold equal
    split
    case h_9 => split <;> exact ⟨_, rfl⟩
    all_goals first
      | exact absurd ⟨rfl, rfl⟩ hnumbers
      | simp [Value.kind] at h
  obtain ⟨fault, hfault⟩ := hfault
  exact mismatches_of_map rfl hfault

end Operator

namespace Value

variable {a b : Value}

/-- Two numbers, or two values of one kind that has an equality. -/
def EqualityFits (a b : Value) : Prop :=
  (a.isNumeric ∧ b.isNumeric) ∨ (a.kind = b.kind ∧ a.kind ∉ [.list, .function])

theorem not_equalityFits_iff : ¬ a.EqualityFits b ↔
    ¬ (a.isNumeric ∧ b.isNumeric) ∧ (a.kind ≠ b.kind ∨ a.kind ∈ [.list, .function]) := by
  rw [EqualityFits, not_or, not_and_or (a := a.kind = b.kind), not_not]

theorem isNumeric_of_kind_eq (h : a.kind = b.kind) (ha : a.isNumeric) : b.isNumeric := by
  cases b with
  | int _ | float _ => rfl
  | _ =>
    cases a with
    | int _ | float _ => cases h
    | _ => cases ha

theorem whole_of_not_isNumeric (ha : ¬ a.isNumeric) (h : a.kind ∉ [.list, .function]) :
    a.kind ∈ [.bool, .nil, .string, .symbol] := by
  cases a with
  | int _ | float _ => exact absurd rfl ha
  | list _ | closure _ _ _ | operator _ => simp [kind] at h
  | _ => simp [kind]

theorem Equals.equalityFits (h : a.Equals b) : a.EqualityFits b := by
  cases h with
  | place ha hb => exact .inl ⟨isNumeric_of_place ha, isNumeric_of_place hb⟩
  | whole h =>
    refine .inr ⟨rfl, fun hmem => ?_⟩
    generalize a.kind = k at h hmem
    cases k <;> simp at h hmem

end Value

namespace Operator

variable {a b : Value}

section

variable (ha : a.IsRegular) (hb : b.IsRegular)

include ha hb

theorem apply_eq (h : a.EqualityFits b) :
    ∃ p, eq.apply a b = .ok (.bool p) ∧ (p = true ↔ a.Equals b) := by
  by_cases hnumbers : a.isNumeric ∧ b.isNumeric
  · obtain ⟨p, hp⟩ := Value.exists_place ha hnumbers.1
    obtain ⟨q, hq⟩ := Value.exists_place hb hnumbers.2
    refine ⟨p == q, apply_eq_numbers ha hb hp hq, ?_⟩
    rw [beq_iff_eq]
    constructor
    · rintro rfl
      exact .place hp hq
    · intro h
      cases h with
      | place hr hr' => exact Option.some.inj (hp.symm.trans (hr.trans (hr'.symm.trans hq)))
      | whole hwhole => exact absurd hnumbers.1 (Value.not_isNumeric_of_kind hwhole)
  · obtain ⟨hkind, hmem⟩ := h.resolve_left hnumbers
    have hnot : ¬ a.isNumeric := fun hn => hnumbers ⟨hn, Value.isNumeric_of_kind_eq hkind hn⟩
    have hwhole := Value.whole_of_not_isNumeric hnot hmem
    obtain ⟨p, hp, hiff⟩ := apply_eq_whole hkind hwhole
    refine ⟨p, hp, hiff.trans ⟨fun h => h ▸ .whole hwhole, fun h => ?_⟩⟩
    cases h with
    | place hr _ => exact absurd (Value.isNumeric_of_place hr) hnot
    | whole _ => rfl

theorem mismatches_eq_iff : eq.Mismatches a b ↔ ¬ a.EqualityFits b := by
  constructor
  · intro h hfits
    obtain ⟨p, hp, _⟩ := apply_eq ha hb hfits
    exact not_mismatches_of_decides ⟨p, hp⟩ h
  · intro h
    obtain ⟨hnumbers, hkind⟩ := Value.not_equalityFits_iff.mp h
    exact mismatches_eq hnumbers hkind

theorem holds_eq_iff : eq.Holds a b ↔ a.Equals b := by
  constructor
  · intro h
    have hfits := not_not.mp ((mismatches_eq_iff ha hb).not.mp (not_mismatches_of_decides ⟨true, h⟩))
    obtain ⟨p, hp, hiff⟩ := apply_eq ha hb hfits
    exact hiff.mp (Value.bool.inj (Except.ok.inj (hp.symm.trans h)))
  · intro h
    obtain ⟨p, hp, hiff⟩ := apply_eq ha hb h.equalityFits
    rw [Holds, hp, hiff.mpr h]

end

end Operator

namespace Value

theorem equals_int_iff {m n : Int} (hm : (int m).IsRegular) (hn : (int n).IsRegular) :
    (int m).Equals (int n) ↔ m = n := by
  constructor
  · intro h
    cases h with
    | place hp hq =>
      exact Double.place?_ofRat_inj (natAbs_lt_of_isRegular hm) (natAbs_lt_of_isRegular hn)
        (hp.trans hq.symm)
    | whole _ => rfl
  · rintro rfl
    obtain ⟨p, hp⟩ := exists_place hm rfl
    exact .place hp hp

/-- Of two integers, floats or truth values, equality says what the order says. -/
theorem equals_iff_orderKey {a b : Value} (ha : a.IsRegular) (hb : b.IsRegular)
    (h : a.kind = b.kind) (hmem : a.kind ∈ [.int, .float, .bool]) :
    a.Equals b ↔ a.orderKey? = b.orderKey? := by
  cases a with
  | int m =>
    cases b with
    | int n => exact (equals_int_iff ha hb).trans (Option.some.injEq m n).to_iff.symm
    | _ => cases h
  | float x =>
    cases b with
    | float y =>
      obtain ⟨p, hp⟩ := Double.exists_place ha
      constructor
      · intro h
        cases h with
        | place hx hy => exact hx.trans hy.symm
        | whole _ => rfl
      · exact fun h => .place hp (h.symm.trans hp)
    | _ => cases h
  | bool p =>
    cases b with
    | bool q =>
      have hkey : (bool p).orderKey? = (bool q).orderKey? ↔ p = q := by cases p <;> cases q <;> decide
      rw [hkey]
      constructor
      · intro h
        cases h with
        | place hp _ => cases hp
        | whole _ => rfl
      · rintro rfl
        exact .whole (by simp [kind])
    | _ => cases h
  | _ => simp [kind] at hmem

end Value

open Operator in
/-- The four orders refuse the same pairs, in whichever order the operands come, and agree
with each other elsewhere. Equality refuses what is neither two numbers nor of one kind with
an equality, and is an equivalence elsewhere, also between integers and floats. -/
theorem comparisons_are_consistent :
    (∀ a b : Value, a.IsRegular → b.IsRegular →
      (∀ cmp, ((order cmp).Mismatches a b ↔ a.kind ≠ b.kind ∨ a.kind ∈ [.list, .function, .nil]) ∧
        ((order cmp).Mismatches a b ↔ (order cmp).Mismatches b a) ∧
        ((order cmp).Mismatches a b ∨ (order cmp).Decides a b)) ∧
      (eq.Mismatches a b ↔
        ¬ (a.isNumeric ∧ b.isNumeric) ∧ (a.kind ≠ b.kind ∨ a.kind ∈ [.list, .function])) ∧
      (eq.Mismatches a b ∨ eq.Decides a b)) ∧
    (∀ a b : Value, a.IsRegular → b.IsRegular → a.kind = b.kind →
      a.kind ∉ [.list, .function, .nil] →
        (order .lt).apply a b = (order .gt).apply b a ∧
        ((order .le).Holds a b ↔ ¬ (order .gt).Holds a b) ∧
        (order .le).Holds a a ∧ ((order .le).Holds a b ∨ (order .le).Holds b a)) ∧
    (∀ a b c : Value, a.IsRegular → b.IsRegular → c.IsRegular →
      (order .le).Holds a b → (order .le).Holds b c → (order .le).Holds a c) ∧
    (∀ a : Value, a.IsRegular → a.kind ∉ [.list, .function] → eq.Holds a a) ∧
    (∀ a b : Value, a.IsRegular → b.IsRegular → (eq.Holds a b ↔ eq.Holds b a)) ∧
    (∀ a b c : Value, a.IsRegular → b.IsRegular → c.IsRegular →
      eq.Holds a b → eq.Holds b c → eq.Holds a c) ∧
    (∀ m n : Int, (Value.int m).IsRegular → (Value.int n).IsRegular →
      (eq.Holds (.int m) (.int n) ↔ m = n)) ∧
    (∀ a b : Value, a.IsRegular → b.IsRegular → a.kind = b.kind → a.kind ∈ [.int, .float, .bool] →
      (eq.Holds a b ↔ (order .le).Holds a b ∧ (order .ge).Holds a b)) := by
  refine ⟨fun a b ha hb => ⟨fun cmp => ⟨?_, ?_, ?_⟩, ?_, ?_⟩, ?_, ?_, ?_, ?_, ?_, ?_, ?_⟩
  · exact mismatches_order_iff ha hb cmp
  · rw [mismatches_order_iff ha hb, mismatches_order_iff hb ha]
    by_cases h : a.kind = b.kind
    · rw [h]
    · exact iff_of_true (.inl h) (.inl (Ne.symm h))
  · by_cases h : a.kind ≠ b.kind ∨ a.kind ∈ [.list, .function, .nil]
    · exact .inl (mismatches_order cmp h)
    · obtain ⟨hkind, hmem⟩ := not_or.mp h
      exact .inr (decides_order ha hb cmp (not_not.mp hkind) hmem)
  · rw [mismatches_eq_iff ha hb, Value.not_equalityFits_iff]
  · by_cases h : a.EqualityFits b
    · obtain ⟨p, hp, _⟩ := apply_eq ha hb h
      exact .inr ⟨p, hp⟩
    · exact .inl ((mismatches_eq_iff ha hb).mpr h)
  · intro a b ha hb hkind hmem
    obtain ⟨x, hx⟩ := Value.exists_orderKey ha hmem
    obtain ⟨y, hy⟩ := Value.exists_orderKey hb (hkind ▸ hmem)
    simp only [Holds, apply_order _ hkind hx hy, apply_order _ hkind.symm hy hx,
      apply_order _ rfl hx hx, Comparison.holds, Except.ok.injEq, Value.bool.injEq,
      decide_eq_true_eq, true_and]
    omega
  · intro a b c ha hb hc hab hbc
    obtain ⟨hkind, x, y, hx, hy, hxy⟩ := (holds_order_iff ha hb .le).mp hab
    obtain ⟨hkind', y', z, hy', hz, hyz⟩ := (holds_order_iff hb hc .le).mp hbc
    obtain rfl := Option.some.inj (hy.symm.trans hy')
    have hxz : Comparison.le.holds x z = true :=
      decide_eq_true (le_trans (of_decide_eq_true hxy) (of_decide_eq_true hyz))
    exact (holds_order_iff ha hc .le).mpr ⟨hkind.trans hkind', x, z, hx, hz, hxz⟩
  · intro a ha hmem
    rw [holds_eq_iff ha ha]
    by_cases hn : a.isNumeric
    · obtain ⟨p, hp⟩ := Value.exists_place ha hn
      exact .place hp hp
    · exact .whole (Value.whole_of_not_isNumeric hn hmem)
  · intro a b ha hb
    rw [holds_eq_iff ha hb, holds_eq_iff hb ha]
    exact ⟨Value.Equals.symm, Value.Equals.symm⟩
  · intro a b c ha hb hc hab hbc
    rw [holds_eq_iff ha hb] at hab
    rw [holds_eq_iff hb hc] at hbc
    exact (holds_eq_iff ha hc).mpr (hab.trans hbc)
  · intro m n hm hn
    rw [holds_eq_iff hm hn, Value.equals_int_iff hm hn]
  · intro a b ha hb hkind hmem
    have hordered : a.kind ∉ [.list, .function, .nil] := by
      generalize a.kind = k at hmem
      cases k <;> simp at hmem ⊢
    obtain ⟨x, hx⟩ := Value.exists_orderKey ha hordered
    obtain ⟨y, hy⟩ := Value.exists_orderKey hb (hkind ▸ hordered)
    rw [holds_eq_iff ha hb, Value.equals_iff_orderKey ha hb hkind hmem, hx, hy]
    simp only [Holds, apply_order _ hkind hx hy, Comparison.holds, Except.ok.injEq,
      Value.bool.injEq, decide_eq_true_eq, Option.some.injEq]
    omega

open Operator in
theorem greatest_integer_equals_its_float :
    let n : Value := .int 2147483647
    let x : Value := .float (.ofBits 0x41dfffffffc00000)
    let s : Value := .str "zz"
    let t : Value := .str "aaa"
    eq.Holds n n ∧ (eq.Holds n x ↔ eq.Holds x n) ∧ ¬ eq.Holds n (.int 2147483646) ∧
      (order .lt).Mismatches n x ∧ (order .lt).apply s t = (order .gt).apply t s ∧
      (order .le).Holds s t ∧
      (eq.Holds x x ↔ (order .le).Holds x x ∧ (order .ge).Holds x x) := by
  intro n x s t
  obtain ⟨hfits, hordered, htrans, _, hsymm, heq, hint, hboth⟩ := comparisons_are_consistent
  have hn : n.IsRegular := ⟨by decide, by decide⟩
  have hx : x.IsRegular := by
    change Double.ofBits 0x41dfffffffc00000 ≠ .nan
    decide
  have hs : s.IsRegular := trivial
  have ht : t.IsRegular := trivial
  have hnx : eq.Holds n x := by with_unfolding_all rfl
  refine ⟨heq n x n hn hx hn hnx ((hsymm n x hn hx).mp hnx), hsymm n x hn hx, ?_, ?_, ?_, ?_, ?_⟩
  · exact fun h => absurd ((hint _ _ hn ⟨by decide, by decide⟩).mp h) (by decide)
  · exact ((hfits n x hn hx).1 .lt).1.mpr (.inl (by decide))
  · exact (hordered s t hs ht rfl (by simp [s, Value.kind])).1
  · exact htrans s (.str "ab") t hs trivial ht rfl rfl
  · exact hboth x x hx hx rfl (by simp [x, Value.kind])

end SmallLisp
