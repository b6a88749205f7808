import Mathlib.Algebra.Order.Ring.Int
import Mathlib.Data.Int.ModEq
import SmallLisp.Proofs.ShapeErrors

namespace SmallLisp

namespace Number

theorem wrap_modEq (n : Int) : wrap n ≡ n [ZMOD 2 ^ 32] := by
  change ((n - intMin) % 2 ^ 32 + intMin) % 2 ^ 32 = n % 2 ^ 32
  rw [Int.emod_add_emod, Int.sub_add_cancel]

theorem wrap_eq_of_modEq {m n : Int} (h : m ≡ n [ZMOD 2 ^ 32]) : wrap m = wrap n := by
  have hsub : (m - intMin) % 0x100000000 = (n - intMin) % 0x100000000 := h.sub_right intMin
  rw [wrap, hsub, wrap]

/-- `q` is the quotient of `a` by `b` with the fraction cut off: what is left of `a` is
smaller than `b` and has the sign of `a`. -/
def IsQuotient (a b q : Int) : Prop :=
  ∃ r, a = q * b + r ∧ r.natAbs < b.natAbs ∧ (r = 0 ∨ r.sign = a.sign)

theorem isQuotient_tdiv (a : Int) {b : Int} (hb : b ≠ 0) : IsQuotient a b (a.tdiv b) := by
  refine ⟨a.tmod b, (Int.tdiv_mul_add_tmod a b).symm, ?_, ?_⟩
  · rw [Int.natAbs_tmod]
    exact Nat.mod_lt _ (Int.natAbs_pos.mpr hb)
  · by_cases hdvd : b ∣ a
    · exact .inl (Int.tmod_eq_zero_of_dvd hdvd)
    · exact .inr (by rw [Int.sign_tmod, if_neg hdvd])

theorem remainder_sign {a r : Int} (h : r = 0 ∨ r.sign = a.sign) :
    (0 ≤ a → 0 ≤ r) ∧ (a ≤ 0 → r ≤ 0) := by
  obtain rfl | hsign := h
  · exact ⟨fun _ => le_rfl, fun _ => le_rfl⟩
  · constructor
    · intro ha
      exact Int.sign_nonneg_iff.mp (hsign ▸ Int.sign_nonneg_iff.mpr ha)
    · intro ha
      exact Int.sign_nonpos_iff.mp (hsign ▸ Int.sign_nonpos_iff.mpr ha)

theorem eq_of_isQuotient {a b q t : Int} (hb : b ≠ 0) (hq : IsQuotient a b q)
    (ht : IsQuotient a b t) : q = t := by
  obtain ⟨r, hr, hrb, hra⟩ := hq
  obtain ⟨s, hs, hsb, hsa⟩ := ht
  have hdiff : s - r = (q - t) * b := by
    rw [sub_mul]
    omega
  -- The remainders lie on the same side of zero.
  have hclose : (s - r).natAbs < b.natAbs := by
    obtain ⟨hrp, hrn⟩ := remainder_sign hra
    obtain ⟨hsp, hsn⟩ := remainder_sign hsa
    omega
  have hzero : s - r = 0 :=
    Int.eq_zero_of_dvd_of_natAbs_lt_natAbs ⟨q - t, by rw [hdiff, mul_comm]⟩ hclose
  have hfactors := mul_eq_zero.mp (hdiff.symm.trans hzero)
  exact sub_eq_zero.mp (hfactors.resolve_right hb)

theorem tdiv_mem {a b : Int} (ha : intMin ≤ a ∧ a ≤ intMax) (hne : ¬ (a = intMin ∧ b = -1)) :
    intMin ≤ a.tdiv b ∧ a.tdiv b ≤ intMax := by
  unfold intMin intMax at *
  have hle := Int.natAbs_tdiv_le_natAbs a b
  obtain hb | hb := le_or_gt 0 b
  · have hnonneg := fun h : 0 ≤ a => Int.tdiv_nonneg h hb
    have hnonpos := fun h : a ≤ 0 => Int.tdiv_nonneg (Int.neg_nonneg_of_nonpos h) hb
    rw [Int.neg_tdiv] at hnonpos
    omega
  · by_cases hone : b = -1
    · subst hone
      rw [Int.tdiv_neg, Int.tdiv_one]
      omega
    · have hhalf : (a.tdiv b).natAbs ≤ a.natAbs / 2 := by
        rw [Int.natAbs_tdiv]
        exact Nat.div_le_div_left (by omega) (by decide)
      omega

end Number

inductive RingOperator where
  | add
  | sub
  | mul
  deriving DecidableEq

namespace RingOperator

def operator : RingOperator → Operator
  | add => .add
  | sub => .sub
  | mul => .mul

def exact : RingOperator → Int → Int → Int
  | add, m, n => m + n
  | sub, m, n => m - n
  | mul, m, n => m * n

theorem apply_int (op : RingOperator) (m n : Int) :
    op.operator.apply (.int m) (.int n) = .ok (.int (Number.wrap (op.exact m n))) := by
  cases op <;> rfl

theorem exact_modEq (op : RingOperator) {a b m n : Int} (hm : a ≡ m [ZMOD 2 ^ 32])
    (hn : b ≡ n [ZMOD 2 ^ 32]) : op.exact a b ≡ op.exact m n [ZMOD 2 ^ 32] := by
  cases op with
  | add => exact hm.add hn
  | sub => exact hm.sub hn
  | mul => exact hm.mul hn

theorem wrap_exact_wrap (op : RingOperator) (m n : Int) :
    Number.wrap (op.exact (Number.wrap m) (Number.wrap n)) = Number.wrap (op.exact m n) :=
  Number.wrap_eq_of_modEq (op.exact_modEq (Number.wrap_modEq m) (Number.wrap_modEq n))

end RingOperator

inductive IntExpression where
  | literal (n : Int) (mem : Number.intMin ≤ n ∧ n ≤ Number.intMax)
  | apply (op : RingOperator) (left right : IntExpression)

namespace IntExpression

def form : IntExpression → Value
  | literal n _ => .int n
  | apply op left right => .list [.sym op.operator.symbol, left.form, right.form]

def value : IntExpression → Int
  | literal n _ => n
  | apply op left right => op.exact left.value right.value

def height : IntExpression → Nat
  | literal _ _ => 1
  | apply _ left right => max left.height right.height + 1

theorem height_pos (t : IntExpression) : 0 < t.height := by
  cases t with
  | literal => exact Nat.one_pos
  | apply => exact Nat.succ_pos _

def Bound (store : Store) (scope : ScopeId) : Prop :=
  ∀ op : RingOperator, store.find? op.operator.symbol scope = some (.operator op.operator)

section

variable {limit : Nat} {scope : ScopeId} {m : Machine}

theorem eval_of_limit_le {depth : Int} (h : limit ≤ depth) (form : Value) :
    (eval limit depth form scope).run m = (.error (.tooDeep limit), m) := by
  rw [eval_eq, if_pos (by omega)]
  rfl

theorem eval_symbol {depth : Int} (h : depth < limit) {key : Symbol} {v : Value}
    (hv : m.store.find? key scope = some v) :
    (eval limit depth (.sym key) scope).run m = (.ok v, m) := by
  rw [eval_eq, if_neg (by omega)]
  exact Eval.symbol_run hv

theorem callOperator_run {ev : Evaluator} {left right : Value} {a b : Except EvalError Value}
    (ha : (ev left scope).run m = (a, m)) (hb : (ev right scope).run m = (b, m)) (op : Operator) :
    (Eval.callOperator ev op [left, right] scope).run m =
      (a >>= fun v => b >>= fun w => op.apply v w, m) := by
  refine (Run.run_bind _ _ m).trans ?_
  rw [ha]
  cases a with
  | error e => rfl
  | ok v =>
    refine (Run.run_bind _ _ m).trans ?_
    rw [hb]
    cases b with
    | error e => rfl
    | ok w =>
      change (Run.ofExcept (op.apply v w)).run m = (op.apply v w, m)
      cases op.apply v w <;> rfl

/-- An expression gives its wrapped value, or exceeds the limit, and changes nothing. -/
theorem eval_form (h : Bound m.store scope) (t : IntExpression) (depth : Int) :
    (eval limit depth t.form scope).run m =
      (if depth + t.height ≤ limit then .ok (.int (Number.wrap t.value))
        else .error (.tooDeep limit), m) := by
  induction t generalizing depth with
  | literal n mem =>
    obtain hl | hl := le_or_gt (limit : Int) depth
    · rw [eval_of_limit_le hl, if_neg (by simp only [height]; omega)]
    · rw [eval_eq, if_neg (by omega), if_pos (by simp only [height]; omega), value,
        Number.wrap_eq_self mem.1 mem.2]
      rfl
  | apply op left right ihl ihr =>
    have hheight : (apply op left right).height = max left.height right.height + 1 := rfl
    have hposl := left.height_pos
    have hposr := right.height_pos
    obtain hl | hl := le_or_gt (limit : Int) depth
    · rw [eval_of_limit_le hl, if_neg (by omega)]
    rw [form, eval_application hl]
    obtain hs | hs := le_or_gt (limit : Int) (depth + 1)
    · -- The head is evaluated first, one level deeper.
      rw [Eval.application, SpecialForm.ofHead?_operator, if_neg (by omega)]
      refine (Run.run_bind _ _ m).trans ?_
      rw [eval_of_limit_le hs]
    · rw [Eval.application_of_operator _ (SpecialForm.ofHead?_operator _) (eval_symbol hs (h op)),
        callOperator_run (ihl (depth + 1)) (ihr (depth + 1))]
      by_cases hd : depth + (apply op left right).height ≤ limit
      · rw [if_pos hd, if_pos (by omega), if_pos (by omega), value, ← op.wrap_exact_wrap]
        exact congrArg (·, m) (op.apply_int _ _)
      · rw [if_neg hd]
        by_cases hdl : depth + 1 + left.height ≤ limit
        · have hdr : ¬ depth + 1 + right.height ≤ limit := by omega
          rw [if_pos hdl, if_neg hdr]
          rfl
        · rw [if_neg hdl]
          rfl

end

end IntExpression

namespace Operator

theorem apply_div (a : Int) {b : Int} (hb : b ≠ 0) :
    div.apply (.int a) (.int b) = .ok (.int (Number.wrap (a.tdiv b))) := by
  have hdivide : divideInts a b = .ok (a.tdiv b) := if_neg hb
  rw [apply, arithmetic, hdivide]
  rfl

theorem apply_div_eq_error (a b : Int) :
    div.apply (.int a) (.int b) = .error .divisionByZero ↔ b = 0 := by
  constructor
  · intro h
    by_contra hb
    rw [apply_div a hb] at h
    cases h
  · rintro rfl
    rfl

end Operator

open Number in
/-- Integers are words of 32 bits. An expression gives the word that agrees with its exact
value modulo `2 ^ 32`, although every intermediate result is wrapped, unless its height
exceeds the levels that are left. Division fails for zero alone. Otherwise it gives the only
quotient with the fraction cut off, but for the one quotient that is no word. -/
theorem integers_are_words :
    (∀ (t : IntExpression) (limit : Nat) (depth : Int) (scope : ScopeId) (m : Machine),
      IntExpression.Bound m.store scope →
        (depth + t.height ≤ limit → ∃ n, (eval limit depth t.form scope).run m = (.ok (.int n), m) ∧
          n = wrap t.value ∧ intMin ≤ n ∧ n ≤ intMax ∧ n ≡ t.value [ZMOD 2 ^ 32]) ∧
        (limit < depth + t.height →
          (eval limit depth t.form scope).run m = (.error (.tooDeep limit), m))) ∧
    ∀ a b : Int, intMin ≤ a ∧ a ≤ intMax → intMin ≤ b ∧ b ≤ intMax →
      (Operator.div.apply (.int a) (.int b) = .error .divisionByZero ↔ b = 0) ∧
      (b ≠ 0 → ∃ q, Operator.div.apply (.int a) (.int b) = .ok (.int q) ∧
        (a = intMin ∧ b = -1 → q = intMin) ∧
        (¬ (a = intMin ∧ b = -1) → ∀ t, IsQuotient a b t ↔ t = q)) := by
  refine ⟨fun t limit depth scope m hbound => ⟨fun hle => ?_, fun hlt => ?_⟩, fun a b ha _ => ?_⟩
  · have hrun : (eval limit depth t.form scope).run m = _ := IntExpression.eval_form hbound t depth
    rw [if_pos hle] at hrun
    exact ⟨_, hrun, rfl, (wrap_mem _).1, (wrap_mem _).2, wrap_modEq _⟩
  · rw [IntExpression.eval_form hbound t depth, if_neg (by omega)]
  · refine ⟨Operator.apply_div_eq_error a b, fun hb => ⟨_, Operator.apply_div a hb, ?_, ?_⟩⟩
    · rintro ⟨rfl, rfl⟩
      decide
    · intro hne t
      obtain ⟨hl, hu⟩ := tdiv_mem ha hne
      rw [wrap_eq_self hl hu]
      exact ⟨fun ht => eq_of_isQuotient hb ht (isQuotient_tdiv a hb), fun ht => ht ▸ isQuotient_tdiv a hb⟩

theorem product_of_a_sum_wraps :
    let literal (n : Int) (mem : Number.intMin ≤ n ∧ n ≤ Number.intMax) := IntExpression.literal n mem
    let t : IntExpression := .apply .mul (.apply .add (literal 2147483647 (by decide))
      (literal 1 (by decide))) (literal 3 (by decide))
    let m : Machine := ⟨Session.fresh.store, #[]⟩
    (eval 3 0 t.form Session.root).run m = (.ok (.int (-2147483648)), m) ∧
      (eval 2 0 t.form Session.root).run m = (.error (.tooDeep 2), m) ∧
      (∀ q, Number.IsQuotient (-7) 2 q ↔ q = -3) ∧
      Operator.div.apply (.int (-2147483648)) (.int (-1)) = .ok (.int (-2147483648)) := by
  intro literal t m
  obtain ⟨hrun, hdiv⟩ := integers_are_words
  have hbound : IntExpression.Bound m.store Session.root := by
    intro op
    cases op <;> with_unfolding_all rfl
  obtain ⟨n, hn, rfl, _⟩ := (hrun t 3 0 Session.root m hbound).1 (by decide)
  obtain ⟨q, hq, _, hquotient⟩ := (hdiv (-7) 2 (by decide) (by decide)).2 (by decide)
  obtain ⟨r, hr, hmin, _⟩ := (hdiv (-2147483648) (-1) (by decide) (by decide)).2 (by decide)
  obtain rfl : q = -3 := by
    cases hq
    rfl
  obtain rfl := hmin (by decide)
  exact ⟨hn, (hrun t 2 0 Session.root m hbound).2 (by decide), hquotient (by decide), hr⟩

end SmallLisp
