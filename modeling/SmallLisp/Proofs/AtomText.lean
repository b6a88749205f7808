import Mathlib.Tactic.IntervalCases
import SmallLisp.Atom
import SmallLisp.Proofs.TokenForms
import SmallLisp.Value.Display

namespace SmallLisp

/-- The name of a symbol that is read back as it is: one token, which is no parenthesis,
does not start as a string literal, and is neither a literal nor an integer in range. -/
structure Symbol.Readable (s : Symbol) : Prop where
  token : Token.tokenize s.name = [s.name]
  not_parenthesis : s.name ≠ "(" ∧ s.name ≠ ")"
  not_text : s.name.toList.head? ≠ some '\x22'
  not_literal : s.name ∉ ["true", "false", "nil"]
  not_word : Atom.word? s.name.toList = none

instance (s : Symbol) : Decidable s.Readable :=
  decidable_of_iff (Token.tokenize s.name = [s.name] ∧ (s.name ≠ "(" ∧ s.name ≠ ")") ∧
      s.name.toList.head? ≠ some '\x22' ∧ s.name ∉ ["true", "false", "nil"] ∧
      Atom.word? s.name.toList = none)
    ⟨fun ⟨ht, hp, hq, hl, hw⟩ => ⟨ht, hp, hq, hl, hw⟩,
      fun h => ⟨h.token, h.not_parenthesis, h.not_text, h.not_literal, h.not_word⟩⟩

theorem Operator.readable_symbol (op : Operator) : op.symbol.Readable := by
  have hall : ∀ op ∈ all, op.symbol.Readable := by decide +kernel
  exact hall op op.mem_all

inductive Value.ReadableAtom : Value → Prop
  | int (n : Int) (hl : Number.intMin ≤ n) (hu : n ≤ Number.intMax) : ReadableAtom (.int n)
  | bool (b : Bool) : ReadableAtom (.bool b)
  | nil : ReadableAtom .nil
  | str {text : String} (h : Token.IsBody text.toList) : ReadableAtom (.str text)
  | sym {s : Symbol} (h : s.Readable) : ReadableAtom (.sym s)

namespace Atom

theorem isRun_of_isDigit {c : Char} (h : c.isDigit = true) :
    Token.isSingle c = false ∧ Token.isRun c = true := by
  simp only [Char.isDigit, Bool.and_eq_true, decide_eq_true_eq, UInt32.le_iff_toNat_le] at h
  obtain ⟨hl, hu⟩ := h
  have hc : c = Char.ofNat c.toNat := (Char.ofNat_toNat c).symm
  have hl : 48 ≤ c.toNat := hl
  have hu : c.toNat ≤ 57 := hu
  rw [hc]
  interval_cases c.toNat <;> decide

theorem natural?_of_isDigit {s : List Char} (hne : s ≠ []) (h : ∀ c ∈ s, c.isDigit = true) :
    natural? s = some (Nat.ofDigitChars 10 s 0) := by
  have hempty : s.isEmpty = false := List.isEmpty_eq_false_iff.mpr hne
  rw [natural?, hempty, List.all_eq_true.mpr h, Nat.ofDigitChars_eq_foldl]
  rfl

theorem natural?_toDigits (n : Nat) : natural? (Nat.toDigits 10 n) = some n := by
  rw [natural?_of_isDigit Nat.toDigits_ne_nil
    fun c hc => Nat.isDigit_of_mem_toDigits (by decide) (by decide) hc, Nat.ofDigitChars_ten_toDigits]

theorem head?_ne_minus {digits : List Char} (h : ∀ c ∈ digits, c.isDigit = true) :
    digits.head? ≠ some '-' := by
  intro hc
  exact absurd (h _ (List.mem_of_head? hc)) (by decide)

theorem integer?_of_digits {digits : List Char} (h : ∀ c ∈ digits.head?, c ≠ '-') :
    integer? digits = (natural? digits).map fun (n : Nat) => (n : Int) := by
  unfold integer?
  split
  · exact absurd rfl (h _ rfl)
  · rfl

theorem integer?_of_isDigit {digits : List Char} (hne : digits ≠ [])
    (h : ∀ c ∈ digits, c.isDigit = true) :
    integer? digits = some (Nat.ofDigitChars 10 digits 0 : Int) := by
  rw [integer?_of_digits (fun c hc he => head?_ne_minus h (he ▸ hc)), natural?_of_isDigit hne h]
  rfl

theorem integer?_toString (n : Int) : integer? (toString n).toList = some n := by
  rw [Int.toString_eq_repr, Int.repr_eq_if]
  split
  · next hn =>
    rw [Nat.toList_repr, integer?_of_isDigit Nat.toDigits_ne_nil
      fun c hc => Nat.isDigit_of_mem_toDigits (by decide) (by decide) hc, Nat.ofDigitChars_ten_toDigits]
    exact congrArg some (Int.toNat_of_nonneg hn)
  · next hn =>
    rw [String.toList_append, Nat.toList_repr]
    change (natural? (Nat.toDigits 10 (-n).toNat)).map (fun (n : Nat) => -(n : Int)) = _
    rw [natural?_toDigits]
    have hneg : -((-n).toNat : Int) = n := by omega
    exact congrArg some hneg

theorem word?_toString {n : Int} (hl : Number.intMin ≤ n) (hu : n ≤ Number.intMax) :
    word? (toString n).toList = some n := by
  rw [word?, integer?_toString, Option.filter_some, if_pos (decide_eq_true ⟨hl, hu⟩)]

theorem overlong?_eq_none_iff {token : List Char} {digits : List Char}
    (hd : (if token.head? = some '-' then token.tail else token) = digits) :
    overlong? token = none ↔ digits.length ≤ 4300 ∨ ∃ c ∈ digits, c.isDigit = false := by
  have hlimit : Text.maxDigits = 4300 := rfl
  rw [overlong?, hd, hlimit]
  simp only [ite_eq_right_iff, reduceCtorEq, imp_false, not_and_or, Nat.not_lt, Bool.not_eq_true,
    List.all_eq_false]

/-- The token is no integer of more than 4300 digits. -/
def Convertible (token : List Char) : Prop :=
  ∀ digits, token = digits ∨ token = '-' :: digits → (∀ c ∈ digits, c.isDigit = true) →
    digits.length ≤ 4300

theorem overlong?_eq_none_iff_convertible {token : List Char} :
    overlong? token = none ↔ Convertible token := by
  constructor
  · intro h digits htoken hdigits
    have hword : (if token.head? = some '-' then token.tail else token) = digits := by
      rcases htoken with rfl | rfl
      · exact if_neg (head?_ne_minus hdigits)
      · rfl
    refine ((overlong?_eq_none_iff hword).mp h).resolve_right ?_
    rintro ⟨c, hc, hnot⟩
    exact Bool.eq_false_iff.mp hnot (hdigits c hc)
  · intro h
    refine (overlong?_eq_none_iff rfl).mpr (or_iff_not_imp_right.mpr fun hall => h _ ?_ ?_)
    · split
      · next hhead =>
        obtain ⟨rest, rfl⟩ := List.head?_eq_some_iff.mp hhead
        exact .inr rfl
      · exact .inl rfl
    · intro c hc
      by_contra hnot
      exact hall ⟨c, hc, Bool.eq_false_iff.mpr hnot⟩

theorem exists_overlong? {token : List Char} (h : ¬ Convertible token) :
    ∃ count, overlong? token = some count :=
  Option.ne_none_iff_exists'.mp fun hnone => h (overlong?_eq_none_iff_convertible.mp hnone)

theorem overlong?_toString {n : Int} (hl : Number.intMin ≤ n) (hu : n ≤ Number.intMax) :
    overlong? (toString n).toList = none := by
  have hshort {m : Nat} (hm : m < 10 ^ 10) : (Nat.toDigits 10 m).length ≤ 4300 := by
    refine Nat.le_trans ((Nat.length_toDigits_le_iff (by decide) (by decide)).mpr hm) (by decide)
  unfold Number.intMin at hl
  unfold Number.intMax at hu
  rw [Int.toString_eq_repr, Int.repr_eq_if]
  split
  · rw [Nat.toList_repr]
    have hhead : (Nat.toDigits 10 n.toNat).head? ≠ some '-' := head?_ne_minus
      fun c hc => Nat.isDigit_of_mem_toDigits (by decide) (by decide) hc
    exact (overlong?_eq_none_iff (if_neg hhead)).mpr (.inl (hshort (by omega)))
  · rw [String.toList_append, Nat.toList_repr]
    exact (overlong?_eq_none_iff (if_pos rfl)).mpr (.inl (hshort (by omega)))

theorem overlong?_of_quote (cs : List Char) : overlong? ('\x22' :: cs) = none :=
  (overlong?_eq_none_iff rfl).mpr (.inr ⟨_, .head _, by decide⟩)

theorem overlong?_of_isDigit {digits : List Char} (h : ∀ c ∈ digits, c.isDigit = true)
    (hlong : 4300 < digits.length) : overlong? digits = some digits.length := by
  rw [overlong?, if_neg (head?_ne_minus h)]
  exact if_pos ⟨hlong, List.all_eq_true.mpr h⟩

theorem pow_le_ofDigitChars {k : Nat} {rest : List Char} (h : k ≤ rest.length) :
    10 ^ k ≤ Nat.ofDigitChars 10 ('1' :: rest) 0 := by
  rw [Nat.ofDigitChars_cons, Nat.ofDigitChars_eq_ofDigitChars_zero]
  calc 10 ^ k ≤ 10 ^ rest.length := Nat.pow_le_pow_right (by decide) h
    _ ≤ _ := Nat.le_trans (Nat.le_mul_of_pos_right _ Nat.one_pos) (Nat.le_add_right _ _)

theorem isToken_of_isDigit {digits : List Char} (hne : digits ≠ [])
    (h : ∀ c ∈ digits, c.isDigit = true) : Token.IsToken digits := by
  obtain ⟨c, rest, rfl⟩ := List.exists_cons_of_ne_nil hne
  obtain ⟨hc, hrest⟩ := List.forall_mem_cons.mp h
  obtain ⟨hs, hr⟩ := isRun_of_isDigit hc
  exact .run hs hr fun d hd => (isRun_of_isDigit (hrest d hd)).2

theorem isToken_toString (n : Int) : Token.IsToken (toString n).toList := by
  rw [Int.toString_eq_repr, Int.repr_eq_if]
  split
  · rw [Nat.toList_repr]
    exact isToken_of_isDigit Nat.toDigits_ne_nil
      fun c hc => Nat.isDigit_of_mem_toDigits (by decide) (by decide) hc
  · rw [String.toList_append, Nat.toList_repr]
    refine .run (by decide) (by decide) fun d hd => ?_
    exact (isRun_of_isDigit (Nat.isDigit_of_mem_toDigits (by decide) (by decide) hd)).2

theorem word?_of_quote (cs : List Char) : word? ('\x22' :: cs) = none := by
  rw [word?, integer?_of_digits (by simp)]
  rfl

theorem literal?_eq_none {token : String} (h : token ∉ ["true", "false", "nil"]) :
    literal? token = none := by
  simp only [List.mem_cons, List.not_mem_nil, or_false, not_or] at h
  rw [literal?, if_neg h.1, if_neg h.2.1, if_neg h.2.2]

theorem literal?_of_quote {token : String} (h : token.toList.head? = some '\x22') :
    literal? token = none := by
  refine literal?_eq_none fun hmem => ?_
  simp only [List.mem_cons, List.not_mem_nil, or_false] at hmem
  rcases hmem with rfl | rfl | rfl <;> exact absurd h (by decide)

theorem toList_display_str (text : String) :
    (Value.str text).display.toList = '\x22' :: (text.toList ++ ['\x22']) := by
  simp [Value.display]

theorem stringBody?_eq (body : List Char) : stringBody? ('\x22' :: (body ++ ['\x22'])) = some body := by
  have hlast : ('\x22' :: (body ++ ['\x22'])).getLast? = some '\x22' := by
    rw [← List.cons_append]
    exact List.getLast?_concat
  simp [stringBody?, hlast]

theorem read_display_str (text : String) : read (Value.str text).display = .ok (.str text) := by
  have hhead : (Value.str text).display.toList.head? = some '\x22' := by
    rw [toList_display_str]
    rfl
  have hshort : overlong? (Value.str text).display.toList = none := by
    rw [toList_display_str, overlong?_of_quote]
  rw [read_of_short hshort, resolve, literal?_of_quote hhead, toList_display_str, word?_of_quote,
    stringBody?_eq]
  dsimp only
  rw [String.ofList_toList]

theorem resolve_display {v : Value} (h : v.ReadableAtom) : resolve v.display = .ok v := by
  cases h with
  | int n hl hu => rw [Value.display, resolve, word?_toString hl hu]
  | bool b => cases b <;> rfl
  | nil => rfl
  | str => exact (read_eq_ok_iff.mp (read_display_str _)).2
  | @sym s hs =>
    have hbody : stringBody? s.name.toList = none := if_neg fun hq => hs.not_text hq.2.1
    rw [Value.display, resolve, hs.not_word, literal?_eq_none hs.not_literal, hbody, s.ofName?_name]

theorem isToken_display {v : Value} (h : v.ReadableAtom) : Token.IsToken v.display.toList := by
  cases h with
  | int n => exact isToken_toString n
  | bool b =>
    cases b with
    | true => exact .run (by decide) (by decide) (List.all_eq_true.mp (by decide))
    | false => exact .run (by decide) (by decide) (List.all_eq_true.mp (by decide))
  | nil => exact .run (by decide) (by decide) (List.all_eq_true.mp (by decide))
  | str hb =>
    rw [toList_display_str]
    exact .literal hb
  | @sym s hs =>
    refine Token.isToken_of_scan ?_ hs.not_text
    have htoken := congrArg (List.map String.toList) hs.token
    change Token.scan [] s.name.toList = [s.name.toList]
    simpa [Token.tokenize, List.map_map] using htoken

theorem ne_parenthesis_of_resolve {token : String} {v : Value} (h : resolve token = .ok v)
    (hv : ∀ s : Symbol, v = .sym s → s.name ≠ "(" ∧ s.name ≠ ")") : token ≠ "(" ∧ token ≠ ")" := by
  constructor
  · rintro rfl
    obtain rfl : Value.sym ⟨"(", by decide⟩ = v := Except.ok.inj h
    exact (hv _ rfl).1 rfl
  · rintro rfl
    obtain rfl : Value.sym ⟨")", by decide⟩ = v := Except.ok.inj h
    exact (hv _ rfl).2 rfl

theorem display_ne_parenthesis {v : Value} (h : v.ReadableAtom) :
    v.display ≠ "(" ∧ v.display ≠ ")" := by
  refine ne_parenthesis_of_resolve (resolve_display h) ?_
  rintro s rfl
  cases h with
  | sym hs => exact hs.not_parenthesis

end Atom

namespace Symbol

def ones : Symbol := ⟨String.ofList (List.replicate 4301 '1'), by
  rw [Ne, String.ofList_eq_empty_iff]
  exact nofun⟩

theorem toList_ones : ones.name.toList = List.replicate 4301 '1' := String.toList_ofList

theorem isDigit_ones : ∀ c ∈ ones.name.toList, c.isDigit = true := by
  rw [toList_ones]
  intro c hc
  rw [List.eq_of_mem_replicate hc]
  rfl

theorem overlong?_ones : Atom.overlong? ones.name.toList = some 4301 := by
  have hlength : ones.name.toList.length = 4301 := by
    rw [toList_ones, List.length_replicate]
  rw [Atom.overlong?_of_isDigit isDigit_ones (by rw [hlength]; decide), hlength]

theorem tokenize_ones : Token.tokenize ones.name = [ones.name] := by
  refine Token.tokenize_of_isToken (Atom.isToken_of_isDigit ?_ isDigit_ones)
  rw [toList_ones]
  exact nofun

theorem ones_ne {token : String} (h : token.toList.length ≠ 4301) : ones.name ≠ token := by
  rintro rfl
  rw [toList_ones, List.length_replicate] at h
  exact h rfl

theorem readable_ones : ones.Readable where
  token := tokenize_ones
  not_parenthesis := ⟨ones_ne (by decide), ones_ne (by decide)⟩
  not_text := by
    rw [toList_ones]
    decide
  not_literal := by
    simp only [List.mem_cons, List.not_mem_nil, or_false, not_or]
    exact ⟨ones_ne (by decide), ones_ne (by decide), ones_ne (by decide)⟩
  not_word := by
    have hne : ones.name.toList ≠ [] := by
      rw [toList_ones]
      exact nofun
    have hlarge : 10 ^ 10 ≤ Nat.ofDigitChars 10 ones.name.toList 0 := by
      rw [toList_ones, List.replicate_succ]
      exact Atom.pow_le_ofDigitChars (by rw [List.length_replicate]; decide)
    rw [Atom.word?, Atom.integer?_of_isDigit hne isDigit_ones, Option.filter_eq_none_iff]
    rintro n ⟨⟩ hword
    have hle := (of_decide_eq_true hword).2
    unfold Number.intMax at hle
    omega

end Symbol

end SmallLisp
