import SmallLisp.Proofs.AtomText
import SmallLisp.Proofs.Bracketing
import SmallLisp.Proofs.Subvalue

namespace SmallLisp

namespace Value

/-- The values that are read back from their texts: readable atoms, and lists of such
values that are nested at most `n` deep. -/
inductive Readable : Nat → Value → Prop
  | atom {n : Nat} {v : Value} (h : v.ReadableAtom) : Readable n v
  | list {n : Nat} {items : List Value} (h : ∀ v ∈ items, Readable n v) :
      Readable (n + 1) (.list items)

mutual

def tokens : Value → List String
  | list items => "(" :: (tokensEach items ++ [")"])
  | v => [v.display]

def tokensEach : List Value → List String
  | [] => []
  | v :: rest => tokens v ++ tokensEach rest

end

mutual

/-- The number of digits of the first symbol in the value whose name is an integer of too
many digits. -/
def overlong? : Value → Option Nat
  | sym s => Atom.overlong? s.name.toList
  | list items => overlongEach? items
  | _ => none

def overlongEach? : List Value → Option Nat
  | [] => none
  | v :: rest => (overlong? v).or (overlongEach? rest)

end

theorem overlong?_display {v : Value} (h : v.ReadableAtom) :
    Atom.overlong? v.display.toList = v.overlong? := by
  cases h with
  | int n hl hu => exact Atom.overlong?_toString hl hu
  | bool b => cases b <;> rfl
  | nil => rfl
  | str =>
    rw [Atom.toList_display_str, Atom.overlong?_of_quote]
    rfl
  | sym => rw [display, overlong?]

theorem overlongEach?_eq_none_iff {items : List Value} :
    overlongEach? items = none ↔ ∀ v ∈ items, v.overlong? = none := by
  induction items with
  | nil => exact iff_of_true rfl (List.forall_mem_nil _)
  | cons v items ih => rw [overlongEach?, Option.or_eq_none_iff, ih, List.forall_mem_cons]

theorem overlong?_eq_none_iff {n : Nat} {v : Value} (h : v.Readable n) :
    v.overlong? = none ↔ ∀ s : Symbol, (Value.sym s).Occurs v → Atom.Convertible s.name.toList := by
  induction h with
  | @atom n v h =>
    cases h with
    | @sym s =>
      rw [overlong?, Atom.overlong?_eq_none_iff_convertible]
      refine ⟨fun h t ht => ?_, fun h => h s .self⟩
      cases ht
      exact h
    | _ => exact iff_of_true rfl fun s hs => nomatch hs
  | @list n items h ih =>
    rw [overlong?, overlongEach?_eq_none_iff]
    constructor
    · intro hitems s hs
      cases hs with
      | item hv hs => exact (ih _ hv).mp (hitems _ hv) s hs
    · exact fun hitems v hv => (ih v hv).mpr fun s hs => hitems s (.item hv hs)

theorem tokens_of_readableAtom {v : Value} (h : v.ReadableAtom) : v.tokens = [v.display] := by
  cases h <;> rfl

def itemsText (items : List Value) : List Char := (" ".intercalate (items.map display)).toList

theorem toList_display_list (items : List Value) :
    (Value.list items).display.toList = '(' :: (itemsText items ++ [')']) := by
  simp [display, displayEach_eq_map, itemsText]

theorem tokensEach_cons (v : Value) (items : List Value) :
    tokensEach (v :: items) = v.tokens ++ tokensEach items := rfl

theorem itemsText_singleton (v : Value) : itemsText [v] = v.display.toList := by
  simp [itemsText, String.intercalate_singleton]

theorem itemsText_cons_cons (v w : Value) (rest : List Value) :
    itemsText (v :: w :: rest) = v.display.toList ++ ' ' :: itemsText (w :: rest) := by
  simp [itemsText, String.intercalate_cons_cons]

end Value

namespace Token

theorem breaks_nil : Breaks [] := nofun

theorem breaks_space (rest : List Char) : Breaks (' ' :: rest) := by
  intro c hc
  obtain rfl := Option.some.inj hc
  decide

theorem breaks_close (rest : List Char) : Breaks (')' :: rest) := by
  intro c hc
  obtain rfl := Option.some.inj hc
  decide

theorem scan_itemsText {items : List Value} (rest : List Char)
    (h : ∀ v ∈ items, ∀ rest, Breaks rest →
      scan [] (v.display.toList ++ rest) = v.tokens.map String.toList ++ scan [] rest) :
    scan [] (Value.itemsText items ++ ')' :: rest) =
      (Value.tokensEach items).map String.toList ++ scan [] (')' :: rest) := by
  induction items with
  | nil => rfl
  | cons v items ih =>
    obtain ⟨hv, hitems⟩ := List.forall_mem_cons.mp h
    cases items with
    | nil =>
      rw [Value.itemsText_singleton, hv _ (breaks_close rest), Value.tokensEach_cons,
        Value.tokensEach, List.append_nil]
    | cons w items =>
      rw [Value.itemsText_cons_cons, List.append_assoc, List.cons_append, hv _ (breaks_space _),
        scan_separator (by decide), ih hitems, Value.tokensEach_cons v, List.map_append,
        List.append_assoc]

theorem scan_display {n : Nat} {v : Value} (h : v.Readable n) {rest : List Char}
    (hr : Breaks rest) :
    scan [] (v.display.toList ++ rest) = v.tokens.map String.toList ++ scan [] rest := by
  induction h generalizing rest with
  | atom h =>
    rw [scan_token (Atom.isToken_display h) hr, Value.tokens_of_readableAtom h]
    rfl
  | @list n items h ih =>
    -- A parenthesis is a token whatever follows it, so only the items need what breaks them off.
    have hopen : ∀ cs, scan [] ('(' :: cs) = ['('] :: scan [] cs :=
      fun cs => scan_single rfl fun hc => absurd hc (by decide)
    have hclose : scan [] (')' :: rest) = [')'] :: scan [] rest :=
      scan_single rfl fun hc => absurd hc (by decide)
    have hitems := scan_itemsText rest fun v hv rest hr => ih v hv hr
    rw [Value.toList_display_list, List.cons_append, List.append_assoc, List.singleton_append, hopen,
      hitems, hclose]
    simp [Value.tokens]

theorem tokenize_display {n : Nat} {v : Value} (h : v.Readable n) :
    tokenize v.display = v.tokens := by
  have hscan := scan_display h breaks_nil
  rw [List.append_nil] at hscan
  rw [tokenize, hscan]
  simp [scan_nil, List.map_map]

end Token

namespace Nesting

variable {limit opened : Nat}

theorem fault?_tokensEach {vs : List Value}
    (h : ∀ v ∈ vs, ∀ rest, fault? limit opened (v.tokens ++ rest) =
      (v.overlong?.map .tooManyDigits).or (fault? limit opened rest)) (rest : List String) :
    fault? limit opened (Value.tokensEach vs ++ rest) =
      ((Value.overlongEach? vs).map .tooManyDigits).or (fault? limit opened rest) := by
  induction vs with
  | nil => rfl
  | cons v vs ih =>
    obtain ⟨hv, hvs⟩ := List.forall_mem_cons.mp h
    rw [Value.tokensEach_cons, List.append_assoc, hv, ih hvs, Value.overlongEach?]
    cases v.overlong? <;> rfl

theorem fault?_tokens {n : Nat} {v : Value} (h : v.Readable n) (hdepth : opened + n ≤ limit)
    (rest : List String) : fault? limit opened (v.tokens ++ rest) =
      (v.overlong?.map .tooManyDigits).or (fault? limit opened rest) := by
  induction h generalizing opened rest with
  | @atom n v h =>
    obtain ⟨hopen, hclose⟩ := Atom.display_ne_parenthesis h
    rw [Value.tokens_of_readableAtom h, List.singleton_append, ← Value.overlong?_display h]
    cases hlong : Atom.overlong? v.display.toList with
    | none => exact fault?_atom hopen hclose hlong
    | some count => exact fault?_overlong hopen hclose hlong
  | @list n vs h ih =>
    have hvs := @fault?_tokensEach limit (opened + 1) vs
      (fun v hv rest => ih v hv (by omega) rest) (")" :: rest)
    rw [Value.tokens, List.cons_append, List.append_assoc, List.singleton_append,
      fault?_open (by omega), hvs, fault?_close, Value.overlong?]

theorem brackets_tokensEach {vs : List Value}
    (h : ∀ v ∈ vs, v.overlong? = none → Brackets v.tokens [v])
    (hshort : Value.overlongEach? vs = none) :
    Brackets (Value.tokensEach vs) vs := by
  induction vs with
  | nil => exact .nil
  | cons v vs ih =>
    obtain ⟨hv, hvs⟩ := List.forall_mem_cons.mp h
    obtain ⟨hshort, hrest⟩ := Option.or_eq_none_iff.mp hshort
    exact brackets_append (hv hshort) (ih hvs hrest)

theorem brackets_tokens {n : Nat} {v : Value} (h : v.Readable n) (hshort : v.overlong? = none) :
    Brackets v.tokens [v] := by
  induction h with
  | @atom n v h =>
    obtain ⟨hopen, hclose⟩ := Atom.display_ne_parenthesis h
    rw [← Value.overlong?_display h] at hshort
    rw [Value.tokens_of_readableAtom h]
    exact .atom hopen hclose (Atom.read_of_short hshort ▸ Atom.resolve_display h) .nil
  | list h ih => exact .list (brackets_tokensEach ih hshort) .nil

end Nesting

namespace Program

variable {limit : Nat} {v : Value}

theorem read_display (h : v.Readable limit) : Program.read limit v.display =
    match v.overlong? with
    | none => .ok (sequence [v])
    | some count => .error (.tooManyDigits count) := by
  have hscan := Nesting.fault?_tokens h (Nat.zero_add limit).le []
  rw [List.append_nil, ← Token.tokenize_display h] at hscan
  cases hlong : v.overlong? with
  | some count =>
    rw [hlong] at hscan
    exact read_of_fault hscan
  | none =>
    rw [hlong] at hscan
    refine read_of_brackets hscan ?_
    rw [Token.tokenize_display h]
    exact Nesting.brackets_tokens h hlong

theorem read_display_of_short (h : v.Readable limit) (hshort : v.overlong? = none) :
    Program.read limit v.display = .ok (sequence [v]) := by
  rw [read_display h, hshort]

/-- A value that is not nested too deep is read back from what is printed for it, unless there
is a symbol in it whose name is an integer of more digits than are converted. Such a name makes
reading fail. -/
theorem readable_value_is_read_back_iff (h : v.Readable limit) :
    (Program.read limit v.display = .ok (.list [.sym ⟨"do", by decide⟩, v]) ↔
      ∀ s : Symbol, (Value.sym s).Occurs v → Atom.Convertible s.name.toList) ∧
    ((∃ s : Symbol, (Value.sym s).Occurs v ∧ ¬ Atom.Convertible s.name.toList) →
      ∃ count, 4300 < count ∧ Program.read limit v.display = .error (.tooManyDigits count)) := by
  have hsyms := Value.overlong?_eq_none_iff h
  cases hlong : v.overlong? with
  | none =>
    have hall := hsyms.mp hlong
    refine ⟨iff_of_true (read_display_of_short h hlong) hall, ?_⟩
    rintro ⟨s, hs, hname⟩
    exact absurd (hall s hs) hname
  | some count =>
    have hread : Program.read limit v.display = .error (.tooManyDigits count) := by
      rw [read_display h, hlong]
    have hcount : 4300 < count := by
      cases Nesting.isFault_of_fault? (fault?_of_unread hread) with
      | tooManyDigits h => exact h
    refine ⟨iff_of_false ?_ fun hall => ?_, fun _ => ⟨count, hcount, hread⟩⟩
    · rw [hread]
      exact nofun
    · cases (hsyms.mpr hall).symm.trans hlong

theorem nested_list_is_read_back :
    let v : Value := .list [.int (-7), .str "a\\nb", .sym ⟨"~@", by decide⟩, .list []]
    v.Readable 2 ∧ Program.read 2 v.display = .ok (.list [.sym ⟨"do", by decide⟩, v]) := by
  intro v
  have htext : Token.IsBody "a\\nb".toList := by
    rw [show "a\\nb".toList = ['a', '\\', 'n', 'b'] by decide]
    exact .plain (by decide) (by decide) (.pair (by decide) (.plain (by decide) (by decide) .nil))
  have hname : Symbol.Readable ⟨"~@", by decide⟩ :=
    ⟨by decide +kernel, by decide, by decide, by decide, by decide⟩
  have hv : v.Readable 2 := by
    refine .list ?_
    simp only [List.forall_mem_cons]
    exact ⟨.atom (.int _ (by decide) (by decide)), .atom (.str htext), .atom (.sym hname),
      .list (List.forall_mem_nil _), List.forall_mem_nil _⟩
  refine ⟨hv, (readable_value_is_read_back_iff hv).1.mpr ?_⟩
  exact (Value.overlong?_eq_none_iff hv).mp (by decide)

theorem symbol_of_ones_is_not_read_back :
    (Value.sym Symbol.ones).Readable 1 ∧
      Program.read 1 (Value.sym Symbol.ones).display = .error (.tooManyDigits 4301) := by
  have hv : (Value.sym Symbol.ones).Readable 1 := .atom (.sym Symbol.readable_ones)
  have hlong : (Value.sym Symbol.ones).overlong? = some 4301 := Symbol.overlong?_ones
  refine ⟨hv, ?_⟩
  rw [read_display hv, hlong]

end Program

end SmallLisp
