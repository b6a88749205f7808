import SmallLisp.Program
import SmallLisp.Proofs.AtomText
import SmallLisp.Proofs.CursorSteps
import SmallLisp.Proofs.ReadErrors

namespace SmallLisp

namespace Nesting

/-- Scans tokens with a counter of open parentheses, and gives the first fault. Of the other
tokens, only an integer of too many digits is a fault. -/
def fault? (limit : Nat) : Nat → List String → Option ReadError
  | opened, [] => if opened = 0 then none else some .listNotClosed
  | opened, token :: rest =>
    if token = "(" then
      if limit < opened + 1 then some (.tooDeep limit) else fault? limit (opened + 1) rest
    else if token = ")" then
      if opened = 0 then some .listNotOpened else fault? limit (opened - 1) rest
    else
      match Atom.overlong? token.toList with
      | some count => some (.tooManyDigits count)
      | none => fault? limit opened rest

/-- The values that a sequence of tokens writes: a list for each pair of parentheses, and
an atom for each other token. -/
inductive Brackets : List String → List Value → Prop
  | nil : Brackets [] []
  | atom {token : String} {rest : List String} {v : Value} {vs : List Value} (hopen : token ≠ "(")
      (hclose : token ≠ ")") (hv : Atom.read token = .ok v) (h : Brackets rest vs) :
      Brackets (token :: rest) (v :: vs)
  | list {inside rest : List String} {items vs : List Value} (hi : Brackets inside items)
      (h : Brackets rest vs) : Brackets ("(" :: (inside ++ ")" :: rest)) (.list items :: vs)

/-- The faults that a scan can find, with their messages. -/
inductive IsFault (limit : Nat) : ReadError → String → Prop
  | tooDeep : IsFault limit (.tooDeep limit)
      ("Lists nested deeper than " ++ toString limit ++ " levels")
  | listNotOpened : IsFault limit .listNotOpened "Found ')' with no open list"
  | listNotClosed : IsFault limit .listNotClosed "Unexpected end of input: list was not closed"
  | tooManyDigits {count : Nat} (h : 4300 < count) : IsFault limit (.tooManyDigits count)
      ("Exceeds the limit (4300 digits) for integer string conversion: value has " ++
        toString count ++ " digits; use sys.set_int_max_str_digits() to increase the limit")

variable {limit opened : Nat} {rest : List String}

theorem isFault_of_fault? {tokens : List String} {e : ReadError}
    (h : fault? limit opened tokens = some e) : IsFault limit e e.message := by
  fun_induction fault? limit opened tokens with
  | case1 => cases h
  | case2 => cases h; exact .listNotClosed
  | case3 => cases h; exact .tooDeep
  | case4 _ _ _ ih => exact ih h
  | case5 => cases h; exact .listNotOpened
  | case6 _ _ _ _ ih => exact ih h
  | case7 _ token _ _ _ count hcount =>
    obtain rfl := Option.some.inj h
    exact .tooManyDigits (Atom.lt_of_overlong? hcount)
  | case8 _ _ _ _ _ _ ih => exact ih h

theorem brackets_append {ts ts' : List String} {vs vs' : List Value} (h : Brackets ts vs)
    (h' : Brackets ts' vs') : Brackets (ts ++ ts') (vs ++ vs') := by
  induction h with
  | nil => exact h'
  | atom hopen hclose hv _ ih => exact .atom hopen hclose hv ih
  | list hi _ _ ih =>
    rw [List.cons_append, List.append_assoc]
    exact .list hi ih

theorem fault?_open (h : opened + 1 ≤ limit) :
    fault? limit opened ("(" :: rest) = fault? limit (opened + 1) rest := by
  rw [fault?, if_pos rfl, if_neg (Nat.not_lt.mpr h)]

theorem fault?_close : fault? limit (opened + 1) (")" :: rest) = fault? limit opened rest := by
  rw [fault?, if_neg (by decide), if_pos rfl, if_neg (Nat.succ_ne_zero _), Nat.add_sub_cancel]

section Atoms

variable {token : String} (hopen : token ≠ "(") (hclose : token ≠ ")")

include hopen hclose

theorem fault?_atom (h : Atom.overlong? token.toList = none) :
    fault? limit opened (token :: rest) = fault? limit opened rest := by
  rw [fault?, if_neg hopen, if_neg hclose, h]

theorem fault?_overlong {count : Nat} (h : Atom.overlong? token.toList = some count) :
    fault? limit opened (token :: rest) = some (.tooManyDigits count) := by
  rw [fault?, if_neg hopen, if_neg hclose, h]

theorem overlong?_of_fault? (h : fault? limit opened (token :: rest) = none) :
    Atom.overlong? token.toList = none := by
  cases hlong : Atom.overlong? token.toList with
  | none => rfl
  | some count => cases (fault?_overlong hopen hclose hlong).symm.trans h

end Atoms

theorem le_of_fault?_open (h : fault? limit opened ("(" :: rest) = none) : opened + 1 ≤ limit := by
  rw [fault?, if_pos rfl] at h
  split at h
  · cases h
  · next hle => exact Nat.not_lt.mp hle

end Nesting

open Nesting

namespace Cursor

variable {limit : Nat}

/-- Reading from `tokens`, inside `opened` lists, comes to the same as the scan: either it
fails with the fault of the scan, or the scan goes on, outside of all lists, where the
reading ended. -/
def Follows (limit opened : Nat) (tokens : List String) :
    Except ReadError Value × Cursor → Prop
  | (.ok _, c) => c.depth = 0 ∧ fault? limit opened tokens = fault? limit 0 c.rest
  | (.error e, _) => fault? limit opened tokens = some e

theorem follows_of_eq {opened opened' : Nat} {tokens tokens' : List String}
    {r : Except ReadError Value × Cursor}
    (h : fault? limit opened tokens = fault? limit opened' tokens')
    (hr : Follows limit opened' tokens' r) : Follows limit opened tokens r := by
  obtain ⟨e | v, c⟩ := r
  · exact h.trans hr
  · exact ⟨hr.1, h.trans hr.2⟩

theorem readItems_follows (limit : Nat) {rest : List String} (position : Nat) {depth : Nat}
    (items : List Value) (outer : List (List Value)) (hdepth : depth = outer.length + 1)
    (hne : ∀ token ∈ rest, token ≠ "") :
    Follows limit depth rest (readItems limit rest position depth items outer) := by
  fun_induction readItems limit rest position depth items outer with
  | case1 position depth =>
    rw [Follows, fault?, if_neg (by omega)]
  | case2 rest position depth items outer h =>
    rw [Follows, fault?, if_pos rfl, if_pos h]
  | case3 rest position depth items outer h ih =>
    have hle : depth + 1 ≤ limit := Nat.not_lt.mp h
    refine follows_of_eq (fault?_open hle) (ih ?_ (List.forall_mem_cons.mp hne).2)
    rw [hdepth, List.length_cons]
  | case4 rest position depth items =>
    obtain rfl : depth = 1 := hdepth
    exact ⟨rfl, fault?_close⟩
  | case5 rest position depth items _ above outer ih =>
    subst hdepth
    exact follows_of_eq fault?_close (ih rfl (List.forall_mem_cons.mp hne).2)
  | case6 token rest position depth items outer hopen hclose v hv ih =>
    have hshort := (Atom.read_eq_ok_iff.mp hv).1
    exact follows_of_eq (fault?_atom hopen hclose hshort) (ih hdepth (List.forall_mem_cons.mp hne).2)
  | case7 token rest position depth items outer hopen hclose e he =>
    obtain ⟨count, hlong, rfl⟩ := Atom.overlong?_of_error (List.forall_mem_cons.mp hne).1 he
    exact fault?_overlong hopen hclose hlong

theorem readForm_follows (limit : Nat) {c : Cursor} (hend : ¬ c.atEnd) (hdepth : c.depth = 0)
    (hne : ∀ token ∈ c.rest, token ≠ "") : Follows limit 0 c.rest (c.readForm limit) := by
  obtain ⟨_ | ⟨token, rest⟩, position, depth⟩ := c
  · exact absurd rfl hend
  · obtain rfl : depth = 0 := hdepth
    obtain ⟨htoken, hrest⟩ := List.forall_mem_cons.mp hne
    simp only [readForm]
    split
    · next hopen =>
      subst hopen
      simp only [readList]
      split
      · next hlt => rw [Follows, fault?, if_pos rfl, if_pos hlt]
      · next hle =>
        exact follows_of_eq (fault?_open (Nat.not_lt.mp hle))
          (readItems_follows limit (position + 1) [] [] rfl hrest)
    · next hopen =>
      split
      · next hclose =>
        subst hclose
        rw [Follows, fault?, if_neg (by decide), if_pos rfl, if_pos rfl]
      · next hclose =>
        cases hread : Atom.read token with
        | ok v =>
          simp only [readAtom, hread]
          exact ⟨rfl, fault?_atom hopen hclose (Atom.read_eq_ok_iff.mp hread).1⟩
        | error e =>
          obtain ⟨count, hlong, rfl⟩ := Atom.overlong?_of_error htoken hread
          simp only [readAtom, hread]
          exact fault?_overlong hopen hclose hlong

theorem readRest_of_fault {e : ReadError} (done : List Value) (c : Cursor) (hdepth : c.depth = 0)
    (hne : ∀ token ∈ c.rest, token ≠ "") (h : fault? limit 0 c.rest = some e) :
    (readRest limit done c).1 = .error e := by
  fun_induction readRest limit done c with
  | case1 done c hend =>
    rw [List.isEmpty_iff.mp hend, fault?, if_pos rfl] at h
    cases h
  | case2 done c hend v d hd ih =>
    have hfollows := readForm_follows limit hend hdepth hne
    have hsuffix := readForm_rest_suffix limit c
    rw [hd] at hfollows hsuffix
    exact ih hfollows.1 (fun token ht => hne token (hsuffix.subset ht)) (hfollows.2 ▸ h)
  | case3 done c hend e' d hd =>
    have hfollows := readForm_follows limit hend hdepth hne
    rw [hd] at hfollows
    exact congrArg Except.error (Option.some.inj (hfollows.symm.trans h))

theorem readItems_brackets {ts : List String} {vs : List Value} (h : Brackets ts vs)
    {rest : List String} {depth : Nat} (hscan : fault? limit depth (ts ++ rest) = none) :
    fault? limit depth rest = none ∧ ∀ position items outer,
      readItems limit (ts ++ rest) position depth items outer =
        readItems limit rest (position + ts.length) depth (vs.reverse ++ items) outer := by
  induction h generalizing rest depth with
  | nil => exact ⟨hscan, fun _ _ _ => rfl⟩
  | @atom token ts v vs hopen hclose hv _ ih =>
    rw [List.cons_append, fault?_atom hopen hclose (Atom.read_eq_ok_iff.mp hv).1] at hscan
    obtain ⟨hrest, hread⟩ := ih hscan
    refine ⟨hrest, fun position items outer => ?_⟩
    rw [List.cons_append, readItems_atom _ _ _ _ _ _ hopen hclose hv, hread, List.length_cons,
      List.reverse_cons, List.append_assoc, Nat.add_right_comm, Nat.add_assoc]
    rfl
  | @list inside ts items vs _ _ ihi ih =>
    rw [List.cons_append, List.append_assoc, List.cons_append] at hscan ⊢
    have hle := le_of_fault?_open hscan
    rw [fault?_open hle] at hscan
    obtain ⟨hinside, hreadInside⟩ := ihi hscan
    rw [fault?_close] at hinside
    obtain ⟨hrest, hread⟩ := ih hinside
    refine ⟨hrest, fun position items' outer => ?_⟩
    rw [readItems_open _ _ _ _ _ _ hle, hreadInside, readItems_close, hread, List.append_nil,
      List.reverse_reverse, List.reverse_cons, List.append_assoc]
    congr 1
    simp only [List.length_cons, List.length_append]
    omega

theorem readRest_brackets {ts : List String} {vs : List Value} (h : Brackets ts vs)
    (hscan : fault? limit 0 ts = none) (done : List Value) (position : Nat) :
    readRest limit done ⟨ts, position, 0⟩ =
      (.ok (done.reverse ++ vs), ⟨[], position + ts.length, 0⟩) := by
  induction h generalizing done position with
  | nil => rw [readRest_atEnd limit rfl, List.append_nil]; rfl
  | @atom token ts v vs hopen hclose hv _ ih =>
    have hform : readForm limit ⟨token :: ts, position, 0⟩ = (.ok v, ⟨ts, position + 1, 0⟩) := by
      simp only [readForm, if_neg hopen, if_neg hclose, readAtom, hv]
    rw [fault?_atom hopen hclose (Atom.read_eq_ok_iff.mp hv).1] at hscan
    rw [readRest_form limit hform, ih hscan, List.length_cons, List.reverse_cons, List.append_assoc,
      Nat.add_right_comm, Nat.add_assoc]
    rfl
  | @list inside ts items vs hi _ _ ih =>
    have hle := le_of_fault?_open hscan
    rw [fault?_open hle] at hscan
    obtain ⟨hinside, hread⟩ := readItems_brackets hi hscan
    rw [fault?_close] at hinside
    have hform : readForm limit ⟨"(" :: (inside ++ ")" :: ts), position, 0⟩ =
        (.ok (.list items), ⟨ts, position + 1 + inside.length + 1, 0⟩) := by
      simp only [readForm, ↓reduceIte, readList, if_neg (Nat.not_lt.mpr hle), hread, readItems_end,
        List.append_nil, List.reverse_reverse]
    rw [readRest_form limit hform, ih hinside, List.reverse_cons, List.append_assoc]
    congr 2
    simp only [List.length_cons, List.length_append]
    omega

end Cursor

namespace Nesting

variable {limit opened : Nat} {ts : List String}

theorem exists_close (hne : ∀ token ∈ ts, token ≠ "")
    (h : fault? limit (opened + 1) ts = none) :
    ∃ inside rest items, ts = inside ++ ")" :: rest ∧ Brackets inside items ∧
      fault? limit opened rest = none := by
  induction hn : ts.length using Nat.strongRecOn generalizing ts opened with
  | ind n ih =>
    cases ts with
    | nil =>
      rw [fault?, if_neg (Nat.succ_ne_zero _)] at h
      cases h
    | cons token ts =>
      obtain ⟨htoken, hts⟩ := List.forall_mem_cons.mp hne
      rw [List.length_cons] at hn
      by_cases hopen : token = "("
      · subst hopen
        rw [fault?_open (le_of_fault?_open h)] at h
        obtain ⟨inner, rest, items, rfl, hinner, hrest⟩ := ih ts.length (by omega) hts h rfl
        rw [List.length_append, List.length_cons] at hn
        have hne' : ∀ token ∈ rest, token ≠ "" := fun t ht => hts t (by simp [ht])
        obtain ⟨more, rest, items', rfl, hmore, hrest⟩ := ih rest.length (by omega) hne' hrest rfl
        exact ⟨"(" :: (inner ++ ")" :: more), rest, _, by simp, .list hinner hmore, hrest⟩
      · by_cases hclose : token = ")"
        · subst hclose
          rw [fault?_close] at h
          exact ⟨[], ts, [], rfl, .nil, h⟩
        · have hshort := overlong?_of_fault? hopen hclose h
          rw [fault?_atom hopen hclose hshort] at h
          obtain ⟨inside, rest, items, rfl, hinside, hrest⟩ := ih ts.length (by omega) hts h rfl
          obtain ⟨v, hv⟩ := Atom.exists_read htoken hshort
          exact ⟨token :: inside, rest, _, rfl, .atom hopen hclose hv hinside, hrest⟩

theorem exists_brackets (hne : ∀ token ∈ ts, token ≠ "") (h : fault? limit 0 ts = none) :
    ∃ vs, Brackets ts vs := by
  induction hn : ts.length using Nat.strongRecOn generalizing ts with
  | ind n ih =>
    cases ts with
    | nil => exact ⟨[], .nil⟩
    | cons token ts =>
      obtain ⟨htoken, hts⟩ := List.forall_mem_cons.mp hne
      rw [List.length_cons] at hn
      by_cases hopen : token = "("
      · subst hopen
        rw [fault?_open (le_of_fault?_open h)] at h
        obtain ⟨inside, rest, items, rfl, hinside, hrest⟩ := exists_close hts h
        rw [List.length_append, List.length_cons] at hn
        have hne' : ∀ token ∈ rest, token ≠ "" := fun t ht => hts t (by simp [ht])
        obtain ⟨vs, hvs⟩ := ih rest.length (by omega) hne' hrest rfl
        exact ⟨.list items :: vs, .list hinside hvs⟩
      · by_cases hclose : token = ")"
        · subst hclose
          rw [fault?, if_neg (by decide), if_pos rfl, if_pos rfl] at h
          cases h
        · have hshort := overlong?_of_fault? hopen hclose h
          rw [fault?_atom hopen hclose hshort] at h
          obtain ⟨vs, hvs⟩ := ih ts.length (by omega) hts h rfl
          obtain ⟨v, hv⟩ := Atom.exists_read htoken hshort
          exact ⟨v :: vs, .atom hopen hclose hv hvs⟩

end Nesting

namespace Program

theorem read_of_fault {limit : Nat} {text : String} {e : ReadError}
    (h : fault? limit 0 (Token.tokenize text) = some e) : Program.read limit text = .error e := by
  have herror := Cursor.readRest_of_fault [] (.ofTokens (Token.tokenize text)) rfl
    (Token.tokenize_ne_empty text) h
  rw [read, ofTokens, Cursor.readAll, herror]
  rfl

theorem readAll_of_brackets {limit : Nat} {tokens : List String} {forms : List Value}
    (hscan : fault? limit 0 tokens = none) (h : Brackets tokens forms) :
    (Cursor.ofTokens tokens).readAll limit = (.ok forms, ⟨[], tokens.length, 0⟩) := by
  rw [Cursor.readAll, Cursor.ofTokens, Cursor.readRest_brackets h hscan, Nat.zero_add]
  rfl

theorem read_of_brackets {limit : Nat} {text : String} {forms : List Value}
    (hscan : fault? limit 0 (Token.tokenize text) = none)
    (h : Brackets (Token.tokenize text) forms) :
    Program.read limit text = .ok (sequence forms) := by
  rw [read, ofTokens, readAll_of_brackets hscan h]
  rfl

theorem fault?_of_unread {limit : Nat} {text : String} {e : ReadError}
    (h : Program.read limit text = .error e) : fault? limit 0 (Token.tokenize text) = some e := by
  cases hscan : fault? limit 0 (Token.tokenize text) with
  | some other =>
    rw [read_of_fault hscan] at h
    exact congrArg some (Except.error.inj h)
  | none =>
    obtain ⟨forms, hforms⟩ := exists_brackets (Token.tokenize_ne_empty text) hscan
    cases (read_of_brackets hscan hforms).symm.trans h

/-- Reading fails with the first fault that the scan finds. If there is none, it takes all
tokens, and gives the only values that they can write. -/
theorem read_follows_scan (limit : Nat) (text : String) :
    match fault? limit 0 (Token.tokenize text) with
    | some e => Program.read limit text = .error e ∧ IsFault limit e e.message
    | none => ∃ forms,
        (Cursor.ofTokens (Token.tokenize text)).readAll limit =
            (.ok forms, ⟨[], (Token.tokenize text).length, 0⟩) ∧
          Program.read limit text = .ok (.list (.sym ⟨"do", by decide⟩ :: forms)) ∧
          ∀ other, Brackets (Token.tokenize text) other ↔ other = forms := by
  split
  · next e he => exact ⟨read_of_fault he, isFault_of_fault? he⟩
  · next hscan =>
    obtain ⟨forms, hforms⟩ := exists_brackets (Token.tokenize_ne_empty text) hscan
    have hread := readAll_of_brackets hscan hforms
    refine ⟨forms, hread, read_of_brackets hscan hforms, fun other => ⟨fun h => ?_, ?_⟩⟩
    · have hother := (readAll_of_brackets hscan h).symm.trans hread
      exact Except.ok.inj (Prod.mk.inj hother).1
    · rintro rfl
      exact hforms

/-- The scan of the parentheses has nothing to say against a token of 4301 digits. -/
theorem integer_of_many_digits_is_not_read :
    Token.tokenize Symbol.ones.name = [Symbol.ones.name] ∧
      (Symbol.ones.name ≠ "(" ∧ Symbol.ones.name ≠ ")") ∧
      Program.read 1 Symbol.ones.name = .error (.tooManyDigits 4301) := by
  have hne := Symbol.readable_ones.not_parenthesis
  refine ⟨Symbol.tokenize_ones, hne, read_of_fault ?_⟩
  rw [Symbol.tokenize_ones]
  exact fault?_overlong hne.1 hne.2 Symbol.overlong?_ones

end Program

end SmallLisp
