import SmallLisp.Proofs.ReadForms
import SmallLisp.Proofs.TextLayout

namespace SmallLisp

namespace Token

/-- If the token starts as a string literal, the literal is closed. -/
def IsClosed (t : List Char) : Prop :=
  t.head? = some '\x22' → ∃ body, IsBody body ∧ t = '\x22' :: (body ++ ['\x22'])

variable {s s' gap t rest : List Char} {ts ts' : List (List Char)}

theorem not_isBody_quote {body : List Char} (h : IsBody body) : ¬ IsBody (body ++ ['\x22']) := by
  rw [isBody_append h]
  intro hb
  cases hb with
  | plain _ hq _ => exact hq rfl

theorem stands_newline (h : Stands rest t) (hc : IsClosed t) (s' : List Char) :
    Stands (rest ++ '\n' :: s') t := by
  have hhead {c : Char} (hc : c ∈ (rest ++ '\n' :: s').head?) : c ∈ rest.head? ∨ c = '\n' := by
    cases rest with
    | nil => exact .inr (Option.some.inj hc).symm
    | cons d rest => exact .inl hc
  cases h with
  | splice => exact .splice
  | single hs hr =>
    refine .single hs fun htilde hat => ?_
    obtain hat | hat := hhead hat
    · exact hr htilde hat
    · exact absurd hat (by decide)
  | literal hb => exact .literal hb
  | unclosed hb hr =>
    obtain ⟨body, hbody, he⟩ := hc rfl
    exact absurd ((List.cons.inj he).2 ▸ hb) (not_isBody_quote hbody)
  | run hs hrun hr =>
    refine .run hs hrun fun d hd => ?_
    obtain hd | rfl := hhead hd
    · exact hr d hd
    · exact fun hin => absurd hin.1 (by decide)

theorem stands_ne_nil (h : Stands rest t) : t ≠ [] := by
  cases h <;> exact List.cons_ne_nil _ _

theorem gap_append (h : Gap s gap) (hs : s ≠ []) (s' : List Char) : Gap (s ++ s') gap := by
  induction h with
  | nil => exact .nil
  | separator hc _ ih => exact .separator hc ih
  | @comment body gap hb hr _ ih =>
    refine .comment hb ?_ ih
    rwa [← List.append_assoc, List.head?_append_of_ne_nil _ (by simp [hs])]

theorem layout_gap_newline (h : Gap [] gap) (h' : Layout s' ts') :
    Layout (gap ++ '\n' :: s') ts' := by
  induction h with
  | nil => exact layout_separator (by decide) h'
  | separator hc _ ih => exact layout_separator (isSeparator_iff.mpr hc) ih
  | @comment body gap hb hr _ ih =>
    rw [List.cons_append, List.append_assoc]
    refine layout_comment hb (fun c hc => ?_) ih
    cases gap with
    | nil => exact (Option.some.inj hc).symm
    | cons d gap => exact hr c hc

/-- A line feed ends whatever comes before it, except for a string literal that is not
closed. -/
theorem layout_newline (h : Layout s ts) (hc : ∀ t ∈ ts, IsClosed t) (h' : Layout s' ts') :
    Layout (s ++ '\n' :: s') (ts ++ ts') := by
  induction h with
  | last hg => exact layout_gap_newline hg h'
  | @token gap t rest ts hg ht _ ih =>
    obtain ⟨hct, hcts⟩ := List.forall_mem_cons.mp hc
    have hne : t ++ rest ≠ [] := by simp [stands_ne_nil ht]
    have hgap := gap_append hg hne ('\n' :: s')
    rw [List.append_assoc] at hgap
    rw [List.append_assoc, List.append_assoc]
    exact .token hgap (stands_newline ht hct s') (ih hcts)

theorem tokenize_newline {a : String} (h : ∀ t ∈ tokenize a, IsClosed t.toList) (b : String) :
    tokenize (a ++ "\n" ++ b) = tokenize a ++ tokenize b := by
  have hlists (text : String) : (tokenize text).map String.toList = scan [] text.toList := by
    simp [tokenize, List.map_map]
  have hclosed : ∀ t ∈ scan [] a.toList, IsClosed t := by
    intro t ht
    rw [← hlists] at ht
    obtain ⟨token, htoken, rfl⟩ := List.mem_map.mp ht
    exact h token htoken
  have hlayout := layout_newline (layout_scan a.toList) hclosed (layout_scan b.toList)
  have htext : (a ++ "\n" ++ b).toList = a.toList ++ '\n' :: b.toList := by simp
  rw [tokenize, htext, scan_layout hlayout, List.map_append]
  rfl

end Token

namespace Nesting

variable {limit opened : Nat} {ts : List String}

theorem fault?_append (h : fault? limit opened ts = none) (rest : List String) :
    fault? limit opened (ts ++ rest) = fault? limit 0 rest := by
  fun_induction fault? limit opened ts with
  | case1 => rfl
  | case2 => cases h
  | case3 => cases h
  | case4 opened ts hle ih => rw [List.cons_append, fault?_open (Nat.not_lt.mp hle), ih h]
  | case5 => cases h
  | case6 opened ts ho _ ih =>
    obtain ⟨opened, rfl⟩ := Nat.exists_eq_succ_of_ne_zero ho
    rw [List.cons_append, fault?_close]
    exact ih h
  | case7 => cases h
  | case8 opened token ts hopen hclose hshort ih =>
    rw [List.cons_append, fault?_atom hopen hclose hshort, ih h]

end Nesting

namespace Program

def forms (limit : Nat) (text : String) : List Value :=
  match Program.read limit text with
  | .ok (.list (_ :: forms)) => forms
  | _ => []

theorem forms_of_read {limit : Nat} {text : String} {vs : List Value}
    (h : Program.read limit text = .ok (sequence vs)) : forms limit text = vs := by
  rw [forms, h]
  rfl

theorem read_eq_forms {limit : Nat} {text : String} (h : ∃ form, Program.read limit text = .ok form) :
    Program.read limit text = .ok (sequence (forms limit text)) := by
  obtain ⟨form, hform⟩ := h
  obtain ⟨vs, rfl, _⟩ := brackets_of_read hform
  rw [forms_of_read hform, hform]

/-- Two texts with a line feed between them have the forms of the first and then those of
the second. -/
theorem read_newline {limit : Nat} {a b : String} {vs ws : List Value}
    (hclosed : ∀ t ∈ Token.tokenize a, Token.IsClosed t.toList)
    (ha : Program.read limit a = .ok (sequence vs)) (hb : Program.read limit b = .ok (sequence ws)) :
    Program.read limit (a ++ "\n" ++ b) = .ok (sequence (vs ++ ws)) := by
  obtain ⟨vs', hvs, hscan, hbrackets⟩ := brackets_of_read ha
  obtain ⟨ws', hws, hscan', hbrackets'⟩ := brackets_of_read hb
  obtain rfl : vs = vs' := by simpa [sequence] using hvs
  obtain rfl : ws = ws' := by simpa [sequence] using hws
  have htokens := Token.tokenize_newline hclosed b
  refine read_of_brackets ?_ ?_
  · rw [htokens, Nesting.fault?_append hscan, hscan']
  · rw [htokens]
    exact Nesting.brackets_append hbrackets hbrackets'

end Program

end SmallLisp
