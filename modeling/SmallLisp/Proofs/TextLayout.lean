import SmallLisp.Proofs.TokenForms

namespace SmallLisp.Token

def singles : List Char :=
  ['(', ')', '[', ']', '\x7b', '\x7d', '\x27', '\x60', '~', '^', '@']

def runEnds : List Char :=
  [',', '(', ')', '[', ']', '\x7b', '\x7d', '\x27', '\x60', '\x22', ';']

def InRun (c : Char) : Prop := Text.isBlank c = false ∧ c ∉ runEnds

/-- What stands between two tokens, before the text `rest`: white space, commas and
comments. A comment goes on to the end of its line. -/
inductive Gap (rest : List Char) : List Char → Prop
  | nil : Gap rest []
  | separator {c : Char} {gap : List Char} (hc : Text.isBlank c = true ∨ c = ',')
      (h : Gap rest gap) : Gap rest (c :: gap)
  | comment {body gap : List Char} (hb : ∀ c ∈ body, c ≠ '\n')
      (hr : ∀ c ∈ (gap ++ rest).head?, c = '\n') (h : Gap rest gap) : Gap rest (';' :: (body ++ gap))

/-- What comes after a string literal that is not closed: nothing, or a backslash that
takes no character with it. -/
inductive Stuck : List Char → Prop
  | atEnd : Stuck []
  | backslash : Stuck ['\\']
  | beforeNewline (more : List Char) : Stuck ('\\' :: '\n' :: more)

/-- The tokens that can stand before the text `rest`, which does not go on with them. -/
inductive Stands (rest : List Char) : List Char → Prop
  | splice : Stands rest ['~', '@']
  | single {c : Char} (hc : c ∈ singles) (hr : c = '~' → rest.head? ≠ some '@') : Stands rest [c]
  | literal {body : List Char} (hb : IsBody body) : Stands rest ('\x22' :: (body ++ ['\x22']))
  | unclosed {body : List Char} (hb : IsBody body) (hr : Stuck rest) : Stands rest ('\x22' :: body)
  | run {c : Char} {cs : List Char} (hc : c ∉ ['~', '^', '@']) (h : ∀ d ∈ c :: cs, InRun d)
      (hr : ∀ d ∈ rest.head?, ¬ InRun d) : Stands rest (c :: cs)

/-- A text is made up of tokens, with gaps before, between and after them. -/
inductive Layout : List Char → List (List Char) → Prop
  | last {gap : List Char} (hg : Gap [] gap) : Layout gap []
  | token {gap t rest : List Char} {ts : List (List Char)} (hg : Gap (t ++ rest) gap)
      (ht : Stands rest t) (h : Layout rest ts) : Layout (gap ++ (t ++ rest)) (t :: ts)

theorem isSeparator_iff {c : Char} : isSeparator c = true ↔ Text.isBlank c = true ∨ c = ',' := by
  simp [isSeparator]

theorem isSingle_iff {c : Char} : isSingle c = true ↔ c ∈ singles := by
  simp [isSingle, singles, or_assoc]

theorem isRun_iff {c : Char} : isRun c = true ↔ InRun c := by
  simp [isRun, InRun, runEnds, isSeparator, and_assoc]

theorem isSingle_iff_of_isRun {c : Char} (h : isRun c = true) :
    isSingle c = true ↔ c ∈ ['~', '^', '@'] := by
  rw [isRun_iff] at h
  have hc := h.2
  simp only [runEnds, List.mem_cons, List.not_mem_nil, or_false, not_or] at hc
  simp [isSingle_iff, singles, hc]

theorem layout_separator {c : Char} {s : List Char} {ts : List (List Char)}
    (hc : isSeparator c = true) (h : Layout s ts) : Layout (c :: s) ts := by
  rw [isSeparator_iff] at hc
  cases h with
  | last hg => exact .last (.separator hc hg)
  | token hg ht h => exact .token (.separator hc hg) ht h

theorem layout_comment {body s : List Char} {ts : List (List Char)} (hb : ∀ c ∈ body, c ≠ '\n')
    (hs : ∀ c ∈ s.head?, c = '\n') (h : Layout s ts) : Layout (';' :: (body ++ s)) ts := by
  cases h with
  | last hg =>
    refine .last (.comment hb ?_ hg)
    rwa [List.append_nil]
  | @token gap t rest ts hg ht h =>
    have hcomment := Layout.token (.comment hb hs hg) ht h
    rwa [List.cons_append, List.append_assoc] at hcomment

theorem stringRest_forms (done s : List Char) :
    ∃ body, IsBody body ∧
      ((stringRest done s).1 = done.reverse ++ (body ++ ['\x22']) ∨
        (stringRest done s).1 = done.reverse ++ body ∧ Stuck (stringRest done s).2) := by
  fun_induction stringRest done s with
  | case1 done => exact ⟨[], .nil, .inr ⟨(List.append_nil _).symm, .atEnd⟩⟩
  | case2 done rest => exact ⟨[], .nil, .inr ⟨(List.append_nil _).symm, .beforeNewline rest⟩⟩
  | case3 done c rest hc ih =>
    obtain ⟨body, hb, h⟩ := ih
    refine ⟨'\\' :: c :: body, .pair hc hb, ?_⟩
    simpa using h
  | case4 done rest => exact ⟨[], .nil, .inl (by simp)⟩
  | case5 done rest hrest =>
    -- Only the end of the text is left as what may follow this backslash.
    cases rest with
    | nil => exact ⟨[], .nil, .inr ⟨(List.append_nil _).symm, .backslash⟩⟩
    | cons c rest => exact absurd rfl (hrest c rest rfl)
  | case6 done c rest _ hq hb ih =>
    obtain ⟨body, hbody, h⟩ := ih
    refine ⟨c :: body, .plain hb hq hbody, ?_⟩
    simpa using h

theorem stringRest_stuck {body rest : List Char} (hb : IsBody body) (hr : Stuck rest)
    (done : List Char) : stringRest done (body ++ rest) = (done.reverse ++ body, rest) := by
  induction hb generalizing done with
  | nil =>
    rw [List.nil_append, List.append_nil]
    cases hr <;> rfl
  | pair hc _ ih => simp [stringRest_pair _ hc, ih]
  | plain hb hq _ ih => simp [stringRest_plain _ hb hq, ih]

theorem stands_lexeme {c : Char} (hsep : isSeparator c = false) (hsemi : c ≠ ';')
    (rest : List Char) : Stands (lexeme c rest).2 (lexeme c rest).1 := by
  unfold lexeme
  split
  · exact .splice
  · next hsplice =>
    split
    · next hc => exact .single (isSingle_iff.mp hc) fun ht hat => hsplice ⟨ht, hat⟩
    · next hc =>
      have hs : isSingle c = false := Bool.eq_false_iff.mpr hc
      split
      · next hq =>
        subst hq
        obtain ⟨body, hb, h | ⟨h, hr⟩⟩ := stringRest_forms ['\x22'] rest
        · rw [h]
          exact .literal hb
        · rw [h]
          exact .unclosed hb hr
      · next hq =>
        have hrun := isRun_of_not hsep hsemi hs hq
        refine .run ?_ ?_ ?_
        · rw [← isSingle_iff_of_isRun hrun]
          exact hc
        · intro d hd
          obtain rfl | hd := List.mem_cons.mp hd
          · exact isRun_iff.mp hrun
          · exact isRun_iff.mp (List.mem_takeWhile_imp hd)
        · intro d hd hin
          have hnot := List.head?_dropWhile_not isRun rest
          rw [Option.mem_def.mp hd] at hnot
          exact absurd (isRun_iff.mpr hin) (Bool.eq_false_iff.mp hnot)

theorem exists_endOfLine (rest : List Char) :
    ∃ body s, rest = body ++ s ∧ (∀ c ∈ body, c ≠ '\n') ∧ ∀ c ∈ s.head?, c = '\n' := by
  refine ⟨rest.takeWhile (· ≠ '\n'), rest.dropWhile (· ≠ '\n'),
    List.takeWhile_append_dropWhile.symm, fun c hc => ?_, fun c hc => ?_⟩
  · simpa using List.mem_takeWhile_imp hc
  · have hnot := List.head?_dropWhile_not (· ≠ '\n') rest
    rw [Option.mem_def.mp hc] at hnot
    simpa using hnot

theorem scan_comment {body s : List Char} (hb : ∀ c ∈ body, c ≠ '\n')
    (hs : ∀ c ∈ s.head?, c = '\n') : scan [] (';' :: (body ++ s)) = scan [] s := by
  have hdrop : (body ++ s).dropWhile (· ≠ '\n') = s := by
    rw [List.dropWhile_append_of_pos fun c hc => decide_eq_true (hb c hc)]
    cases s with
    | nil => rfl
    | cons c s =>
      obtain rfl := hs c rfl
      rfl
  rw [scan_cons, if_neg (by decide), if_pos rfl, hdrop]

theorem layout_scan (s : List Char) : Layout s (scan [] s) := by
  induction hn : s.length using Nat.strongRecOn generalizing s with
  | ind n ih =>
    cases s with
    | nil =>
      rw [scan_nil]
      exact .last .nil
    | cons c rest =>
      rw [List.length_cons] at hn
      by_cases hsep : isSeparator c = true
      · rw [scan_separator hsep]
        exact layout_separator hsep (ih rest.length (by omega) rest rfl)
      · rw [Bool.not_eq_true] at hsep
        by_cases hsemi : c = ';'
        · subst hsemi
          obtain ⟨body, s, rfl, hb, hs⟩ := exists_endOfLine rest
          rw [List.length_append] at hn
          rw [scan_comment hb hs]
          exact layout_comment hb hs (ih s.length (by omega) s rfl)
        · have hle := lexeme_length_le c rest
          rw [scan_lexeme hsep hsemi, ← lexeme_append c rest]
          exact .token .nil (stands_lexeme hsep hsemi rest) (ih _ (by omega) _ rfl)

theorem scan_gap {rest gap : List Char} (h : Gap rest gap) :
    scan [] (gap ++ rest) = scan [] rest := by
  induction h with
  | nil => rfl
  | separator hc _ ih => rw [List.cons_append, scan_separator (isSeparator_iff.mpr hc), ih]
  | comment hb hr _ ih => rw [List.cons_append, List.append_assoc, scan_comment hb hr, ih]

theorem scan_stands {t rest : List Char} (h : Stands rest t) :
    scan [] (t ++ rest) = t :: scan [] rest := by
  cases h with
  | splice =>
    rw [List.cons_append, scan_lexeme (by decide) (by decide), List.singleton_append, lexeme_splice]
  | single hc hr => exact scan_single (isSingle_iff.mpr hc) hr
  | literal hb =>
    rw [List.cons_append, List.append_assoc, List.singleton_append,
      scan_lexeme (by decide) (by decide), lexeme_literal hb]
  | @unclosed body hb hr =>
    have hlexeme : lexeme '\x22' (body ++ rest) = ('\x22' :: body, rest) := by
      rw [lexeme, if_neg (by simp), if_neg (by decide), if_pos rfl, stringRest_stuck hb hr]
      rfl
    rw [List.cons_append, scan_lexeme (by decide) (by decide), hlexeme]
  | @run c cs hc hrun hr =>
    obtain ⟨hcrun, hcs⟩ := List.forall_mem_cons.mp hrun
    have hcrun : isRun c = true := isRun_iff.mpr hcrun
    have hs : isSingle c = false := by
      rwa [← Bool.not_eq_true, isSingle_iff_of_isRun hcrun]
    have hbreaks : Breaks rest := fun d hd => by
      rw [← Bool.not_eq_true, isRun_iff]
      exact hr d hd
    obtain ⟨hsep, hsemi⟩ := starts_of_isRun hcrun
    rw [List.cons_append, scan_lexeme hsep hsemi,
      lexeme_run hs hcrun (fun d hd => isRun_iff.mpr (hcs d hd)) hbreaks]

theorem scan_layout {s : List Char} {ts : List (List Char)} (h : Layout s ts) :
    scan [] s = ts := by
  induction h with
  | @last gap hg =>
    have hscan := scan_gap hg
    rwa [List.append_nil, scan_nil] at hscan
  | token hg ht _ ih => rw [scan_gap hg, scan_stands ht, ih]

/-- The tokens of a text and the gaps around them make up the text, and there is no other
way to take it apart. -/
theorem tokenize_eq_iff_layout (text : String) (tokens : List String) :
    tokenize text = tokens ↔ Layout text.toList (tokens.map String.toList) := by
  have hlists : (tokenize text).map String.toList = scan [] text.toList := by
    simp [tokenize, List.map_map]
  constructor
  · rintro rfl
    rw [hlists]
    exact layout_scan text.toList
  · intro h
    rw [tokenize, scan_layout h]
    simp [List.map_map]

end SmallLisp.Token
