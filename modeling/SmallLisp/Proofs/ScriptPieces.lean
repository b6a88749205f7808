import SmallLisp.Proofs.FormRuns

namespace SmallLisp

namespace Session

variable {limit : Nat} {s : Session}

/-- Submits texts one after the other, whether they fail or not. -/
def submitEach (limit : Nat) : List String → Session → List Reply × Session
  | [], s => ([], s)
  | text :: texts, s =>
    let (reply, t) := s.submit limit text
    let (replies, u) := submitEach limit texts t
    (reply :: replies, u)

/-- The result of the last text that has a form, and `nil` if none has. -/
def lastResult (limit : Nat) (entries : List (String × Reply)) : Except Fault Value :=
  match (entries.filter fun entry => !(Program.forms limit entry.1).isEmpty).getLast? with
  | some entry => entry.2.result
  | none => .ok .nil

end Session

namespace Program

variable {limit : Nat}

/-- Texts that can be read one by one, and have no string literal that is not closed. -/
structure Pieces (limit : Nat) (texts : List String) : Prop where
  read : ∀ text ∈ texts, ∃ form, Program.read limit text = .ok form
  closed : ∀ text ∈ texts, ∀ t ∈ Token.tokenize text, Token.IsClosed t.toList

theorem pieces_tail {text : String} {texts : List String} (h : Pieces limit (text :: texts)) :
    Pieces limit texts :=
  ⟨(List.forall_mem_cons.mp h.read).2, (List.forall_mem_cons.mp h.closed).2⟩

theorem read_pieces {texts : List String} (h : Pieces limit texts) (hne : texts ≠ []) :
    (∃ form, Program.read limit ("\n".intercalate texts) = .ok form) ∧
      Program.forms limit ("\n".intercalate texts) = texts.flatMap (forms limit) := by
  induction texts with
  | nil => exact absurd rfl hne
  | cons a texts ih =>
    have ha := h.read a (.head _)
    cases texts with
    | nil =>
      rw [String.intercalate_singleton, List.flatMap_singleton]
      exact ⟨ha, rfl⟩
    | cons b texts =>
      obtain ⟨hb, hforms⟩ := ih (pieces_tail h) (List.cons_ne_nil _ _)
      have hread := read_newline (h.closed a (.head _)) (read_eq_forms ha) (read_eq_forms hb)
      rw [String.intercalate_cons_cons, List.flatMap_cons, ← hforms]
      exact ⟨⟨_, hread⟩, forms_of_read hread⟩

end Program

namespace Session

variable {limit : Nat} {s : Session}

theorem submitEach_cons (text : String) (texts : List String) :
    s.submitEach limit (text :: texts) =
      ((s.submit limit text).1 :: ((s.submit limit text).2.submitEach limit texts).1,
        ((s.submit limit text).2.submitEach limit texts).2) := rfl

theorem length_submitEach (texts : List String) :
    (s.submitEach limit texts).1.length = texts.length := by
  induction texts generalizing s with
  | nil => rfl
  | cons text texts ih => exact congrArg Nat.succ ih

theorem lastResult_cons (text : String) (reply : Reply) {texts : List String}
    {replies : List Reply} (h : texts.length ≤ replies.length) :
    lastResult limit ((text, reply) :: texts.zip replies) =
      if texts.flatMap (Program.forms limit) = [] then
        if Program.forms limit text = [] then .ok .nil else reply.result
      else lastResult limit (texts.zip replies) := by
  have htexts : (texts.zip replies).map (·.1) = texts := List.map_fst_zip h
  rw [lastResult, lastResult, List.filter_cons]
  by_cases hnone : texts.flatMap (Program.forms limit) = []
  · have hrest : (texts.zip replies).filter (fun e => !(Program.forms limit e.1).isEmpty) = [] := by
      rw [List.filter_eq_nil_iff]
      intro e he
      have hmem : e.1 ∈ texts := htexts ▸ List.mem_map_of_mem he
      simp [List.flatMap_eq_nil_iff.mp hnone e.1 hmem]
    rw [if_pos hnone, hrest]
    by_cases htext : Program.forms limit text = [] <;> simp [htext]
  · obtain ⟨later, hlater, hforms⟩ : ∃ later ∈ texts, Program.forms limit later ≠ [] := by
      simpa [List.flatMap_eq_nil_iff] using hnone
    rw [← htexts] at hlater
    obtain ⟨e, he, rfl⟩ := List.mem_map.mp hlater
    have hrest : (texts.zip replies).filter (fun e => !(Program.forms limit e.1).isEmpty) ≠ [] :=
      List.ne_nil_of_mem (List.mem_filter.mpr ⟨he, by simp [hforms]⟩)
    rw [if_neg hnone]
    split_ifs
    · rw [List.getLast?_cons_of_ne_nil hrest]
    · rfl

theorem lastResult_submitEach (text : String) (texts : List String) :
    lastResult limit ((text :: texts).zip (s.submitEach limit (text :: texts)).1) =
      if texts.flatMap (Program.forms limit) = [] then
        if Program.forms limit text = [] then .ok .nil else (s.submit limit text).1.result
      else lastResult limit (texts.zip ((s.submit limit text).2.submitEach limit texts).1) :=
  lastResult_cons text _ (Nat.le_of_eq (length_submitEach texts).symm)

theorem submit_pieces_of_ok {texts : List String} (h : Program.Pieces limit texts) (hne : texts ≠ [])
    (hok : ∀ reply ∈ (s.submitEach limit texts).1, ∃ v, reply.result = .ok v) :
    let joined := s.submit limit ("\n".intercalate texts)
    let pieces := s.submitEach limit texts
    joined.1.result = lastResult limit (texts.zip pieces.1) ∧ (∃ v, joined.1.result = .ok v) ∧
      joined.1.printed.toList = pieces.1.flatMap (·.printed.toList) ∧ joined.2 = pieces.2 := by
  induction texts generalizing s with
  | nil => exact absurd rfl hne
  | cons a texts ih =>
    intro joined pieces
    rw [submitEach_cons] at hok
    obtain ⟨⟨v, hv⟩, hrest⟩ := List.forall_mem_cons.mp hok
    have ha := h.read a (.head _)
    have hfirst : (if Program.forms limit a = [] then .ok .nil else (s.submit limit a).1.result) =
        .ok v := by
      split
      · next hnone => rw [← hv, submit_of_no_forms (ne_zero_of_submit ha hv) ha hnone]
      · exact hv
    have hlast : lastResult limit ((a :: texts).zip pieces.1) = _ := lastResult_submitEach a texts
    rw [hfirst] at hlast
    cases texts with
    | nil =>
      have hjoined : joined = s.submit limit a :=
        congrArg (s.submit limit) String.intercalate_singleton
      rw [hjoined, hlast]
      exact ⟨hv, ⟨v, hv⟩, (List.append_nil _).symm, rfl⟩
    | cons b texts =>
      have hpieces := Program.pieces_tail h
      obtain ⟨hresult, ⟨w, hw⟩, hprinted, hsession⟩ := ih hpieces (List.cons_ne_nil _ _) hrest
      obtain ⟨hb, hforms⟩ := Program.read_pieces hpieces (List.cons_ne_nil _ _)
      obtain ⟨hboth, hlines, hsame⟩ :=
        submit_newline_of_ok ha (h.closed a (.head _)) hb hv
      rw [hforms] at hboth
      have hjoined : joined = s.submit limit (a ++ "\n" ++ "\n".intercalate (b :: texts)) := by
        rw [← String.intercalate_cons_cons]
      rw [hjoined, hlast, hboth, hlines]
      refine ⟨by rw [hresult], ?_, ?_, (hsame w hw).trans hsession⟩
      · split
        · exact ⟨v, rfl⟩
        · exact ⟨w, hw⟩
      · rw [Array.toList_append, hprinted]
        rfl

theorem submit_pieces_of_error {before after : List String} {text : String} {fault : Fault}
    (h : Program.Pieces limit (before ++ text :: after))
    (hok : ∀ reply ∈ (s.submitEach limit before).1, ∃ v, reply.result = .ok v)
    (hfailed : ((s.submitEach limit before).2.submit limit text).1.result = .error fault) :
    let joined := s.submit limit ("\n".intercalate (before ++ text :: after))
    let earlier := s.submitEach limit before
    joined.1.result = .error fault ∧
      joined.1.printed.toList = earlier.1.flatMap (·.printed.toList) ++
        (earlier.2.submit limit text).1.printed.toList := by
  induction before generalizing s with
  | nil =>
    intro joined earlier
    have hjoined : joined = s.submit limit text := by
      cases after with
      | nil => exact congrArg (s.submit limit) String.intercalate_singleton
      | cons b after =>
        obtain ⟨hb, _⟩ := Program.read_pieces (Program.pieces_tail h) (List.cons_ne_nil _ _)
        have hsame :=
          submit_newline_of_error (h.read text (.head _)) (h.closed text (.head _)) hb hfailed
        rwa [← String.intercalate_cons_cons] at hsame
    rw [hjoined]
    exact ⟨hfailed, rfl⟩
  | cons a before ih =>
    intro joined earlier
    rw [submitEach_cons] at hok hfailed
    obtain ⟨⟨v, hv⟩, hrest⟩ := List.forall_mem_cons.mp hok
    have ha := h.read a (.head _)
    have hpieces : Program.Pieces limit (before ++ text :: after) := Program.pieces_tail h
    have hne : before ++ text :: after ≠ [] := by simp
    obtain ⟨hb, hforms⟩ := Program.read_pieces hpieces hne
    obtain ⟨hresult, hprinted⟩ := ih hpieces hrest hfailed
    obtain ⟨hboth, hlines, _⟩ :=
      submit_newline_of_ok ha (h.closed a (.head _)) hb hv
    have hsome : Program.forms limit ("\n".intercalate (before ++ text :: after)) ≠ [] := by
      intro hnone
      rw [submit_of_no_forms (ne_zero_of_submit ha hv) hb hnone] at hresult
      cases hresult
    have hjoined : joined = s.submit limit
        (a ++ "\n" ++ "\n".intercalate (before ++ text :: after)) := by
      obtain ⟨b, rest, hcons⟩ := List.exists_cons_of_ne_nil hne
      rw [hcons, ← String.intercalate_cons_cons, ← hcons]
      rfl
    rw [hjoined, hboth, hlines, if_neg hsome, Array.toList_append, hprinted]
    exact ⟨hresult, (List.append_assoc _ _ _).symm⟩

/-- Texts that can be read one by one do the same at once, with line feeds between them, as
one after the other; but a failure at once undoes the bindings of all of them, and one after
the other only those of the text that fails. -/
theorem script_at_once_as_piece_by_piece {texts : List String} (h : Program.Pieces limit texts)
    (hne : texts ≠ []) :
    let joined := s.submit limit ("\n".intercalate texts)
    let pieces := s.submitEach limit texts
    ((∀ reply ∈ pieces.1, ∃ v, reply.result = .ok v) →
      joined.1.result = lastResult limit (texts.zip pieces.1) ∧
        (∃ v, joined.1.result = .ok v) ∧
        joined.1.printed.toList = pieces.1.flatMap (·.printed.toList) ∧ joined.2 = pieces.2) ∧
    ∀ before text after fault, texts = before ++ text :: after →
      let earlier := s.submitEach limit before
      let failed := earlier.2.submit limit text
      (∀ reply ∈ earlier.1, ∃ v, reply.result = .ok v) → failed.1.result = .error fault →
        joined.1.result = .error fault ∧
          joined.1.printed.toList =
            earlier.1.flatMap (·.printed.toList) ++ failed.1.printed.toList ∧
          joined.2.bindings = s.bindings ∧ failed.2.bindings = earlier.2.bindings := by
  refine ⟨submit_pieces_of_ok h hne, ?_⟩
  rintro before text after fault rfl earlier failed hok hfailed
  obtain ⟨hresult, hprinted⟩ := submit_pieces_of_error h hok hfailed
  exact ⟨hresult, hprinted, bindings_of_failed_submit hresult, bindings_of_failed_submit hfailed⟩

theorem definition_comment_and_use :
    let texts := ["(def! x 1)", "; one", "x"]
    Program.Pieces 9 texts ∧ texts ≠ [] ∧
      (fresh.submit 9 ("\n".intercalate texts)).1.result = .ok (.int 1) := by
  intro texts
  have hdef : Token.tokenize "(def! x 1)" = ["(", "def!", "x", "1", ")"] := by decide +kernel
  have hcomment : Token.tokenize "; one" = [] := by decide +kernel
  have huse : Token.tokenize "x" = ["x"] := by decide +kernel
  have hfirst : Program.read 9 "(def! x 1)" = .ok (Program.sequence
      [.list [.sym ⟨"def!", by decide⟩, .sym ⟨"x", by decide⟩, .int 1]]) := by
    rw [Program.read, hdef]
    with_unfolding_all rfl
  have hsecond : Program.read 9 "; one" = .ok (Program.sequence []) := by
    rw [Program.read, hcomment]
    with_unfolding_all rfl
  have hthird : Program.read 9 "x" = .ok (Program.sequence [.sym ⟨"x", by decide⟩]) := by
    rw [Program.read, huse]
    with_unfolding_all rfl
  have hread : ∀ text ∈ texts, ∃ form, Program.read 9 text = .ok form := by
    simp only [texts, List.forall_mem_cons]
    exact ⟨⟨_, hfirst⟩, ⟨_, hsecond⟩, ⟨_, hthird⟩, List.forall_mem_nil _⟩
  have hclosed : ∀ text ∈ texts, ∀ t ∈ Token.tokenize text, Token.IsClosed t.toList := by
    -- No token starts with a double quote.
    have hplain : ∀ text ∈ texts, ∀ t ∈ Token.tokenize text, t.toList.head? ≠ some '\x22' := by
      simp only [texts, List.forall_mem_cons, hdef, hcomment, huse]
      decide
    exact fun text htext t ht hquote => absurd hquote (hplain text htext t ht)
  have hreplies : (fresh.submitEach 9 texts).1 =
      [⟨.ok (.int 1), #[]⟩, ⟨.ok .nil, #[]⟩, ⟨.ok (.int 1), #[]⟩] := by
    rw [submitEach_cons, submitEach_cons, submitEach_cons, submit_of_read hfirst,
      submit_of_read hsecond, submit_of_read hthird]
    with_unfolding_all rfl
  have hlast : lastResult 9 (texts.zip (fresh.submitEach 9 texts).1) = .ok (.int 1) := by
    simp [texts, hreplies, lastResult, Program.forms_of_read hfirst, Program.forms_of_read hsecond,
      Program.forms_of_read hthird]
  obtain ⟨hok, _⟩ := script_at_once_as_piece_by_piece (s := fresh) ⟨hread, hclosed⟩
    (List.cons_ne_nil _ _)
  obtain ⟨hresult, _⟩ := hok (by simp [hreplies])
  exact ⟨⟨hread, hclosed⟩, List.cons_ne_nil _ _, hresult.trans hlast⟩

end Session

end SmallLisp
