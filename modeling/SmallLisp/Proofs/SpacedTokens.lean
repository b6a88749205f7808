import SmallLisp.Program
import SmallLisp.Proofs.TextLayout

namespace SmallLisp

namespace Token

/-- White space, commas and comments. Each comment ends with its line. -/
inductive IsGap : List Char → Prop
  | nil : IsGap []
  | separator {c : Char} {gap : List Char} (hc : Text.isBlank c = true ∨ c = ',') (h : IsGap gap) :
      IsGap (c :: gap)
  | comment {body gap : List Char} (hb : ∀ c ∈ body, c ≠ '\n') (h : IsGap gap) :
      IsGap (';' :: (body ++ '\n' :: gap))

/-- At the end of a text there can be one more comment, without the end of its line. -/
inductive IsLastGap : List Char → Prop
  | gap {gap : List Char} (h : IsGap gap) : IsLastGap gap
  | comment {gap body : List Char} (h : IsGap gap) (hb : ∀ c ∈ body, c ≠ '\n') :
      IsLastGap (gap ++ ';' :: body)

/-- Tokens with gaps around them: the gap before all tokens, and each token with the gap
after it. -/
structure Spacing where
  first : List Char
  pieces : List (List Char × List Char)

namespace Spacing

def text (s : Spacing) : List Char := s.first ++ s.pieces.flatMap fun p => p.1 ++ p.2

def tokens (s : Spacing) : List (List Char) := s.pieces.map (·.1)

def gaps (s : Spacing) : List (List Char) := s.first :: s.pieces.map (·.2)

structure Allowed (s : Spacing) : Prop where
  token : ∀ t ∈ s.tokens, IsToken t
  gap : ∀ g ∈ s.gaps.dropLast, IsGap g
  last : ∀ g ∈ s.gaps.getLast?, IsLastGap g
  between : ∀ g ∈ s.gaps.tail.dropLast, g ≠ []

end Spacing

variable {first gap t rest : List Char} {pieces : List (List Char × List Char)}

theorem isGap_append (h : IsGap gap) {s : List Char} (hs : Gap rest s) : Gap rest (gap ++ s) := by
  induction h with
  | nil => exact hs
  | separator hc _ ih => exact .separator hc ih
  | comment hb _ ih =>
    rw [List.cons_append, List.append_assoc]
    refine .comment hb ?_ (.separator (.inl (by decide)) ih)
    intro c hc
    exact (Option.some.inj hc).symm

theorem gap_of_isGap (h : IsGap gap) (rest : List Char) : Gap rest gap := by
  have hgap := isGap_append h (Gap.nil : Gap rest [])
  rwa [List.append_nil] at hgap

theorem gap_of_isLastGap (h : IsLastGap gap) : Gap [] gap := by
  cases h with
  | gap h => exact gap_of_isGap h []
  | @comment gap body h hb =>
    have hcomment : Gap [] (';' :: (body ++ [])) := .comment hb nofun .nil
    rw [List.append_nil] at hcomment
    exact isGap_append h hcomment

theorem breaks_of_gap (h : Gap rest gap) (hne : gap ≠ []) (more : List Char) :
    Breaks (gap ++ more) := by
  intro c hc
  cases h with
  | nil => exact absurd rfl hne
  | separator hsep _ =>
    obtain rfl := Option.some.inj hc
    simp [isRun, isSeparator_iff.mpr hsep]
  | comment _ _ _ =>
    obtain rfl := Option.some.inj hc
    decide

namespace Spacing

theorem text_cons : text ⟨first, (t, gap) :: pieces⟩ = first ++ (t ++ text ⟨gap, pieces⟩) := by
  simp [text]

theorem Allowed.tail (h : Allowed ⟨first, (t, gap) :: pieces⟩) : Allowed ⟨gap, pieces⟩ where
  token := (List.forall_mem_cons.mp h.token).2
  gap := (List.forall_mem_cons.mp h.gap).2
  last := by
    have hlast := h.last
    simp only [gaps, List.map_cons, List.getLast?_cons_cons] at hlast
    exact hlast
  between := by
    intro g hg
    refine h.between g ?_
    cases pieces with
    | nil => cases hg
    | cons p pieces => exact .tail _ hg

theorem Allowed.breaks (h : Allowed ⟨first, (t, gap) :: pieces⟩) : Breaks (text ⟨gap, pieces⟩) := by
  by_cases hgap : gap = []
  · subst hgap
    cases pieces with
    | nil => exact nofun
    | cons p pieces => exact absurd rfl (h.between [] (.head _))
  · cases pieces with
    | nil => exact breaks_of_gap (gap_of_isLastGap (h.tail.last gap rfl)) hgap _
    | cons p pieces => exact breaks_of_gap (gap_of_isGap (h.tail.gap gap (.head _)) []) hgap _

theorem scan_text (h : Allowed ⟨first, pieces⟩) :
    scan [] (text ⟨first, pieces⟩) = tokens ⟨first, pieces⟩ := by
  induction pieces generalizing first with
  | nil =>
    have hscan := scan_gap (gap_of_isLastGap (h.last first rfl))
    rw [List.append_nil, scan_nil] at hscan
    simpa [text, tokens] using hscan
  | cons p pieces ih =>
    obtain ⟨t, gap⟩ := p
    have hfirst : Gap (t ++ text ⟨gap, pieces⟩) first := gap_of_isGap (h.gap first (.head _)) _
    have ht : IsToken t := h.token t (.head _)
    rw [text_cons, scan_gap hfirst, scan_token ht h.breaks, ih h.tail]
    rfl

/-- Where tokens stand, on which lines, and what is said in comments between them makes no
difference: the text has these tokens, and reads as every other text that has them. -/
theorem layout_does_not_matter {s s' : Spacing} (h : s.Allowed) (h' : s'.Allowed)
    (htokens : s.tokens = s'.tokens) :
    tokenize (String.ofList s.text) = s.tokens.map String.ofList ∧
      ∀ limit, Program.read limit (String.ofList s.text) =
        Program.read limit (String.ofList s'.text) := by
  have hlists {s : Spacing} (h : s.Allowed) :
      tokenize (String.ofList s.text) = s.tokens.map String.ofList := by
    rw [tokenize, String.toList_ofList, scan_text h]
  refine ⟨hlists h, fun limit => ?_⟩
  rw [Program.read, Program.read, hlists h, hlists h', htokens]

theorem splice_over_several_lines :
    let literal : List Char := ['\x22', ';', '\x22']
    let line : Spacing := ⟨[], [(['~'], [' ']), (['@'], [',']), (['~', '@'], [' ']), (literal, [])]⟩
    let lines : Spacing := ⟨[' '], [(['~'], [';', '(', '\x22', '\n']), (['@'], ['\n']),
      (['~', '@'], [',', ' ']), (literal, [';', ')'])]⟩
    tokenize (String.ofList lines.text) = ["~", "@", "~@", "\x22;\x22"] ∧
      Program.read 1 (String.ofList lines.text) = Program.read 1 (String.ofList line.text) := by
  intro literal line lines
  have hliteral : IsToken literal := .literal (.plain (by decide) (by decide) .nil)
  have htokens : ∀ t ∈ lines.tokens, IsToken t := by
    simp only [tokens, lines, List.map_cons, List.map_nil, List.forall_mem_cons]
    exact ⟨.single rfl, .single rfl, .splice, hliteral, List.forall_mem_nil _⟩
  have hspace : IsGap [' '] := .separator (.inl (by decide)) .nil
  have hline : line.Allowed := by
    refine ⟨htokens, ?_, ?_, ?_⟩
    · simp only [gaps, line, List.map_cons, List.map_nil, List.dropLast_cons_cons,
        List.dropLast_singleton, List.forall_mem_cons]
      exact ⟨.nil, hspace, .separator (.inr rfl) .nil, hspace, List.forall_mem_nil _⟩
    · intro g hg
      obtain rfl : [] = g := Option.some.inj hg
      exact .gap .nil
    · simp [gaps, line]
  have hlines : lines.Allowed := by
    refine ⟨htokens, ?_, ?_, ?_⟩
    · simp only [gaps, lines, List.map_cons, List.map_nil, List.dropLast_cons_cons,
        List.dropLast_singleton, List.forall_mem_cons]
      have hcomment : IsGap (';' :: (['(', '\x22'] ++ '\n' :: [])) := .comment (by simp) .nil
      exact ⟨hspace, hcomment, .separator (.inl (by decide)) .nil, .separator (.inr rfl) hspace,
        List.forall_mem_nil _⟩
    · intro g hg
      obtain rfl : [';', ')'] = g := Option.some.inj hg
      have hcomment : IsLastGap ([] ++ ';' :: [')']) := .comment .nil (by simp)
      exact hcomment
    · simp [gaps, lines]
  obtain ⟨hscan, hread⟩ := layout_does_not_matter hlines hline rfl
  exact ⟨hscan, hread 1⟩

end Spacing

end Token

end SmallLisp
