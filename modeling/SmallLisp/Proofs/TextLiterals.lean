import SmallLisp.Proofs.JoinedText
import SmallLisp.Proofs.SourceValues

namespace SmallLisp

namespace Token

/-- A string literal that is not closed, though its last character is a quote: a backslash
has taken that quote with it. -/
def EndsEscaped (t : List Char) : Prop := ∃ body, IsBody body ∧ t = '\x22' :: (body ++ ['\\', '\x22'])

/-- A backslash that no other one has taken with it stands before a line feed. -/
def EscapesNewline (s : List Char) : Prop := ∃ body rest, IsBody body ∧ s = body ++ '\\' :: '\n' :: rest

variable {body s t : List Char}

theorem isBody_escaped_quote : IsBody ['\\', '\x22'] := .pair (by decide) .nil

theorem not_isBody_backslash (h : IsBody body) : ¬ IsBody (body ++ ['\\']) := by
  rw [isBody_append h]
  intro hb
  cases hb with
  | plain hb _ _ => exact hb rfl

theorem exists_escaped_quote (h : IsBody body) (hl : body.getLast? = some '\x22') :
    ∃ before, IsBody before ∧ body = before ++ ['\\', '\x22'] := by
  induction h with
  | nil => cases hl
  | @pair c rest hc _ ih =>
    cases rest with
    | nil =>
      obtain rfl : c = '\x22' := by simpa using hl
      exact ⟨[], .nil, rfl⟩
    | cons d rest =>
      obtain ⟨before, hb, he⟩ := ih (by simpa using hl)
      exact ⟨'\\' :: c :: before, .pair hc hb, by rw [he]; rfl⟩
  | @plain c rest hb hq _ ih =>
    cases rest with
    | nil => exact absurd (by simpa using hl) hq
    | cons d rest =>
      obtain ⟨before, hbefore, he⟩ := ih (by simpa using hl)
      exact ⟨c :: before, .plain hb hq hbefore, by rw [he]; rfl⟩

theorem not_isClosed_of_endsEscaped (h : EndsEscaped t) : ¬ IsClosed t := by
  obtain ⟨body, hb, rfl⟩ := h
  intro hc
  obtain ⟨inside, hinside, he⟩ := hc rfl
  have hquote : body ++ ['\\'] ++ ['\x22'] = inside ++ ['\x22'] := by
    rw [List.append_assoc]
    exact (List.cons.inj he).2
  exact not_isBody_backslash hb (List.append_cancel_right hquote ▸ hinside)

theorem infix_of_escapesNewline (h : EscapesNewline s) : ['\\', '\n'] <:+: s := by
  obtain ⟨body, rest, _, rfl⟩ := h
  exact ⟨body, rest, by simp⟩

/-- A token that starts as a string literal is one that is closed, or a quote before what
could be the inside of a literal. -/
theorem literal_of_stands (h : Stands [] t) (hq : t.head? = some '\x22') :
    IsClosed t ∨ ∃ body, IsBody body ∧ t = '\x22' :: body := by
  cases h with
  | splice => cases hq
  | single hc _ =>
    obtain rfl := Option.some.inj hq
    exact absurd hc (by decide)
  | literal hb => exact .inl fun _ => ⟨_, hb, rfl⟩
  | unclosed hb _ => exact .inr ⟨_, hb, rfl⟩
  | run _ hrun _ =>
    obtain rfl := Option.some.inj hq
    exact absurd (hrun _ (.head _)) (fun hin => hin.2 (by decide))

/-- A text without quotes is the inside of a literal up to its end, up to a last backslash,
or up to a backslash before a line feed. -/
theorem body_or_stuck (hq : '\x22' ∉ s) :
    IsBody s ∨ (∃ body, IsBody body ∧ s = body ++ ['\\']) ∨ EscapesNewline s := by
  have hs := stringRest_append [] s
  obtain ⟨body, hb, h | ⟨h, hstuck⟩⟩ := stringRest_forms [] s
  · rw [h] at hs
    exact absurd (by rw [← List.nil_append s, ← List.reverse_nil, ← hs]; simp) hq
  · rw [h, List.reverse_nil, List.nil_append, List.nil_append] at hs
    generalize (stringRest [] s).2 = rest at hs hstuck
    cases hstuck with
    | atEnd => exact .inl (by rwa [← hs, List.append_nil])
    | backslash => exact .inr (.inl ⟨body, hb, hs.symm⟩)
    | beforeNewline more => exact .inr (.inr ⟨body, more, hb, hs.symm⟩)

end Token

namespace Atom

open Token

theorem read_of_unclosed {token : String} (hq : token.toList.head? = some '\x22')
    (hb : stringBody? token.toList = none) : ∃ s : Symbol, s.name = token ∧ read token = .ok (.sym s) := by
  have hne : token ≠ "" := by
    rintro rfl
    cases hq
  obtain ⟨cs, hcs⟩ : ∃ cs, token.toList = '\x22' :: cs := List.head?_eq_some_iff.mp hq
  have hword : word? token.toList = none := by
    rw [hcs]
    exact word?_of_quote cs
  refine ⟨⟨token, hne⟩, rfl, ?_⟩
  have hshort : overlong? token.toList = none := by
    rw [hcs]
    exact overlong?_of_quote cs
  rw [read_of_short hshort, resolve, hword, literal?_of_quote hq, hb]
  simp only [Symbol.ofName?, dif_neg hne]

theorem stringBody?_of_unclosed {body : List Char} (h : body.getLast? ≠ some '\x22') :
    stringBody? ('\x22' :: body) = none := by
  refine if_neg fun ⟨hlength, _, hlast⟩ => ?_
  cases body with
  | nil => exact absurd hlength (by decide)
  | cons c cs => exact h (by simpa using hlast)

theorem read_of_quotes {token : String} {body : List Char}
    (h : token.toList = '\x22' :: (body ++ ['\x22'])) : read token = .ok (.str (String.ofList body)) := by
  have htoken : token = (Value.str (String.ofList body)).display := by
    rw [← String.toList_inj, toList_display_str, String.toList_ofList, h]
  rw [htoken]
  exact read_display_str _

/-- Of the tokens of a text that start as string literals, those that end in a quote are read
as texts, of what stands between the first character and the last. These are the closed
literals, and those whose last quote is escaped. All others are read as symbols. -/
theorem text_iff_closed_or_ends_escaped {text token : String} (ht : token ∈ tokenize text)
    (hq : token.toList.head? = some '\x22') :
    ((∃ s, read token = .ok (.str s)) ↔ IsClosed token.toList ∨ EndsEscaped token.toList) ∧
      (∀ body, IsBody body → token.toList = '\x22' :: (body ++ ['\x22']) →
        read token = .ok (.str (String.ofList body))) ∧
      (∀ body, IsBody body → token.toList = '\x22' :: (body ++ ['\\', '\x22']) →
        ¬ IsClosed token.toList ∧ read token = .ok (.str (String.ofList (body ++ ['\\'])))) ∧
      (¬ IsClosed token.toList → ¬ EndsEscaped token.toList →
        ∃ s : Symbol, s.name = token ∧ read token = .ok (.sym s)) := by
  have hclosed (body : List Char) (h : token.toList = '\x22' :: (body ++ ['\x22'])) :=
    read_of_quotes h
  have hescaped (body : List Char) (h : token.toList = '\x22' :: (body ++ ['\\', '\x22'])) :
      read token = .ok (.str (String.ofList (body ++ ['\\']))) :=
    read_of_quotes (by rw [h]; simp)
  have hsymbol (hc : ¬ IsClosed token.toList) (he : ¬ EndsEscaped token.toList) :
      ∃ s : Symbol, s.name = token ∧ read token = .ok (.sym s) := by
    obtain ⟨cs, hcs, rfl⟩ := List.mem_map.mp ht
    have hstands := stands_of_layout (layout_scan text.toList) cs hcs
    rw [String.toList_ofList] at hc he hq
    obtain h | ⟨body, hb, rfl⟩ := literal_of_stands hstands hq
    · exact absurd h hc
    · have hlast : body.getLast? ≠ some '\x22' := by
        intro hl
        obtain ⟨before, hbefore, rfl⟩ := exists_escaped_quote hb hl
        exact he ⟨before, hbefore, rfl⟩
      refine read_of_unclosed (by simp) ?_
      rw [String.toList_ofList]
      exact stringBody?_of_unclosed hlast
  refine ⟨⟨?_, ?_⟩, fun body _ => hclosed body, fun body hb h => ?_, hsymbol⟩
  · rintro ⟨s, hs⟩
    by_contra hn
    rw [not_or] at hn
    obtain ⟨k, _, hk⟩ := hsymbol hn.1 hn.2
    cases hs.symm.trans hk
  · rintro (hc | ⟨body, _, h⟩)
    · obtain ⟨body, _, h⟩ := hc hq
      exact ⟨_, hclosed body h⟩
    · exact ⟨_, hescaped body h⟩
  · exact ⟨not_isClosed_of_endsEscaped ⟨body, hb, h⟩, hescaped body h⟩

theorem literal_with_escapes_is_text :
    let token := "\x22a\\\x22\\\\\x22"
    token ∈ tokenize "(f \x22a\\\x22\\\\\x22)" ∧ read token = .ok (.str "a\\\x22\\\\") := by
  intro token
  have ht : token ∈ tokenize "(f \x22a\\\x22\\\\\x22)" := by decide +kernel
  have hb : IsBody ['a', '\\', '\x22', '\\', '\\'] :=
    .plain (by decide) (by decide) (.pair (by decide) (.pair (by decide) .nil))
  exact ⟨ht, (text_iff_closed_or_ends_escaped ht (by decide)).2.1 _ hb (by decide)⟩

theorem escaped_quote_is_taken_for_the_closing_one :
    let token := "\x22\\\x22"
    token ∈ tokenize token ∧ token.toList.head? = some '\x22' ∧ ¬ IsClosed token.toList ∧
      read token = .ok (.str "\\") := by
  intro token
  have htoken : token.toList = '\x22' :: ([] ++ ['\\', '\x22']) := by decide
  have hquotes : token.toList = '\x22' :: (['\\'] ++ ['\x22']) := htoken
  refine ⟨by decide +kernel, by decide, ?_, read_of_quotes hquotes⟩
  exact not_isClosed_of_endsEscaped ⟨[], .nil, htoken⟩

end Atom

namespace Program

open Token

variable {limit : Nat} {text : String}

theorem read_display_str_of_stands (h : Stands [] (Value.str text).display.toList) :
    read limit (Value.str text).display = .ok (sequence [.str text]) := by
  have hread := Atom.read_display_str text
  obtain ⟨hopen, hclose⟩ := Atom.ne_parenthesis_of_resolve (Atom.read_eq_ok_iff.mp hread).2 nofun
  exact read_of_token (tokenize_of_stands h) hopen hclose hread limit

theorem read_of_brackets_text {token : String} {rest : List String} {forms : List Value}
    (h : Nesting.Brackets (token :: rest) (.str text :: forms)) : Atom.read token = .ok (.str text) := by
  cases h with
  | atom _ _ hv _ => exact hv

theorem read_display_str_ne (hq : '\x22' ∉ text.toList) (h : EscapesNewline text.toList) :
    read limit (Value.str text).display ≠ .ok (sequence [.str text]) := by
  obtain ⟨body, rest, hb, htext⟩ := h
  have hbody : '\x22' ∉ body := fun hin => hq (htext ▸ List.mem_append_left _ hin)
  intro hread
  obtain ⟨forms, hforms, _, hbrackets⟩ := brackets_of_read hread
  obtain rfl : [Value.str text] = forms := by simpa [sequence] using hforms
  have htokens : tokenize (Value.str text).display = String.ofList ('\x22' :: body) ::
      (scan [] ('\\' :: '\n' :: (rest ++ ['\x22']))).map String.ofList := by
    have hscan := scan_stands (.unclosed hb (.beforeNewline (rest ++ ['\x22'])))
    rw [tokenize, Atom.toList_display_str, htext, List.append_assoc, ← List.cons_append]
    exact congrArg _ hscan
  rw [htokens] at hbrackets
  have hlast : body.getLast? ≠ some '\x22' := fun hl => hbody (List.mem_of_getLast? hl)
  have hhead : (String.ofList ('\x22' :: body)).toList.head? = some '\x22' := by simp
  obtain ⟨s, _, hs⟩ := Atom.read_of_unclosed hhead
    (by rw [String.toList_ofList]; exact Atom.stringBody?_of_unclosed hlast)
  cases hs.symm.trans (read_of_brackets_text hbrackets)

/-- A text without quotes is read back from what is printed for it, unless it has a line feed
after a backslash that no other backslash has taken with it. -/
theorem quote_free_text_is_read_back_iff (hq : '\x22' ∉ text.toList) :
    read limit (Value.str text).display = .ok (sequence [.str text]) ↔
      ¬ EscapesNewline text.toList := by
  refine ⟨fun hread h => read_display_str_ne hq h hread, fun h => ?_⟩
  refine read_display_str_of_stands ?_
  rw [Atom.toList_display_str]
  obtain hb | ⟨body, hb, htext⟩ | hn := body_or_stuck hq
  · exact .literal hb
  · -- The backslash takes the closing quote, and the literal goes on to the end of the text.
    rw [htext, List.append_assoc]
    exact .unclosed ((isBody_append hb _).mpr isBody_escaped_quote) .atEnd
  · exact absurd hn h

theorem text_with_last_backslash_is_read_back :
    read 1 (Value.str "(a;\n,\\\\\\").display = .ok (sequence [.str "(a;\n,\\\\\\"]) := by
  have hquote : '\x22' ∉ "(a;\n,\\\\\\".toList := by decide
  have hplain : ¬ ['\\', '\n'] <:+: "(a;\n,\\\\\\".toList := by decide +kernel
  exact (quote_free_text_is_read_back_iff hquote).mpr (mt infix_of_escapesNewline hplain)

theorem escaped_newline_is_not_read_back :
    let text := "\\\n"
    '\x22' ∉ text.toList ∧ ∀ limit, read limit (Value.str text).display =
      .ok (sequence [.sym ⟨"\x22", by decide⟩, .sym ⟨"\\", by decide⟩, .sym ⟨"\x22", by decide⟩]) := by
  intro text
  have htokens : tokenize (Value.str text).display = ["\x22", "\\", "\x22"] := by decide +kernel
  refine ⟨by decide, fun limit => read_of_brackets ?_ ?_⟩
  · rw [htokens]
    rfl
  · rw [htokens]
    exact .atom (by decide) (by decide) rfl (.atom (by decide) (by decide) rfl
      (.atom (by decide) (by decide) rfl .nil))

end Program

end SmallLisp
