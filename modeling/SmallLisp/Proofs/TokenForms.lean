import Mathlib.Data.List.TakeWhile
import SmallLisp.Proofs.TokenShape

namespace SmallLisp.Token

/-- The inside of a closed string literal: pairs of a backslash and another character,
and characters other than backslashes and quotes. -/
inductive IsBody : List Char → Prop
  | nil : IsBody []
  | pair {c : Char} {rest : List Char} (hc : c ≠ '\n') (h : IsBody rest) : IsBody ('\\' :: c :: rest)
  | plain {c : Char} {rest : List Char} (hb : c ≠ '\\') (hq : c ≠ '\x22') (h : IsBody rest) :
      IsBody (c :: rest)

theorem isBody_append {body : List Char} (h : IsBody body) (rest : List Char) :
    IsBody (body ++ rest) ↔ IsBody rest := by
  induction h with
  | nil => exact Iff.rfl
  | @pair c body hc _ ih =>
    refine ⟨fun hb => ?_, fun hr => .pair hc (ih.mpr hr)⟩
    cases hb with
    | pair _ hb => exact ih.mp hb
    | plain hc _ _ => exact absurd rfl hc
  | @plain c body hb hq _ ih =>
    refine ⟨fun h => ?_, fun hr => .plain hb hq (ih.mpr hr)⟩
    rw [List.cons_append] at h
    generalize body ++ rest = more at h ih
    cases h with
    | pair => exact absurd rfl hb
    | plain _ _ h => exact ih.mp h

/-- The tokens of a text, apart from string literals that are not closed. -/
inductive IsToken : List Char → Prop
  | splice : IsToken ['~', '@']
  | single {c : Char} (h : isSingle c = true) : IsToken [c]
  | literal {body : List Char} (h : IsBody body) : IsToken ('\x22' :: (body ++ ['\x22']))
  | run {c : Char} {rest : List Char} (hs : isSingle c = false) (hc : isRun c = true)
      (h : ∀ d ∈ rest, isRun d = true) : IsToken (c :: rest)

/-- What comes next does not go on with a run. -/
def Breaks (rest : List Char) : Prop := ∀ c ∈ rest.head?, isRun c = false

theorem stringRest_quote (done rest : List Char) :
    stringRest done ('\x22' :: rest) = (('\x22' :: done).reverse, rest) := rfl

theorem stringRest_pair (done : List Char) {c : Char} (hc : c ≠ '\n') (rest : List Char) :
    stringRest done ('\\' :: c :: rest) = stringRest (c :: '\\' :: done) rest := if_neg hc

theorem stringRest_plain (done : List Char) {c : Char} (hb : c ≠ '\\') (hq : c ≠ '\x22')
    (rest : List Char) : stringRest done (c :: rest) = stringRest (c :: done) rest := by
  rw [stringRest.eq_def]
  split
  · next h => cases h
  · next h =>
    cases h
    exact absurd rfl hb
  · next h =>
    cases h
    rw [if_neg hq, if_neg hb]

theorem stringRest_body {body : List Char} (h : IsBody body) (done rest : List Char) :
    stringRest done (body ++ '\x22' :: rest) = (done.reverse ++ body ++ ['\x22'], rest) := by
  induction h generalizing done with
  | nil => simp [stringRest_quote]
  | pair hc _ ih => simp [stringRest_pair _ hc, ih]
  | plain hb hq _ ih => simp [stringRest_plain _ hb hq, ih]

theorem lexeme_splice (rest : List Char) : lexeme '~' ('@' :: rest) = (['~', '@'], rest) := by
  simp [lexeme]

theorem lexeme_single {c : Char} (h : isSingle c = true) {rest : List Char}
    (hr : c = '~' → rest.head? ≠ some '@') : lexeme c rest = ([c], rest) := by
  rw [lexeme, if_neg (fun hc => hr hc.1 hc.2), if_pos h]

theorem lexeme_literal {body : List Char} (h : IsBody body) (rest : List Char) :
    lexeme '\x22' (body ++ '\x22' :: rest) = ('\x22' :: (body ++ ['\x22']), rest) := by
  rw [lexeme, if_neg (by simp), if_neg (by decide), if_pos rfl, stringRest_body h]
  rfl

theorem lexeme_run {c : Char} {cs rest : List Char} (hs : isSingle c = false) (hc : isRun c = true)
    (h : ∀ d ∈ cs, isRun d = true) (hr : Breaks rest) :
    lexeme c (cs ++ rest) = (c :: cs, rest) := by
  have htilde : c ≠ '~' := by
    rintro rfl
    cases hs
  have hquote : c ≠ '\x22' := by
    rintro rfl
    cases hc
  have htake : (cs ++ rest).takeWhile isRun = cs := by
    rw [List.takeWhile_append_of_pos h]
    cases rest with
    | nil => exact List.append_nil cs
    | cons d rest => rw [List.takeWhile_cons, hr d rfl, if_neg Bool.false_ne_true, List.append_nil]
  have hdrop : (cs ++ rest).dropWhile isRun = rest := by
    rw [List.dropWhile_append_of_pos h]
    cases rest with
    | nil => rfl
    | cons d rest => rw [List.dropWhile_cons, hr d rfl, if_neg Bool.false_ne_true]
  rw [lexeme, if_neg (fun hc => htilde hc.1), if_neg (by simp [hs]), if_neg hquote, htake, hdrop]

theorem scan_nil (done : List (List Char)) : scan done [] = done.reverse := by
  rw [scan.eq_def]

theorem scan_cons (done : List (List Char)) (c : Char) (rest : List Char) :
    scan done (c :: rest) =
      if isSeparator c then scan done rest
      else if c = ';' then scan done (rest.dropWhile (· ≠ '\n'))
      else scan ((lexeme c rest).1 :: done) (lexeme c rest).2 := by
  rw [scan.eq_def]

theorem scan_eq_append (done : List (List Char)) (s : List Char) :
    scan done s = done.reverse ++ scan [] s := by
  induction hn : s.length using Nat.strongRecOn generalizing s done with
  | ind n ih =>
    cases s with
    | nil => simp [scan_nil]
    | cons c rest =>
      rw [List.length_cons] at hn
      rw [scan_cons, scan_cons []]
      split
      · exact ih rest.length (by omega) done rest rfl
      · split
        · have hle := length_dropWhile_le (· ≠ '\n') rest
          exact ih _ (by omega) done _ rfl
        · have hle := lexeme_length_le c rest
          rw [ih _ (by omega) (_ :: done) _ rfl, ih _ (by omega) [_] _ rfl, List.reverse_cons,
            List.append_assoc]
          rfl

theorem scan_separator {c : Char} (h : isSeparator c = true) (rest : List Char) :
    scan [] (c :: rest) = scan [] rest := by
  rw [scan_cons, if_pos h]

theorem scan_lexeme {c : Char} (hs : isSeparator c = false) (hc : c ≠ ';') (rest : List Char) :
    scan [] (c :: rest) = (lexeme c rest).1 :: scan [] (lexeme c rest).2 := by
  rw [scan_cons, if_neg (by simp [hs]), if_neg hc, scan_eq_append]
  rfl

theorem starts_of_isSingle {c : Char} (h : isSingle c = true) : isSeparator c = false ∧ c ≠ ';' := by
  simp only [isSingle, Bool.or_eq_true, beq_iff_eq, or_assoc] at h
  rcases h with rfl | rfl | rfl | rfl | rfl | rfl | rfl | rfl | rfl | rfl | rfl <;> decide

theorem starts_of_isRun {c : Char} (h : isRun c = true) : isSeparator c = false ∧ c ≠ ';' := by
  constructor
  · cases hs : isSeparator c with
    | false => rfl
    | true => simp [isRun, hs] at h
  · rintro rfl
    exact absurd h (by decide)

theorem scan_single {c : Char} (h : isSingle c = true) {rest : List Char}
    (hr : c = '~' → rest.head? ≠ some '@') : scan [] (c :: rest) = [c] :: scan [] rest := by
  obtain ⟨hs, hc⟩ := starts_of_isSingle h
  rw [scan_lexeme hs hc, lexeme_single h hr]

theorem head?_ne_of_breaks {rest : List Char} (h : Breaks rest) : rest.head? ≠ some '@' :=
  fun hat => absurd (h '@' hat) (by decide)

/-- A token is found as it is, unless what follows could be a part of it. -/
theorem scan_token {t rest : List Char} (h : IsToken t) (hr : Breaks rest) :
    scan [] (t ++ rest) = t :: scan [] rest := by
  cases h with
  | splice =>
    rw [List.cons_append, scan_lexeme (by decide) (by decide), List.singleton_append, lexeme_splice]
  | single hc => exact scan_single hc fun _ => head?_ne_of_breaks hr
  | literal hb =>
    rw [List.cons_append, List.append_assoc, List.singleton_append,
      scan_lexeme (by decide) (by decide), lexeme_literal hb]
  | run hs hc hrun =>
    obtain ⟨hsep, hsemi⟩ := starts_of_isRun hc
    rw [List.cons_append, scan_lexeme hsep hsemi, lexeme_run hs hc hrun hr]

theorem tokenize_of_isToken {t : String} (h : IsToken t.toList) : tokenize t = [t] := by
  have hscan := @scan_token t.toList [] h nofun
  rw [List.append_nil, scan_nil] at hscan
  simp [tokenize, hscan]

theorem stringRest_append (done s : List Char) :
    (stringRest done s).1 ++ (stringRest done s).2 = done.reverse ++ s := by
  fun_induction stringRest done s with
  | case3 done c rest _ ih => simpa using ih
  | case6 done c rest _ _ _ ih => simpa using ih
  | _ => simp

theorem lexeme_append (c : Char) (rest : List Char) :
    (lexeme c rest).1 ++ (lexeme c rest).2 = c :: rest := by
  unfold lexeme
  split
  · next h =>
    obtain ⟨d, rest, rfl⟩ := List.exists_cons_of_ne_nil (l := rest) (by rintro rfl; cases h.2)
    obtain ⟨rfl, hd⟩ := h
    obtain rfl := Option.some.inj hd
    rfl
  · split
    · rfl
    · split
      · exact stringRest_append [c] rest
      · rw [List.cons_append, List.takeWhile_append_dropWhile]

theorem length_le_of_mem_scan {done : List (List Char)} {s t : List Char} (h : t ∈ scan done s) :
    t ∈ done ∨ t.length ≤ s.length := by
  fun_induction scan done s with
  | case1 => exact .inl (List.mem_reverse.mp h)
  | case2 done c rest _ ih => exact (ih h).imp id fun hle => Nat.le_succ_of_le hle
  | case3 done rest _ ih =>
    refine (ih h).imp id fun hle => ?_
    exact Nat.le_succ_of_le (Nat.le_trans hle (length_dropWhile_le _ rest))
  | case4 done c rest _ _ ih =>
    have happend := congrArg List.length (lexeme_append c rest)
    rw [List.length_append] at happend
    obtain hmem | hle := ih h
    · obtain rfl | hmem := List.mem_cons.mp hmem
      · exact .inr (by omega)
      · exact .inl hmem
    · exact .inr (by omega)

theorem isRun_of_not {c : Char} (hsep : isSeparator c = false) (hsemi : c ≠ ';')
    (hs : isSingle c = false) (hq : c ≠ '\x22') : isRun c = true := by
  simp only [isSingle, Bool.or_eq_false_iff] at hs
  simp only [isRun, hsep, hs, beq_false_of_ne hq, beq_false_of_ne hsemi, Bool.or_self, Bool.not_false]

theorem isToken_of_lexeme {c : Char} {rest : List Char} (hsep : isSeparator c = false)
    (hsemi : c ≠ ';') (hq : c ≠ '\x22') (h : (lexeme c rest).1 = c :: rest) :
    IsToken (c :: rest) := by
  unfold lexeme at h
  split at h
  · rw [← h]
    exact .splice
  · split at h
    · next hc =>
      rw [← h]
      exact .single hc
    · next hc =>
      have hs : isSingle c = false := Bool.eq_false_iff.mpr hc
      have htake : rest.takeWhile isRun = rest := (List.cons.inj h).2
      exact .run hs (isRun_of_not hsep hsemi hs hq) (List.takeWhile_eq_self_iff.mp htake)

theorem isToken_of_scan {t : List Char} (h : scan [] t = [t]) (hq : t.head? ≠ some '\x22') :
    IsToken t := by
  cases t with
  | nil =>
    rw [scan_nil] at h
    cases h
  | cons c rest =>
    have hmem : c :: rest ∈ scan [] (c :: rest) := by
      rw [h]
      exact .head _
    -- What is left once a character is passed over is too short to hold the whole text.
    have hshort : ∀ s : List Char, s.length ≤ rest.length → c :: rest ∉ scan [] s := by
      intro s hs hin
      obtain hnil | hle := length_le_of_mem_scan hin
      · cases hnil
      · rw [List.length_cons] at hle
        omega
    have hsep : isSeparator c = false := by
      by_contra hc
      rw [Bool.not_eq_false] at hc
      rw [scan_separator hc] at hmem
      exact hshort rest (Nat.le_refl _) hmem
    have hsemi : c ≠ ';' := by
      intro hc
      rw [scan_cons, if_neg (by simp [hsep]), if_pos hc] at hmem
      exact hshort _ (length_dropWhile_le _ rest) hmem
    rw [scan_lexeme hsep hsemi] at h
    exact isToken_of_lexeme hsep hsemi (fun hc => hq (congrArg some hc)) (List.cons.inj h).1

end SmallLisp.Token
