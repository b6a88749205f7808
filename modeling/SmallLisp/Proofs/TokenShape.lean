import SmallLisp.Token

namespace SmallLisp.Token

theorem stringRest_ne_nil (done s : List Char) (h : done ≠ []) : (stringRest done s).1 ≠ [] := by
  fun_induction stringRest done s with
  | case3 done c rest _ ih => exact ih (List.cons_ne_nil _ _)
  | case6 done c rest _ _ _ ih => exact ih (List.cons_ne_nil _ _)
  | _ => simp [h]

theorem lexeme_ne_nil (c : Char) (rest : List Char) : (lexeme c rest).1 ≠ [] := by
  unfold lexeme
  split
  · exact List.cons_ne_nil _ _
  · split
    · exact List.cons_ne_nil _ _
    · split
      · exact stringRest_ne_nil _ _ (List.cons_ne_nil _ _)
      · exact List.cons_ne_nil _ _

theorem scan_ne_nil (done : List (List Char)) (s : List Char) (h : ∀ t ∈ done, t ≠ []) :
    ∀ t ∈ scan done s, t ≠ [] := by
  fun_induction scan done s with
  | case1 => exact fun t ht => h t (List.mem_reverse.mp ht)
  | case2 done c rest _ ih => exact ih h
  | case3 done rest _ ih => exact ih h
  | case4 done c rest _ _ ih =>
    exact ih (List.forall_mem_cons.mpr ⟨lexeme_ne_nil c rest, h⟩)

theorem length_scan_le (done : List (List Char)) (s : List Char) :
    (scan done s).length ≤ done.length + s.length := by
  fun_induction scan done s with
  | case1 => simp
  | case2 done c rest _ ih =>
    rw [List.length_cons]
    omega
  | case3 done rest _ ih =>
    have hle := length_dropWhile_le (· ≠ '\n') rest
    rw [List.length_cons]
    omega
  | case4 done c rest _ _ ih =>
    have hle := lexeme_length_le c rest
    rw [List.length_cons] at ih ⊢
    omega

theorem tokenize_ne_empty (text : String) : ∀ t ∈ tokenize text, t ≠ "" := by
  intro t ht
  obtain ⟨cs, hcs, rfl⟩ := List.mem_map.mp ht
  have hne := scan_ne_nil [] text.toList nofun cs hcs
  intro he
  exact hne (by simpa using congrArg String.toList he)

theorem length_tokenize_le (text : String) : (tokenize text).length ≤ text.length := by
  have hle := length_scan_le [] text.toList
  rw [tokenize, List.length_map, ← String.length_toList]
  simpa using hle

end SmallLisp.Token
