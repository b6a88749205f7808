import SmallLisp.Program
import SmallLisp.Proofs.TokenShape

namespace SmallLisp

namespace Atom

theorem exists_resolve {token : String} (h : token ≠ "") : ∃ v, resolve token = .ok v := by
  unfold resolve Symbol.ofName?
  rw [dif_neg h]
  split
  · exact ⟨_, rfl⟩
  · split
    · exact ⟨_, rfl⟩
    · split <;> exact ⟨_, rfl⟩

theorem exists_read {token : String} (h : token ≠ "") (hs : overlong? token.toList = none) :
    ∃ v, read token = .ok v := by
  rw [read_of_short hs]
  exact exists_resolve h

theorem overlong?_of_error {token : String} (h : token ≠ "") {e : ReadError}
    (he : read token = .error e) :
    ∃ count, overlong? token.toList = some count ∧ e = .tooManyDigits count := by
  cases hlong : overlong? token.toList with
  | some count =>
    rw [read_of_overlong hlong] at he
    exact ⟨count, rfl, (Except.error.inj he).symm⟩
  | none =>
    obtain ⟨v, hv⟩ := exists_read h hlong
    cases hv.symm.trans he

end Atom

namespace Cursor

theorem readItems_rest_suffix (limit : Nat) (rest : List String) (position depth : Nat)
    (items : List Value) (outer : List (List Value)) :
    (readItems limit rest position depth items outer).2.rest <:+ rest := by
  fun_induction readItems limit rest position depth items outer with
  | case1 => exact List.suffix_refl _
  | case3 _ _ _ _ _ _ ih => exact ih.trans (List.suffix_cons _ _)
  | case5 _ _ _ _ _ _ _ ih => exact ih.trans (List.suffix_cons _ _)
  | case6 _ _ _ _ _ _ _ _ _ _ ih => exact ih.trans (List.suffix_cons _ _)
  | _ => exact List.suffix_cons _ _

theorem readForm_rest_suffix (limit : Nat) (c : Cursor) :
    (c.readForm limit).2.rest <:+ c.rest := by
  obtain ⟨_ | ⟨token, rest⟩, position, depth⟩ := c
  · exact List.suffix_refl _
  · simp only [readForm]
    split
    · simp only [readList]
      split
      · exact List.suffix_cons _ _
      · exact (readItems_rest_suffix limit rest _ _ [] []).trans (List.suffix_cons _ _)
    · split
      · exact List.suffix_refl _
      · exact List.suffix_cons _ _

end Cursor

end SmallLisp
