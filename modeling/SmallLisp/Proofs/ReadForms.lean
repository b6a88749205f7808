import SmallLisp.Proofs.Bracketing
import SmallLisp.Proofs.LexicalScope

namespace SmallLisp

open Nesting

theorem Program.brackets_of_read {limit : Nat} {text : String} {form : Value}
    (h : Program.read limit text = .ok form) :
    ∃ forms, form = sequence forms ∧ fault? limit 0 (Token.tokenize text) = none ∧
      Brackets (Token.tokenize text) forms := by
  cases hscan : fault? limit 0 (Token.tokenize text) with
  | some e => cases (read_of_fault hscan).symm.trans h
  | none =>
    obtain ⟨forms, hforms⟩ := exists_brackets (Token.tokenize_ne_empty text) hscan
    have hread := read_of_brackets hscan hforms
    exact ⟨forms, Except.ok.inj (h.symm.trans hread), rfl, hforms⟩

theorem Program.read_of_token {token : String} {v : Value} (htoken : Token.tokenize token = [token])
    (hopen : token ≠ "(") (hclose : token ≠ ")") (hv : Atom.read token = .ok v) (limit : Nat) :
    Program.read limit token = .ok (sequence [v]) := by
  refine read_of_brackets ?_ ?_
  · rw [htoken, fault?_atom hopen hclose (Atom.read_eq_ok_iff.mp hv).1]
    rfl
  · rw [htoken]
    exact .atom hopen hclose hv .nil

/-- The forms of a text are evaluated one after the other, one level below the whole. -/
theorem eval_sequence (limit : Nat) (forms : List Value) (scope : ScopeId) :
    eval limit 0 (Program.sequence forms) scope =
      if limit = 0 then throw (.tooDeep limit) else Eval.sequence (eval limit 1) scope forms := by
  rw [eval_eq]
  by_cases h : limit = 0
  · rw [if_pos (by omega), if_pos h]
  · rw [if_neg (by omega), if_neg h, Program.sequence, Eval.step,
      Eval.application_special _ (show _ = some SpecialForm.sequence from rfl) rfl]
    rfl

end SmallLisp
