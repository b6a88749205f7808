import SmallLisp.Proofs.SessionSteps
import SmallLisp.Proofs.SourceEval

namespace SmallLisp

open Nesting

/-- The texts of the literals that are no string literals, with their values. -/
inductive Atom.Literal : String → Value → Prop
  | true : Literal "true" (.bool true)
  | false : Literal "false" (.bool false)
  | nil : Literal "nil" .nil
  | int {token : String} {n : Int} (h : word? token.toList = some n) : Literal token (.int n)

namespace Atom

theorem isDigit_of_natural? {digits : List Char} {n : Nat} (h : natural? digits = some n) :
    digits ≠ [] ∧ ∀ c ∈ digits, c.isDigit = true := by
  unfold natural? at h
  split at h
  · next hd =>
    simp only [Bool.and_eq_true, Bool.not_eq_true', List.isEmpty_eq_false_iff, List.all_eq_true] at hd
    exact hd
  · cases h

theorem isToken_of_integer? {token : List Char} {n : Int} (h : integer? token = some n) :
    Token.IsToken token := by
  unfold integer? at h
  split at h
  · next digits =>
    obtain ⟨m, hm, _⟩ := Option.map_eq_some_iff.mp h
    obtain ⟨_, hdigits⟩ := isDigit_of_natural? hm
    exact .run (by decide) (by decide) fun d hd => (isRun_of_isDigit (hdigits d hd)).2
  · obtain ⟨m, hm, _⟩ := Option.map_eq_some_iff.mp h
    obtain ⟨hne, hdigits⟩ := isDigit_of_natural? hm
    exact isToken_of_isDigit hne hdigits

theorem resolve_literal {token : String} {v : Value} (h : Literal token v) :
    resolve token = .ok v := by
  cases h with
  | int h => rw [resolve, h]
  | _ => rfl

theorem tokenize_literal {token : String} {v : Value} (h : Literal token v) :
    Token.tokenize token = [token] := by
  cases h with
  | int h =>
    exact Token.tokenize_of_isToken (isToken_of_integer? (Option.filter_eq_some_iff.mp h).1)
  | _ => decide +kernel

theorem literal_ne_parenthesis {token : String} {v : Value} (h : Literal token v) :
    token ≠ "(" ∧ token ≠ ")" := by
  refine ne_parenthesis_of_resolve (resolve_literal h) ?_
  rintro s rfl
  cases h

theorem not_literal_of_fromText {s : Symbol} (h : s.FromText) (v : Value) :
    ¬ Literal s.name v := by
  intro hl
  obtain rfl := Except.ok.inj ((read_eq_ok_iff.mp h.read).2.symm.trans (resolve_literal hl))
  generalize s.name = token at hl
  cases hl

end Atom

theorem Program.read_literal {token : String} {v : Value} (h : Atom.Literal token v)
    (hshort : Atom.overlong? token.toList = none) (limit : Nat) :
    Program.read limit token = .ok (sequence [v]) := by
  obtain ⟨hopen, hclose⟩ := Atom.literal_ne_parenthesis h
  have hread := Atom.read_eq_ok_iff.mpr ⟨hshort, Atom.resolve_literal h⟩
  exact read_of_token (Atom.tokenize_literal h) hopen hclose hread limit

theorem Program.read_overlong_literal {token : String} {v : Value} (h : Atom.Literal token v)
    {count : Nat} (hlong : Atom.overlong? token.toList = some count) (limit : Nat) :
    Program.read limit token = .error (.tooManyDigits count) := by
  obtain ⟨hopen, hclose⟩ := Atom.literal_ne_parenthesis h
  refine read_of_fault ?_
  rw [Atom.tokenize_literal h]
  exact fault?_overlong hopen hclose hlong

theorem Operator.fromText_symbol (op : Operator) : op.symbol.FromText := by
  rcases op with _ | _ | _ | _ | _ | c
  case order => cases c <;> exact ⟨by decide +kernel, rfl⟩
  all_goals exact ⟨by decide +kernel, rfl⟩

theorem eval_yields (limit : Nat) {forms : List Value} (h : ∀ v ∈ forms, v.FromText)
    (scope : ScopeId) : (eval limit 0 (Program.sequence forms) scope).Yields Value.FromText := by
  rw [eval_sequence]
  split
  · exact Run.yields_throw _
  · -- The whole sequence can be longer than the lists inside it.
    exact Eval.sequence_yields (fun v scope => evalLevels_sourced limit _ v scope) scope h

namespace Session

variable {limit : Nat} {s : Session}

theorem fromText_fresh : fresh.store.FromText := by
  intro i f hf p hp
  obtain ⟨op, rfl⟩ := (frame_fresh hf).2 p hp
  exact ⟨Operator.fromText_symbol op, .operator op⟩

structure Replies (reply : Reply) (s : Session) : Prop where
  result : ∀ v, reply.result = .ok v → v.FromText
  shown : ∀ v ∈ reply.shown, v.FromText
  store : s.store.FromText

theorem submit_replies (limit : Nat) (hs : s.store.FromText) {text : String}
    (htext : text.length < 2 ^ 31) :
    Replies (s.submit limit text).1 (s.submit limit text).2 := by
  cases hread : Program.read limit text with
  | error e =>
    rw [submit_of_unread hread]
    exact ⟨nofun, nofun, hs⟩
  | ok form =>
    obtain ⟨forms, rfl, hforms⟩ := Program.fromText_of_read htext hread
    obtain ⟨hm, hv⟩ := eval_yields limit hforms root ⟨s.store, #[]⟩ ⟨hs, nofun⟩
    rw [submit_of_read hread]
    rcases hx : (eval limit 0 (Program.sequence forms) root).run ⟨s.store, #[]⟩ with ⟨e | v, m⟩
    · rw [hx] at hm
      rw [evaluate_of_error hx]
      exact ⟨nofun, hm.shown,
        Store.binds_restore hm.store root fun _ => Store.forall_bindings hs root⟩
    · rw [hx] at hm hv
      rw [evaluate_of_ok hx]
      exact ⟨fun w hw => Except.ok.inj hw ▸ hv v rfl, hm.shown, hm.store⟩

theorem submit_literal (hlimit : 2 ≤ limit) {token : String} {v : Value}
    (h : Atom.Literal token v) (hshort : Atom.Convertible token.toList) (s : Session) :
    s.submit limit token = (⟨.ok v, #[]⟩, s) := by
  have heval : (eval limit 0 (Program.sequence [v]) root).run ⟨s.store, #[]⟩ =
      (.ok v, ⟨s.store, #[]⟩) := by
    rw [eval_sequence, if_neg (by omega), Eval.sequence, eval_eq, if_neg (by omega)]
    cases h <;> rfl
  have hshort := Atom.overlong?_eq_none_iff_convertible.mpr hshort
  rw [submit_of_read (Program.read_literal h hshort limit), evaluate_of_ok heval]

theorem submit_overlong_literal (limit : Nat) {token : String} {v : Value}
    (h : Atom.Literal token v) (hlong : ¬ Atom.Convertible token.toList) (s : Session) :
    ∃ count, s.submit limit token = (⟨.error (.reading (.tooManyDigits count)), #[]⟩, s) := by
  obtain ⟨count, hcount⟩ := Atom.exists_overlong? hlong
  exact ⟨count, submit_of_unread (Program.read_overlong_literal h hcount limit)⟩

def IsText (_ : Session) (step : Step) : Prop :=
  ∃ text, step = .submit text ∧ text.length < 2 ^ 31

theorem fromText_of_reached (h : Reached IsText s) : s.store.FromText := by
  refine holds_of_reached (P := fun s => s.store.FromText) fromText_fresh ?_ h
  rintro s limit _ hs ⟨text, rfl, htext⟩
  exact (submit_replies limit hs htext).store

/-- In a session that is given nothing but texts, all values that are bound, returned or
printed are made of what texts can write. Nothing binds the name of a literal, and so the
literals keep their values. An integer of more digits than are converted has none. -/
theorem texts_keep_values_in_range (h : Reached IsText s) :
    s.store.FromText ∧
      (∀ limit text, text.length < 2 ^ 31 →
        Replies (s.submit limit text).1 (s.submit limit text).2) ∧
      (∀ (i : ScopeId) (f : Frame), s.store.frames[i]? = some f →
        ∀ p ∈ f.bindings, ∀ v, ¬ Atom.Literal p.1.name v) ∧
      ∀ limit token v, 2 ≤ limit → Atom.Literal token v →
        (Atom.Convertible token.toList → s.submit limit token = (⟨.ok v, #[]⟩, s)) ∧
        (¬ Atom.Convertible token.toList →
          ∃ count, s.submit limit token = (⟨.error (.reading (.tooManyDigits count)), #[]⟩, s)) := by
  have hs := fromText_of_reached h
  refine ⟨hs, fun limit _ => submit_replies limit hs, fun i f hf p hp v => ?_, ?_⟩
  · exact Atom.not_literal_of_fromText (hs i f hf p hp).1 v
  · intro limit token v hlimit hl
    exact ⟨fun h => submit_literal hlimit hl h s, fun h => submit_overlong_literal limit hl h s⟩

theorem literal_after_definition :
    let s := (fresh.take 9 (.submit "(def! x 1)")).2
    Reached IsText s ∧ s.store.FromText ∧ s.submit 9 "true" = (⟨.ok (.bool true), #[]⟩, s) := by
  intro s
  have hs : Reached IsText s := .step .fresh 9 ⟨"(def! x 1)", rfl, by decide⟩
  obtain ⟨hstore, _, _, hliterals⟩ := texts_keep_values_in_range hs
  have hshort : Atom.Convertible "true".toList :=
    Atom.overlong?_eq_none_iff_convertible.mp (by decide)
  exact ⟨hs, hstore, (hliterals 9 "true" _ (by decide) .true).1 hshort⟩

end Session

end SmallLisp
