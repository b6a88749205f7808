import SmallLisp.Proofs.Bracketing
import SmallLisp.Proofs.EvalCongruence
import SmallLisp.Proofs.Lockstep
import SmallLisp.Session

namespace SmallLisp

def EvalError.withLimit (limit : Nat) : EvalError → EvalError
  | tooDeep _ => .tooDeep limit
  | e => e

theorem EvalError.withLimit_eq_self {e : EvalError} (h : ∀ limit, e ≠ .tooDeep limit) (limit : Nat) :
    e.withLimit limit = e := by
  cases e with
  | tooDeep other => exact absurd rfl (h other)
  | _ => rfl

namespace Run

variable {α β : Type}

def Relabels (limit : Nat) (x y : Run α) : Prop :=
  ∀ m, y.run m = ((x.run m).1.mapError (·.withLimit limit), (x.run m).2)

/-- What was printed stays, and what the computation prints comes after it. -/
def Appends (x : Run α) : Prop := ∀ m, m.printed.toList <+: (x.run m).2.printed.toList

def CutShort (limit : Nat) (r s : Except EvalError α × Machine) : Prop :=
  r.1 = .error (.tooDeep limit) ∧ r.2.printed.toList <+: s.2.printed.toList

/-- The first computation does what the second does, if it is not cut off at the limit. -/
def CutsOff (limit : Nat) (x y : Run α) : Prop :=
  y.Appends ∧ ∀ m, x.run m = y.run m ∨ CutShort limit (x.run m) (y.run m)

theorem relabels_congruence (limit : Nat) : Congruence fun _ => Relabels limit where
  pure _ _ := rfl
  throw h m := by
    exact congrArg (fun e => (Except.error e, m)) (EvalError.withLimit_eq_self h limit).symm
  bind := by
    intro α β x y f g hx hf m
    rw [run_bind, run_bind, hx m]
    rcases x.run m with ⟨e | a, n⟩
    · rfl
    · exact hf a n
  find? _ _ _ := rfl
  put _ _ _ _ := rfl
  create _ _ := rfl
  print _ _ := rfl

theorem appends_bind {x : Run α} {f : α → Run β} (hx : x.Appends) (hf : ∀ a, (f a).Appends) :
    (x >>= f).Appends := by
  intro m
  have hm := hx m
  rw [run_bind]
  rcases hxm : x.run m with ⟨e | a, n⟩
  · rwa [hxm] at hm
  · rw [hxm] at hm
    exact hm.trans (hf a n)

theorem appends_congruence : Congruence fun _ _ y => y.Appends where
  pure _ _ := List.prefix_refl _
  throw _ _ := List.prefix_refl _
  bind := appends_bind
  find? _ _ _ := List.prefix_refl _
  put _ _ _ _ := List.prefix_refl _
  create _ _ := List.prefix_refl _
  print v m := by
    change _ <+: (m.print v).printed.toList
    rw [Machine.printed_print, Array.toList_push]
    exact List.prefix_append _ _

theorem cutsOff_bind {limit : Nat} {x y : Run α} {f g : α → Run β} (hx : CutsOff limit x y)
    (hf : ∀ a, CutsOff limit (f a) (g a)) : CutsOff limit (x >>= f) (y >>= g) := by
  refine ⟨appends_bind hx.1 fun a => (hf a).1, fun m => ?_⟩
  rw [run_bind, run_bind]
  obtain hm | ⟨he, hp⟩ := hx.2 m
  · rw [hm]
    rcases y.run m with ⟨e | a, n⟩
    · exact .inl rfl
    · exact (hf a).2 n
  · -- The first computation ends here, and whatever the second goes on to print comes later.
    right
    rcases hxm : x.run m with ⟨r, n⟩
    rcases hym : y.run m with ⟨e | a, n'⟩
    all_goals
      rw [hxm] at he hp
      rw [hym] at hp
      obtain rfl : r = .error (.tooDeep limit) := he
    · exact ⟨rfl, hp⟩
    · exact ⟨rfl, hp.trans ((hf a).1 n')⟩

theorem cutsOff_congruence (limit : Nat) : Congruence fun _ => CutsOff limit where
  pure a := ⟨appends_congruence.pure a, fun _ => .inl rfl⟩
  throw h := ⟨appends_congruence.throw h, fun _ => .inl rfl⟩
  bind := cutsOff_bind
  find? key scope := ⟨appends_congruence.find? key scope, fun _ => .inl rfl⟩
  put key value scope := ⟨appends_congruence.put key value scope, fun _ => .inl rfl⟩
  create outer := ⟨appends_congruence.create outer, fun _ => .inl rfl⟩
  print v := ⟨appends_congruence.print v, fun _ => .inl rfl⟩

end Run

variable {limit limit' : Nat} (form : Value) (scope : ScopeId) (m : Machine)

theorem eval_eq (limit : Nat) (depth : Int) :
    eval limit depth form scope =
      if limit < depth + 1 then throw (.tooDeep limit)
      else Eval.step (eval limit (depth + 1)) form scope := by
  unfold eval
  split
  · next h =>
    have hlevels : (limit - depth).toNat = 0 := by omega
    rw [hlevels, evalLevels]
  · next h =>
    have hlevels : (limit - depth).toNat = (limit - (depth + 1)).toNat + 1 := by omega
    rw [hlevels, evalLevels]

theorem eval_relabels {depth depth' : Int} (h : (limit : Int) - depth = limit' - depth') :
    Run.Relabels limit' (eval limit depth form scope) (eval limit' depth' form scope) := by
  have hlevels := evalLevels_related (Run.relabels_congruence limit') limit limit' 0
    (fun _ _ _ => rfl) (limit - depth).toNat form scope
  rw [Nat.zero_add] at hlevels
  unfold eval
  rwa [← h]

theorem evalLevels_appends (levels : Nat) : (evalLevels limit levels form scope).Appends := by
  have h := evalLevels_related Run.appends_congruence limit limit 0
    (fun _ _ _ => List.prefix_refl _) levels form scope
  rwa [Nat.zero_add] at h

theorem eval_cutsOff (depth : Int) (h : limit ≤ limit') :
    Run.CutsOff limit (eval limit depth form scope) (eval limit' depth form scope) := by
  have hlevels := evalLevels_related (Run.cutsOff_congruence limit) limit limit'
    ((limit' - depth).toNat - (limit - depth).toNat)
    (fun form scope => ⟨evalLevels_appends form scope _, fun m =>
      .inr ⟨rfl, evalLevels_appends form scope _ m⟩⟩) (limit - depth).toNat form scope
  rwa [Nat.sub_add_cancel (by omega)] at hlevels

namespace Nesting

theorem fault?_limit (h : limit ≤ limit') (opened : Nat) (tokens : List String) :
    fault? limit opened tokens = some (.tooDeep limit) ∨
      fault? limit' opened tokens = fault? limit opened tokens := by
  fun_induction fault? limit opened tokens with
  | case1 => exact .inr rfl
  | case2 opened ho => exact .inr (if_neg ho)
  | case3 => exact .inl rfl
  | case4 opened rest hle ih => exact ih.imp id fun h' => by rw [fault?_open (by omega), h']
  | case5 => exact .inr rfl
  | case6 opened rest ho _ ih =>
    obtain ⟨opened, rfl⟩ := Nat.exists_eq_succ_of_ne_zero ho
    exact ih.imp id fun h' => by rw [fault?_close]; exact h'
  | case7 opened token rest hopen hclose count hlong =>
    exact .inr (fault?_overlong hopen hclose hlong)
  | case8 opened token rest hopen hclose hshort ih =>
    exact ih.imp id fun h' => by rw [fault?_atom hopen hclose hshort, h']

end Nesting

theorem Program.read_limit (h : limit ≤ limit') (text : String) :
    Program.read limit text = .error (.tooDeep limit) ∨
      Program.read limit' text = Program.read limit text := by
  obtain hscan | hscan := Nesting.fault?_limit h 0 (Token.tokenize text)
  · exact .inl (read_of_fault hscan)
  · right
    cases hfault : Nesting.fault? limit 0 (Token.tokenize text) with
    | some e => rw [read_of_fault hfault, read_of_fault (hscan.trans hfault)]
    | none =>
      obtain ⟨forms, hforms⟩ := Nesting.exists_brackets (Token.tokenize_ne_empty text) hfault
      rw [read_of_brackets hfault hforms, read_of_brackets (hscan.trans hfault) hforms]

def Reply.CutOff (limit : Nat) (r : Reply) : Prop :=
  r.result = .error (.reading (.tooDeep limit)) ∨ r.result = .error (.evaluation (.tooDeep limit))

namespace Session

theorem evaluate_cutsOff (s : Session) (h : limit ≤ limit') :
    s.evaluate limit form = s.evaluate limit' form ∨
      (s.evaluate limit form).1.CutOff limit ∧
        (s.evaluate limit form).1.printed.toList <+: (s.evaluate limit' form).1.printed.toList := by
  unfold evaluate
  obtain hm | ⟨he, hp⟩ := (eval_cutsOff form root 0 h).2 ⟨s.store, #[]⟩
  · exact .inl (by rw [hm])
  · right
    rcases hx : (eval limit 0 form root).run ⟨s.store, #[]⟩ with ⟨x, n⟩
    rcases hy : (eval limit' 0 form root).run ⟨s.store, #[]⟩ with ⟨e | v, n'⟩
    all_goals
      rw [hx] at he hp
      rw [hy] at hp
      obtain rfl : x = .error (.tooDeep limit) := he
      exact ⟨.inr rfl, hp⟩

theorem submit_cutsOff (s : Session) (text : String) (h : limit ≤ limit') :
    s.submit limit text = s.submit limit' text ∨
      (s.submit limit text).1.CutOff limit ∧
        (s.submit limit text).1.printed.toList <+: (s.submit limit' text).1.printed.toList := by
  unfold submit
  obtain hread | hread := Program.read_limit h text
  · rw [hread]
    refine .inr ⟨.inl rfl, ?_⟩
    rw [Reply.printed_empty]
    exact List.nil_prefix
  · rw [hread]
    cases Program.read limit text with
    | ok form => exact evaluate_cutsOff form s h
    | error e => exact .inl rfl

end Session

/-- Only the difference between limit and depth counts, and a lower limit does nothing but
cut off: what is not cut off is the same under every higher limit, and what is cut off has
printed the beginning of what a higher limit lets it print. -/
theorem depth_guard_only_cuts_off :
    (∀ (limit limit' : Nat) (depth depth' : Int) form scope,
      (limit : Int) - depth = limit' - depth' →
        Run.Relabels limit' (eval limit depth form scope) (eval limit' depth' form scope)) ∧
    (∀ (limit limit' : Nat) depth form scope m, limit < limit' →
      ((eval limit depth form scope).run m).1 ≠ .error (.tooDeep limit) →
        (eval limit' depth form scope).run m = (eval limit depth form scope).run m) ∧
    (∀ (limit limit' : Nat) depth form scope m, limit < limit' →
      (eval limit depth form scope).run m = (eval limit' depth form scope).run m ∨
        Run.CutShort limit ((eval limit depth form scope).run m)
          ((eval limit' depth form scope).run m)) ∧
    (∀ (limit limit' : Nat) text (s : Session), limit < limit' →
      ¬ (s.submit limit text).1.CutOff limit → s.submit limit' text = s.submit limit text) ∧
    ∀ (limit limit' : Nat) text (s : Session), limit < limit' →
      s.submit limit text = s.submit limit' text ∨
        (s.submit limit text).1.CutOff limit ∧
          (s.submit limit text).1.printed.toList <+: (s.submit limit' text).1.printed.toList := by
  refine ⟨fun _ _ _ _ form scope h => eval_relabels form scope h, ?_, ?_, ?_, ?_⟩
  · intro limit limit' depth form scope m h hne
    obtain heq | ⟨he, _⟩ := (eval_cutsOff form scope depth (Nat.le_of_lt h)).2 m
    · exact heq.symm
    · exact absurd he hne
  · exact fun _ _ depth form scope m h => (eval_cutsOff form scope depth (Nat.le_of_lt h)).2 m
  · intro limit limit' text s h hne
    obtain heq | ⟨hcut, _⟩ := s.submit_cutsOff text (Nat.le_of_lt h)
    · exact heq.symm
    · exact absurd hcut hne
  · exact fun _ _ text s h => s.submit_cutsOff text (Nat.le_of_lt h)

theorem depth_guard_on_print :
    let form : Value := .list [.sym ⟨"do", by decide⟩, .list [.sym ⟨"prn", by decide⟩, .int 1], .list []]
    let m : Machine := ⟨⟨#[⟨[], none⟩]⟩, #[]⟩
    Run.Relabels 7 (eval 9 2 form 0) (eval 7 0 form 0) ∧
      (eval 4 0 form 0).run m = (eval 3 0 form 0).run m ∧
      ((eval 2 0 form 0).run m = (eval 3 0 form 0).run m ∨
        Run.CutShort 2 ((eval 2 0 form 0).run m) ((eval 3 0 form 0).run m)) ∧
      Session.fresh.submit 3 "1" = Session.fresh.submit 2 "1" ∧
      (Session.fresh.submit 1 "1" = Session.fresh.submit 2 "1" ∨
        (Session.fresh.submit 1 "1").1.CutOff 1 ∧
          (Session.fresh.submit 1 "1").1.printed.toList <+:
            (Session.fresh.submit 2 "1").1.printed.toList) := by
  intro form m
  obtain ⟨hdepth, hsame, hcut, hsubmit, hsubmitCut⟩ := depth_guard_only_cuts_off
  have hform : ((eval 3 0 form 0).run m).1 = .ok (.int 0) := rfl
  have htokens : Token.tokenize "1" = ["1"] := by decide +kernel
  have hread : Program.read 2 "1" = .ok (Program.sequence [.int 1]) := by
    refine Program.read_of_brackets ?_ ?_
    · rw [htokens]
      rfl
    · rw [htokens]
      exact .atom (by decide) (by decide) rfl .nil
  have hinput : (Session.fresh.submit 2 "1").1.result = .ok (.int 1) := by
    rw [Session.submit, hread]
    rfl
  refine ⟨hdepth _ _ _ _ _ _ (by decide), hsame _ _ _ _ _ _ (by decide) ?_,
    hcut _ _ _ _ _ _ (by decide), hsubmit _ _ _ _ (by decide) ?_, hsubmitCut _ _ _ _ (by decide)⟩
  · rw [hform]
    exact nofun
  · rw [Reply.CutOff, hinput]
    exact nofun

end SmallLisp
