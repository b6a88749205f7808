import SmallLisp.Proofs.Lockstep

namespace SmallLisp

namespace Value.Alike

variable {node : Value → Prop} {link : Value → ScopeId → ScopeId → Prop} {v w : Value}

theorem sym_or (h : Alike node link v w) :
    (∃ k, v = .sym k ∧ w = .sym k) ∨ (∀ k, v = .sym k → False) ∧ ∀ k, w = .sym k → False := by
  cases h with
  | atom ha hn => by_cases hk : ∃ k, v = .sym k <;> grind
  | list hn h => exact .inr ⟨nofun, nofun⟩
  | closure h hl => exact .inr ⟨nofun, nofun⟩

theorem list_or (h : Alike node link v w) :
    (∃ as bs, v = .list as ∧ w = .list bs ∧ node (.list as) ∧ List.Forall₂ (Alike node link) as bs) ∨
      (∀ as, v = .list as → False) ∧ ∀ as, w = .list as → False := by
  cases h with
  | atom ha hn =>
    have hne : ∀ as, v = .list as → False := fun as he => by simp [he, IsAtom] at ha
    exact .inr ⟨hne, hne⟩
  | list hn h => exact .inl ⟨_, _, rfl, rfl, hn, h⟩
  | closure h hl => exact .inr ⟨nofun, nofun⟩

end Value.Alike

namespace Lockstep

variable {L : Lockstep} {W : L.World}

abbrev AlikeEach (L : Lockstep) (W : L.World) : List Value → List Value → Prop :=
  List.Forall₂ (L.Alike W)

abbrev AlikeBindings (L : Lockstep) (W : L.World) : Bindings → Bindings → Prop :=
  Bindings.Alike (L.Alike W)

abbrev Checks (L : Lockstep) (W : L.World) (A : α → α → Prop) :
    Except ShapeFault α → Except ShapeFault α → Prop :=
  Agree (ShapeFault.Alike (L.Alike W)) A

abbrev ChecksForm (L : Lockstep) (W : L.World) : Except ShapeFault Form → Except ShapeFault Form → Prop :=
  L.Checks W (Form.Alike (L.Alike W))

theorem wrongCount_checks {vs ws : List Value} (h : L.AlikeEach W vs ws) (wanted : List Nat) :
    L.ChecksForm W (.error (.wrongCount wanted vs.length)) (.error (.wrongCount wanted ws.length)) := by
  rw [h.length_eq]
  exact .error (.wrongCount _ _)

theorem defineOf_checks {vs ws : List Value} (h : L.AlikeEach W vs ws) :
    L.ChecksForm W (Form.defineOf vs) (Form.defineOf ws) := by
  obtain _ | ⟨hv, _ | ⟨hw, _ | ⟨hx, h⟩⟩⟩ := h
  · exact wrongCount_checks .nil [2]
  · simp only [Form.defineOf]
    exact wrongCount_checks (.cons hv .nil) [2]
  · obtain ⟨k, rfl, rfl⟩ | ⟨hk, hk'⟩ := hv.sym_or
    · exact .ok (.define k hw)
    · rw [Form.defineOf.eq_2 _ _ hk, Form.defineOf.eq_2 _ _ hk']
      exact .error (.nameExpected hv)
  · simp only [Form.defineOf]
    exact wrongCount_checks (.cons hv (.cons hw (.cons hx h))) [2]

theorem unaryOf_checks {make : Value → Form}
    (hmake : ∀ v w, L.Alike W v w → (make v).Alike (L.Alike W) (make w)) {vs ws : List Value}
    (h : L.AlikeEach W vs ws) : L.ChecksForm W (Form.unaryOf make vs) (Form.unaryOf make ws) := by
  obtain _ | ⟨hv, _ | ⟨hw, h⟩⟩ := h
  · exact wrongCount_checks .nil [1]
  · exact .ok (hmake _ _ hv)
  · exact wrongCount_checks (.cons hv (.cons hw h)) [1]

theorem binaryOf_checks {make : Value → Value → Form}
    (hmake : ∀ v w v' w', L.Alike W v w → L.Alike W v' w' → (make v v').Alike (L.Alike W) (make w w'))
    {vs ws : List Value} (h : L.AlikeEach W vs ws) :
    L.ChecksForm W (Form.binaryOf make vs) (Form.binaryOf make ws) := by
  obtain _ | ⟨hv, _ | ⟨hw, _ | ⟨hx, h⟩⟩⟩ := h
  · exact wrongCount_checks .nil [2]
  · exact wrongCount_checks (.cons hv .nil) [2]
  · exact .ok (hmake _ _ _ _ hv hw)
  · exact wrongCount_checks (.cons hv (.cons hw (.cons hx h))) [2]

theorem conditionalOf_checks {vs ws : List Value} (h : L.AlikeEach W vs ws) :
    L.ChecksForm W (Form.conditionalOf vs) (Form.conditionalOf ws) := by
  obtain _ | ⟨hv, _ | ⟨hw, _ | ⟨hx, _ | ⟨hy, h⟩⟩⟩⟩ := h
  · exact wrongCount_checks .nil [2, 3]
  · exact wrongCount_checks (.cons hv .nil) [2, 3]
  · exact .ok (.conditional hv hw .none)
  · exact .ok (.conditional hv hw (.some hx))
  · exact wrongCount_checks (.cons hv (.cons hw (.cons hx (.cons hy h)))) [2, 3]

theorem bindingsOf_checks :
    ∀ {vs ws : List Value}, L.AlikeEach W vs ws →
      L.Checks W (L.AlikeBindings W) (Form.bindingsOf vs) (Form.bindingsOf ws)
  | _, _, .nil => .ok .nil
  | _, _, .cons _ .nil => .error .bindingsOdd
  | _, _, .cons hv (.cons hw h) => by
    obtain ⟨k, rfl, rfl⟩ | ⟨hk, hk'⟩ := hv.sym_or
    · exact (bindingsOf_checks h).bind fun _ _ hr => .ok (.cons ⟨rfl, hw⟩ hr)
    · rw [Form.bindingsOf.eq_4 _ _ _ hk, Form.bindingsOf.eq_4 _ _ _ hk']
      exact .error (.bindingNotSymbol hv)

theorem paramsOf_checks {vs ws : List Value} (h : L.AlikeEach W vs ws) :
    L.Checks W (· = ·) (Form.paramsOf vs) (Form.paramsOf ws) := by
  induction h with
  | nil => exact .ok rfl
  | cons hv _ ih =>
    obtain ⟨k, rfl, rfl⟩ | ⟨hk, hk'⟩ := hv.sym_or
    · exact ih.bind fun _ _ hr => .ok (hr ▸ rfl)
    · rw [Form.paramsOf.eq_3 _ _ hk, Form.paramsOf.eq_3 _ _ hk']
      exact .error (.parameterNotSymbol hv)

theorem bodyOf_checks {v : Value} {vs ws : List Value} (hn : L.node (.list (v :: vs)))
    (h : L.AlikeEach W vs ws) : L.Checks W (L.Alike W) (Form.bodyOf vs) (Form.bodyOf ws) := by
  obtain _ | ⟨hv, _ | ⟨hw, h⟩⟩ := h
  · exact .error .bodyMissing
  · exact .ok hv
  · exact .ok (.list (L.node_list hn (by simp)) (.cons (.atom trivial L.node_sequence)
      (.cons hv (.cons hw h))))

theorem letStarOf_checks {v : Value} {vs ws : List Value} (hn : L.node (.list (v :: vs)))
    (h : L.AlikeEach W vs ws) : L.ChecksForm W (Form.letStarOf vs) (Form.letStarOf ws) := by
  obtain _ | ⟨hb, _ | ⟨hw, h⟩⟩ := h
  · exact .error .bindingsOrBodyMissing
  · simp only [Form.letStarOf]
    exact .error .bindingsOrBodyMissing
  · obtain ⟨as, bs, rfl, rfl, _, has⟩ | ⟨hl, hl'⟩ := hb.list_or
    · have hbody := bodyOf_checks (L.node_list hn (Nat.le_succ _)) (.cons hw h)
      rw [Form.letStarOf, Form.letStarOf, has.length_eq]
      split
      · exact .error .bindingsOdd
      · exact (bindingsOf_checks has).bind fun _ _ hbs => hbody.bind fun _ _ hx => .ok (.letStar hbs hx)
    · rw [Form.letStarOf.eq_2 _ _ _ hl, Form.letStarOf.eq_2 _ _ _ hl']
      exact .error .bindingsNotList

theorem lambdaOf_checks {v : Value} {vs ws : List Value} (hn : L.node (.list (v :: vs)))
    (h : L.AlikeEach W vs ws) : L.ChecksForm W (Form.lambdaOf vs) (Form.lambdaOf ws) := by
  obtain _ | ⟨hp, h⟩ := h
  · exact .error .parametersMissing
  · obtain ⟨as, bs, rfl, rfl, _, has⟩ | ⟨hl, hl'⟩ := hp.list_or
    · have hbody := bodyOf_checks (L.node_list hn (Nat.le_succ _)) h
      refine (paramsOf_checks has).bind fun ps qs hpq => hbody.bind fun _ _ hx => ?_
      subst hpq
      exact .ok (.lambda ps hx)
    · rw [Form.lambdaOf.eq_2 _ _ hl, Form.lambdaOf.eq_2 _ _ hl']
      exact .error .parametersNotList

theorem ofTail_checks (special : SpecialForm) {v : Value} {vs ws : List Value}
    (hn : L.node (.list (v :: vs))) (h : L.AlikeEach W vs ws) :
    L.ChecksForm W (Form.ofTail special vs) (Form.ofTail special ws) := by
  cases special with
  | define => exact defineOf_checks h
  | letStar => exact letStarOf_checks hn h
  | lambda => exact lambdaOf_checks hn h
  | sequence => exact .ok (.sequence h)
  | conditional => exact conditionalOf_checks h
  | connective c => exact binaryOf_checks (fun _ _ _ _ => .connective c) h
  | negation => exact unaryOf_checks (fun _ _ => .negation) h
  | print => exact unaryOf_checks (fun _ _ => .print) h
  | literalList => exact .ok (.literalList (.list (L.node_list hn (Nat.le_succ _)) h))
  | isList => exact unaryOf_checks (fun _ _ => .isList) h
  | isEmpty => exact unaryOf_checks (fun _ _ => .isEmpty) h
  | count => exact unaryOf_checks (fun _ _ => .count) h
  | sameKind => exact binaryOf_checks (fun _ _ _ _ => .sameKind) h

end Lockstep

end SmallLisp
