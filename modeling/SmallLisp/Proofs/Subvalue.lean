import SmallLisp.Proofs.Alike

namespace SmallLisp.Value

/-- The first value stands somewhere in the second: in a list, or in the body of a
closure. -/
inductive Occurs (w : Value) : Value → Prop
  | self : Occurs w w
  | item {items : List Value} {v : Value} (hv : v ∈ items) (h : Occurs w v) : Occurs w (.list items)
  | body {params : List Symbol} {b : Value} {scope : ScopeId} (h : Occurs w b) :
      Occurs w (.closure params b scope)

variable {node : Value → Prop} {link : Value → ScopeId → ScopeId → Prop}

theorem alike_of_occurs {v : Value}
    (h : ∀ params body scope, (closure params body scope).Occurs v → link body scope scope) :
    Alike (fun _ => True) link v v := by
  induction v with
  | atom v ha => exact .atom ha trivial
  | list items ih =>
    refine .list trivial (List.forall₂_same.mpr fun v hv => ih v hv ?_)
    exact fun params body scope ho => h params body scope (.item hv ho)
  | closure params body scope ih =>
    refine .closure (ih ?_) (h params body scope .self)
    exact fun params body scope ho => h params body scope (.body ho)

theorem link_of_occurs {v w : Value} (h : Alike node link v w) {params : List Symbol} {c : Value}
    {j : ScopeId} (ho : (closure params c j).Occurs w) :
    ∃ b i, (closure params b i).Occurs v ∧ link b i j := by
  revert ho
  refine h.ind (motive := fun v w => (closure params c j).Occurs w →
    ∃ b i, (closure params b i).Occurs v ∧ link b i j) ?_ ?_ ?_
  · intro v ha _ ho
    cases ho with
    | self => cases ha
    | item => cases ha
    | body => cases ha
  · intro as bs _ _ ih ho
    cases ho with
    | item hw ho =>
      obtain ⟨v, hv, hvw⟩ := Alike.exists_mem_left ih hw
      obtain ⟨b, i, hb, hl⟩ := hvw ho
      exact ⟨b, i, .item hv hb, hl⟩
  · intro params' b c' i j' _ ih hl ho
    cases ho with
    | self => exact ⟨b, i, .self, hl⟩
    | body ho =>
      obtain ⟨b', i', hb, hl'⟩ := ih ho
      exact ⟨b', i', .body hb, hl'⟩

end SmallLisp.Value
