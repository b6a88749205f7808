import SmallLisp.Cursor

namespace SmallLisp.Cursor

variable (limit : Nat) (rest : List String) (position depth : Nat) (items : List Value)
  (outer : List (List Value))

theorem readItems_open (h : depth + 1 ≤ limit) :
    readItems limit ("(" :: rest) position depth items outer =
      readItems limit rest (position + 1) (depth + 1) [] (items :: outer) := by
  rw [readItems.eq_def]
  simp only [↓reduceIte, if_neg (Nat.not_lt.mpr h)]

theorem readItems_close (above : List Value) :
    readItems limit (")" :: rest) position (depth + 1) items (above :: outer) =
      readItems limit rest (position + 1) depth (.list items.reverse :: above) outer := by
  rw [readItems.eq_def]
  simp only [if_neg (by decide : ¬ ")" = "("), ↓reduceIte, Nat.add_sub_cancel]

theorem readItems_end :
    readItems limit (")" :: rest) position (depth + 1) items [] =
      (.ok (.list items.reverse), ⟨rest, position + 1, depth⟩) := by
  rw [readItems.eq_def]
  simp only [if_neg (by decide : ¬ ")" = "("), ↓reduceIte, Nat.add_sub_cancel]

theorem readItems_atom {token : String} (hopen : token ≠ "(") (hclose : token ≠ ")") {v : Value}
    (hv : Atom.read token = .ok v) :
    readItems limit (token :: rest) position depth items outer =
      readItems limit rest (position + 1) depth (v :: items) outer := by
  rw [readItems.eq_def]
  simp only [if_neg hopen, if_neg hclose, hv]

theorem readRest_form {c d : Cursor} {v : Value} (h : c.readForm limit = (.ok v, d))
    (done : List Value) : readRest limit done c = readRest limit (v :: done) d := by
  have hc : c.atEnd = false := by
    obtain ⟨_ | ⟨token, rest⟩, position, depth⟩ := c
    · cases h
    · rfl
  rw [readRest, if_neg (by simp [hc])]
  split
  · next w e he =>
    obtain ⟨hw, rfl⟩ := Prod.mk.inj (h.symm.trans he)
    obtain rfl := Except.ok.inj hw
    rfl
  · next e d' he => cases h.symm.trans he

theorem readRest_atEnd {c : Cursor} (h : c.atEnd = true) (done : List Value) :
    readRest limit done c = (.ok done.reverse, c) := by
  rw [readRest, if_pos h]

end SmallLisp.Cursor
