import SmallLisp.Proofs.AtomText
import SmallLisp.Proofs.ReadForms
import SmallLisp.Proofs.TextLayout

namespace SmallLisp

/-- The name is a single token, which reads as the symbol. -/
structure Symbol.FromText (s : Symbol) : Prop where
  token : Token.tokenize s.name = [s.name]
  read : Atom.read s.name = .ok (.sym s)

/-- The values that programs come to when all that they are given is texts: integers of 32
bits, no floats, symbols that can be written, and lists with fewer than 2 ^ 31 items. -/
inductive Value.FromText : Value → Prop
  | int {n : Int} (hl : Number.intMin ≤ n) (hu : n ≤ Number.intMax) : FromText (.int n)
  | bool (b : Bool) : FromText (.bool b)
  | nil : FromText .nil
  | str (text : String) : FromText (.str text)
  | sym {s : Symbol} (hs : s.FromText) : FromText (.sym s)
  | list {items : List Value} (hlength : (items.length : Int) ≤ Number.intMax)
      (h : ∀ v ∈ items, FromText v) : FromText (.list items)
  | closure {params : List Symbol} {body : Value} {scope : ScopeId}
      (hparams : ∀ k ∈ params, k.FromText) (hbody : FromText body) :
      FromText (.closure params body scope)
  | operator (op : Operator) : FromText (.operator op)

theorem Value.kind_of_fromText {v : Value} (h : v.FromText) : v.kind ≠ .float := by
  cases h <;> exact nofun

theorem Symbol.fromText_of_sym {s : Symbol} (h : (Value.sym s).FromText) : s.FromText := by
  cases h with
  | sym hs => exact hs

theorem Value.fromText_items {items : List Value} (h : (Value.list items).FromText) :
    (items.length : Int) ≤ Number.intMax ∧ ∀ v ∈ items, v.FromText := by
  cases h with
  | list hlength hitems => exact ⟨hlength, hitems⟩

namespace Token

theorem stands_nil {t rest : List Char} (h : Stands rest t) : Stands [] t := by
  cases h with
  | splice => exact .splice
  | single hc _ => exact .single hc fun _ => by simp
  | literal hb => exact .literal hb
  | unclosed hb _ => exact .unclosed hb .atEnd
  | run hc h _ => exact .run hc h nofun

theorem stands_of_layout {s : List Char} {ts : List (List Char)} (h : Layout s ts) :
    ∀ t ∈ ts, Stands [] t := by
  induction h with
  | last => exact List.forall_mem_nil _
  | token _ ht _ ih => exact List.forall_mem_cons.mpr ⟨stands_nil ht, ih⟩

theorem tokenize_of_stands {t : String} (h : Stands [] t.toList) : tokenize t = [t] := by
  have hscan := scan_stands h
  rw [List.append_nil, scan_nil] at hscan
  simp [tokenize, hscan]

theorem tokenize_token {text t : String} (h : t ∈ tokenize text) : tokenize t = [t] := by
  obtain ⟨cs, hcs, rfl⟩ := List.mem_map.mp h
  have hstands := stands_of_layout (layout_scan text.toList) cs hcs
  exact tokenize_of_stands (by simpa using hstands)

end Token

namespace Atom

theorem name_of_read {token : String} {s : Symbol} (h : read token = .ok (.sym s)) :
    s.name = token := by
  replace h := (read_eq_ok_iff.mp h).2
  unfold resolve at h
  split at h
  · cases h
  · split at h
    · next hl =>
      obtain rfl := Except.ok.inj h
      unfold literal? at hl
      split_ifs at hl <;> cases hl
    · split at h
      · cases h
      · split at h
        · next hs =>
          obtain rfl := Value.sym.inj (Except.ok.inj h)
          unfold Symbol.ofName? at hs
          split at hs
          · cases hs
          · exact Option.some.inj hs ▸ rfl
        · cases h

theorem fromText_of_read {token : String} {v : Value} (htoken : Token.tokenize token = [token])
    (h : read token = .ok v) : v.FromText := by
  cases written_of_read h with
  | int n hl hu => exact .int hl hu
  | bool b => exact .bool b
  | nil => exact .nil
  | str text => exact .str text
  | sym s =>
    obtain rfl := name_of_read h
    exact .sym ⟨htoken, h⟩

end Atom

open Nesting

theorem Nesting.fromText_of_brackets {ts : List String} {vs : List Value} (h : Brackets ts vs)
    (htokens : ∀ t ∈ ts, Token.tokenize t = [t]) (hlength : (ts.length : Int) ≤ Number.intMax) :
    vs.length ≤ ts.length ∧ ∀ v ∈ vs, v.FromText := by
  induction h with
  | nil => exact ⟨Nat.le_refl _, List.forall_mem_nil _⟩
  | atom _ _ hv _ ih =>
    obtain ⟨htoken, hrest⟩ := List.forall_mem_cons.mp htokens
    rw [List.length_cons] at hlength ⊢
    obtain ⟨hle, hvs⟩ := ih hrest (by omega)
    refine ⟨Nat.succ_le_succ hle, List.forall_mem_cons.mpr ⟨?_, hvs⟩⟩
    exact Atom.fromText_of_read htoken hv
  | @list inside rest items vs _ _ ihi ih =>
    simp only [List.forall_mem_cons, List.forall_mem_append] at htokens
    simp only [List.length_cons, List.length_append] at hlength ⊢
    obtain ⟨_, hinside, _, hrest⟩ := htokens
    obtain ⟨hlei, hitems⟩ := ihi hinside (by omega)
    obtain ⟨hle, hvs⟩ := ih hrest (by omega)
    exact ⟨by omega, List.forall_mem_cons.mpr ⟨.list (by omega) hitems, hvs⟩⟩

theorem Program.fromText_of_read {limit : Nat} {text : String} (htext : text.length < 2 ^ 31)
    {form : Value} (h : Program.read limit text = .ok form) :
    ∃ forms, form = sequence forms ∧ ∀ v ∈ forms, v.FromText := by
  obtain ⟨forms, hform, _, hbrackets⟩ := brackets_of_read h
  have hle := Token.length_tokenize_le text
  have hlength : ((Token.tokenize text).length : Int) ≤ Number.intMax := by
    unfold Number.intMax
    omega
  exact ⟨forms, hform,
    (fromText_of_brackets hbrackets (fun _ => Token.tokenize_token) hlength).2⟩

end SmallLisp
