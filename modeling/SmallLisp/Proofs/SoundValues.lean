import SmallLisp.Proofs.Bracketing
import SmallLisp.Proofs.DoubleRange
import SmallLisp.Proofs.Invariant
import SmallLisp.Proofs.ReadValues
import SmallLisp.Proofs.SessionSteps

namespace SmallLisp

/-- In no memory is there a longer text or list. -/
def sizeLimit : Nat := 2 ^ 63

namespace Value

/-- What holds of all atoms and lists that programs come upon. The count of a list may
need more than 32 bits. -/
def InRange : Value → Prop
  | int n => n.natAbs ≤ sizeLimit
  | list items => items.length ≤ sizeLimit
  | _ => True

abbrev Sound (v : Value) : Prop := v.Fits InRange fun _ => True

/-- What holds of the atoms and lists of a value that is given to a session. -/
def IsWord : Value → Prop
  | int n => Number.intMin ≤ n ∧ n ≤ Number.intMax
  | list items => items.length ≤ sizeLimit
  | _ => True

/-- A value that may be given to a session. Its integers have 32 bits. -/
abbrev WellFormed (v : Value) : Prop := v.Fits IsWord fun _ => True

theorem inRange_of_word {n : Int} (hl : Number.intMin ≤ n) (hu : n ≤ Number.intMax) :
    InRange (.int n) := by
  unfold Number.intMin at hl
  unfold Number.intMax at hu
  change n.natAbs ≤ 2 ^ 63
  omega

theorem inRange_of_isWord {v : Value} (h : v.IsWord) : v.InRange := by
  cases v with
  | int n => exact inRange_of_word h.1 h.2
  | list items => exact h
  | _ => trivial

theorem sound_of_wellFormed {v : Value} (h : v.WellFormed) : v.Sound :=
  h.mono_node fun _ h => inRange_of_isWord h

end Value

/-- The errors of parentheses that do not match, or are nested too deep. -/
inductive ReadError.Expected : ReadError → Prop
  | listNotClosed : Expected .listNotClosed
  | listNotOpened : Expected .listNotOpened
  | tooDeep (limit : Nat) : Expected (.tooDeep limit)

/-- The errors that evaluations end in. Names are never missing, and numbers never too
large. -/
inductive EvalError.Expected : EvalError → Prop
  | arity (expected got : Nat) : Expected (.arity expected got)
  | kind (fault : KindFault) : Expected (.kind fault)
  | shape (form : SpecialForm) (fault : ShapeFault) : Expected (.shape form fault)
  | divisionByZero : Expected .divisionByZero
  | tooDeep (limit : Nat) : Expected (.tooDeep limit)

theorem Operator.inRange_of_result {x : Value} (h : Operator.Result x) : x.InRange := by
  cases h with
  | int n => exact Value.inRange_of_word (Number.wrap_mem n).1 (Number.wrap_mem n).2
  | float y => trivial
  | bool b => trivial

theorem Double.ofInt?_ne_none_of_inRange {n : Int} (h : Value.InRange (.int n)) :
    Double.ofInt? n ≠ none := by
  refine Double.ofInt?_ne_none ?_
  have hle : n.natAbs ≤ 2 ^ 63 := h
  by_cases hz : n.natAbs = 0
  · rw [hz]
    decide
  · have hlt : n.natAbs.log2 < 64 := (Nat.log2_lt hz).mpr (by omega)
    omega

theorem Operator.expected_of_failure {v w : Value} {e : EvalError} (h : Operator.Failure v w e)
    (hv : v.IsAtom → v.InRange) (hw : w.IsAtom → w.InRange) : e.Expected := by
  cases h with
  | kind fault _ => exact .kind fault
  | divisionByZero => exact .divisionByZero
  | tooLarge n hn hnone =>
    have hn : Value.InRange (.int n) := by
      obtain rfl | rfl := hn
      · exact hv trivial
      · exact hw trivial
    exact absurd hnone (Double.ofInt?_ne_none_of_inRange hn)

def Store.Sound (s : Store) : Prop :=
  ∀ (i : ScopeId) (f : Frame), s.frames[i]? = some f → ∀ p ∈ f.bindings, p.2.Sound

namespace Store

variable {s : Store}

theorem sound_put (h : s.Sound) (scope : ScopeId) (key : Symbol) {value : Value}
    (hv : value.Sound) : (s.put scope key value).Sound :=
  binds_put (P := fun _ p => p.2.Sound) h scope fun _ => hv

theorem sound_restore (h : s.Sound) (scope : ScopeId) {saved : Bindings}
    (hsaved : ∀ p ∈ saved, p.2.Sound) : (s.restore scope saved).Sound :=
  binds_restore (P := fun _ p => p.2.Sound) h scope fun _ => hsaved

theorem sound_create (h : s.Sound) (outer : Option ScopeId) : (s.create outer).2.Sound :=
  binds_create (P := fun _ p => p.2.Sound) h outer

theorem sound_bindings (h : s.Sound) (scope : ScopeId) : ∀ p ∈ s.bindings scope, p.2.Sound :=
  forall_bindings (P := fun _ p => p.2.Sound) h scope

end Store

def valuesSound : Invariant where
  World := Unit
  Later _ _ := True
  node := Value.InRange
  home _ _ := True
  opens _ _ := True
  machine _ m := m.store.Sound
  error := EvalError.Expected
  refl _ := trivial
  trans _ _ := trivial
  home_mono _ _ := trivial
  opens_mono _ _ := trivial
  home_of_opens _ := trivial
  node_zero := Nat.zero_le _
  node_nil := trivial
  node_bool _ := trivial
  node_sequence := trivial
  node_length h := h
  node_list h hle := Nat.le_trans hle h
  node_apply _ _ h := Operator.inRange_of_result (Operator.apply_ok h)
  error_apply hv hw h := Operator.expected_of_failure (Operator.apply_error h) hv hw
  error_arity m n := .arity m n
  error_boolean _ _ := .kind _
  error_list _ _ := .kind _
  error_shape f x := .shape f x
  bound h hf hv := h _ _ hf _ hv
  put h _ hv := Store.sound_put h _ _ hv
  create h _ := ⟨(), trivial, Store.sound_create h _, trivial⟩
  print h _ := h

theorem Atom.inRange_of_written {v : Value} (h : Atom.Written v) : v.InRange := by
  cases h with
  | int n hl hu => exact Value.inRange_of_word hl hu
  | _ => trivial

theorem Program.sound_of_read {limit : Nat} {text : String} (ht : text.length < sizeLimit)
    {v : Value} (h : Program.read limit text = .ok v) : v.Sound := by
  have hlength := Token.length_tokenize_le text
  refine Program.read_holds ?_ ?_ (.atom trivial trivial) h
  · intro token v hv
    have hw := Atom.written_of_read hv
    exact .atom (Atom.isAtom_of_written hw) (Atom.inRange_of_written hw)
  · intro vs hvs hsound
    refine .list ?_ (List.forall₂_same.mpr hsound)
    exact Nat.le_trans hvs (by omega)

/-- A text that fits a memory, and writes no integer in more than 4300 digits. -/
structure Program.Admissible (text : String) : Prop where
  fits : text.length < sizeLimit
  short : ∀ token ∈ Token.tokenize text, Atom.Convertible token.toList

theorem Nesting.expected_of_fault? {limit opened : Nat} {tokens : List String} {e : ReadError}
    (hshort : ∀ token ∈ tokens, Atom.overlong? token.toList = none)
    (h : fault? limit opened tokens = some e) : e.Expected := by
  fun_induction fault? limit opened tokens with
  | case1 => cases h
  | case2 => cases h; exact .listNotClosed
  | case3 => cases h; exact .tooDeep limit
  | case4 _ _ _ ih => exact ih (List.forall_mem_cons.mp hshort).2 h
  | case5 => cases h; exact .listNotOpened
  | case6 _ _ _ _ ih => exact ih (List.forall_mem_cons.mp hshort).2 h
  | case7 _ _ _ _ _ _ hlong => cases (List.forall_mem_cons.mp hshort).1.symm.trans hlong
  | case8 _ _ _ _ _ _ ih => exact ih (List.forall_mem_cons.mp hshort).2 h

theorem Program.expected_of_unread {limit : Nat} {text : String} (ht : Admissible text)
    {e : ReadError} (h : Program.read limit text = .error e) : e.Expected := by
  refine Nesting.expected_of_fault? (fun token htoken => ?_) (fault?_of_unread h)
  exact Atom.overlong?_eq_none_iff_convertible.mpr (ht.short token htoken)

def Step.Admissible : Step → Prop
  | submit text => Program.Admissible text
  | evaluate form => form.WellFormed
  | bind _ value => value.WellFormed

namespace Session

inductive Ends : Except Fault Value → Prop
  | value (v : Value) (h : v.Sound) : Ends (.ok v)
  | reading (e : ReadError) (h : e.Expected) : Ends (.error (.reading e))
  | evaluation (e : EvalError) (h : e.Expected) : Ends (.error (.evaluation e))

abbrev Sound (s : Session) : Prop := s.store.Sound

theorem sound_fresh : fresh.Sound := by
  intro i f hf p hp
  obtain ⟨op, rfl⟩ := (frame_fresh hf).2 p hp
  exact .atom trivial trivial

variable {s : Session}

theorem evaluate_ends (limit : Nat) {form : Value} (hs : s.Sound) (hform : form.Sound) :
    Ends (s.evaluate limit form).1.result ∧ (s.evaluate limit form).2.Sound := by
  obtain ⟨_, _, hstore, hr⟩ := valuesSound.eval_ends limit (.tooDeep limit) 0 ()
    ⟨s.store, #[]⟩ form root hs hform trivial
  unfold evaluate
  dsimp only
  split
  · next v m hm =>
    rw [hm] at hstore hr
    exact ⟨.value v hr, hstore⟩
  · next e m hm =>
    rw [hm] at hstore hr
    exact ⟨.evaluation e hr, Store.sound_restore hstore root (Store.sound_bindings hs root)⟩

theorem submit_ends (limit : Nat) {text : String} (hs : s.Sound) (ht : Program.Admissible text) :
    Ends (s.submit limit text).1.result ∧ (s.submit limit text).2.Sound := by
  unfold submit
  cases hread : Program.read limit text with
  | ok form => exact evaluate_ends limit hs (Program.sound_of_read ht.fits hread)
  | error e => exact ⟨.reading e (Program.expected_of_unread ht hread), hs⟩

theorem sound_take (limit : Nat) {step : Step} (hs : s.Sound) (h : step.Admissible) :
    (s.take limit step).2.Sound := by
  cases step with
  | submit text => exact (submit_ends limit hs h).2
  | evaluate form => exact (evaluate_ends limit hs (Value.sound_of_wellFormed h)).2
  | bind key value => exact Store.sound_put hs root key (Value.sound_of_wellFormed h)

theorem sound_of_reached (h : Reached (fun _ step => step.Admissible) s) : s.Sound :=
  holds_of_reached sound_fresh (fun _ limit _ hs hstep => sound_take limit hs hstep) h

end Session

end SmallLisp
