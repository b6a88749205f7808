import SmallLisp.Operator.Apply
import SmallLisp.Proofs.Outcome

namespace SmallLisp.Operator

variable {op : Operator} {v w x : Value} {e : EvalError}

inductive Result : Value → Prop
  | int (n : Int) : Result (.int (Number.wrap n))
  | float (y : Double) : Result (.float y)
  | bool (b : Bool) : Result (.bool b)

theorem arithmetic_ok {onInts : Int → Int → Except EvalError Int}
    {onDoubles : Double → Double → Except EvalError Double}
    (h : arithmetic op onInts onDoubles v w = .ok x) : Result x := by
  unfold arithmetic at h
  split at h
  · obtain ⟨n, _, h⟩ := bind_eq_ok.mp h
    cases h
    exact .int n
  · obtain ⟨_, _, h⟩ := bind_eq_ok.mp h
    obtain ⟨y, _, h⟩ := bind_eq_ok.mp h
    cases h
    exact .float _
  · obtain ⟨_, _, h⟩ := bind_eq_ok.mp h
    obtain ⟨y, _, h⟩ := bind_eq_ok.mp h
    cases h
    exact .float _
  · obtain ⟨y, _, h⟩ := bind_eq_ok.mp h
    cases h
    exact .float _
  · cases h

theorem map_bool_ok {y : Except EvalError Bool} (h : y.map Value.bool = .ok x) : Result x := by
  cases y with
  | ok b =>
    cases h
    exact .bool b
  | error e => cases h

theorem apply_ok (h : op.apply v w = .ok x) : Result x := by
  cases op with
  | eq => exact map_bool_ok h
  | order c => exact map_bool_ok h
  | _ => exact arithmetic_ok h

theorem arithmetic_float {onInts : Int → Int → Except EvalError Int}
    {onDoubles : Double → Double → Except EvalError Double} {y : Double}
    (h : arithmetic op onInts onDoubles v w = .ok (.float y)) : v.kind = .float ∨ w.kind = .float := by
  unfold arithmetic at h
  split at h
  · obtain ⟨n, _, h⟩ := bind_eq_ok.mp h
    cases h
  · exact .inr rfl
  · exact .inl rfl
  · exact .inl rfl
  · cases h

theorem apply_float {y : Double} (h : op.apply v w = .ok (.float y)) :
    v.kind = .float ∨ w.kind = .float := by
  cases op with
  | eq =>
    obtain ⟨b, _, h⟩ := map_eq_ok.mp h
    cases h
  | order c =>
    obtain ⟨b, _, h⟩ := map_eq_ok.mp h
    cases h
  | _ => exact arithmetic_float h

inductive Failure (v w : Value) : EvalError → Prop
  | kind (fault : KindFault) (h : ∀ got, fault ≠ .keyNotSymbol got) : Failure v w (.kind fault)
  | divisionByZero : Failure v w .divisionByZero
  | tooLarge (n : Int) (hn : v = .int n ∨ w = .int n) (h : Double.ofInt? n = none) : Failure v w .tooLarge

theorem widen_error {n : Int} (h : widen n = .error e) : e = .tooLarge ∧ Double.ofInt? n = none := by
  unfold widen at h
  split at h
  · cases h
  · cases h
    exact ⟨rfl, ‹_›⟩

theorem failure_of_widen {n : Int} (h : widen n = .error e) (hn : v = .int n ∨ w = .int n) :
    Failure v w e := by
  obtain ⟨rfl, hd⟩ := widen_error h
  exact .tooLarge n hn hd

theorem arithmetic_error {onInts : Int → Int → Except EvalError Int}
    {onDoubles : Double → Double → Except EvalError Double}
    (hi : ∀ m n e, onInts m n = .error e → e = .divisionByZero)
    (hd : ∀ x y e, onDoubles x y = .error e → e = .divisionByZero)
    (h : arithmetic op onInts onDoubles v w = .error e) : Failure v w e := by
  have hdiv {x y : Double} (h : (do return .float (← onDoubles x y).toSingle) =
      (.error e : Except EvalError Value)) : Failure v w e := by
    obtain h | ⟨_, _, h⟩ := bind_eq_error.mp h
    · exact hd x y e h ▸ .divisionByZero
    · cases h
  unfold arithmetic at h
  split at h
  · obtain h | ⟨_, _, h⟩ := bind_eq_error.mp h
    · exact hi _ _ _ h ▸ .divisionByZero
    · cases h
  · obtain h | ⟨_, _, h⟩ := bind_eq_error.mp h
    · exact failure_of_widen h (.inl rfl)
    · exact hdiv h
  · obtain h | ⟨_, _, h⟩ := bind_eq_error.mp h
    · exact failure_of_widen h (.inr rfl)
    · exact hdiv h
  · exact hdiv h
  · cases h
    exact .kind _ nofun

theorem divideInts_error {m n : Int} (h : divideInts m n = .error e) : e = .divisionByZero := by
  unfold divideInts at h
  split at h
  · cases h
    rfl
  · cases h

theorem divideDoubles_error {x y : Double} (h : divideDoubles x y = .error e) : e = .divisionByZero := by
  unfold divideDoubles at h
  split at h
  · cases h
    rfl
  · cases h

theorem compare_error {c : Comparison} (h : compare c v w = .error e) : Failure v w e := by
  unfold compare at h
  split at h
  all_goals try cases h
  split at h
  all_goals
    cases h
    exact .kind _ nofun

theorem equal_error (h : equal v w = .error e) : Failure v w e := by
  unfold equal at h
  split at h
  · obtain h | ⟨_, _, h⟩ := bind_eq_error.mp h
    · exact failure_of_widen h (.inl rfl)
    · obtain h | ⟨_, _, h⟩ := bind_eq_error.mp h
      · exact failure_of_widen h (.inr rfl)
      · cases h
  · obtain h | ⟨_, _, h⟩ := bind_eq_error.mp h
    · exact failure_of_widen h (.inl rfl)
    · cases h
  · obtain h | ⟨_, _, h⟩ := bind_eq_error.mp h
    · exact failure_of_widen h (.inr rfl)
    · cases h
  all_goals try cases h
  split at h
  all_goals
    cases h
    exact .kind _ nofun

theorem map_bool_error {y : Except EvalError Bool} (h : y.map Value.bool = .error e) : y = .error e := by
  cases y with
  | ok b => cases h
  | error e' => exact Except.error.inj h ▸ rfl

theorem apply_error (h : op.apply v w = .error e) : Failure v w e := by
  cases op with
  | div => exact arithmetic_error (fun _ _ _ => divideInts_error) (fun _ _ _ => divideDoubles_error) h
  | eq => exact equal_error (map_bool_error h)
  | order c => exact compare_error (map_bool_error h)
  | _ => exact arithmetic_error (fun _ _ _ h => by cases h) (fun _ _ _ h => by cases h) h

end SmallLisp.Operator
