namespace SmallLisp.Text

inductive Utf8Reason where
  | badStart
  | badContinuation
  | truncated
  deriving DecidableEq, Repr

structure Utf8Fault where
  first : UInt8
  position : Nat
  length : Nat
  reason : Utf8Reason
  deriving DecidableEq, Repr

/-- A character of which some bytes are still to come. The next of them lies
between `low` and `high`, which rules out overlong forms, surrogates and code
points past the last. -/
structure PartialChar where
  first : UInt8
  position : Nat
  value : Nat
  missing : Nat
  low : Nat
  high : Nat

def PartialChar.start? (b : UInt8) (position : Nat) : Option PartialChar :=
  let n := b.toNat
  if n < 0xC2 then none
  else if n < 0xE0 then some ⟨b, position, n - 0xC0, 1, 0x80, 0xBF⟩
  else if n < 0xF0 then
    some ⟨b, position, n - 0xE0, 2, if n = 0xE0 then 0xA0 else 0x80,
      if n = 0xED then 0x9F else 0xBF⟩
  else if n < 0xF5 then
    some ⟨b, position, n - 0xF0, 3, if n = 0xF0 then 0x90 else 0x80,
      if n = 0xF4 then 0x8F else 0xBF⟩
  else none

def PartialChar.fault (p : PartialChar) (position : Nat) (reason : Utf8Reason) : Utf8Fault :=
  ⟨p.first, p.position, position - p.position, reason⟩

def decodeFrom (position : Nat) (done : List Char) (pending : Option PartialChar) :
    List UInt8 → Except Utf8Fault (List Char)
  | [] =>
    match pending with
    | none => .ok done.reverse
    | some p => .error (p.fault position .truncated)
  | b :: rest =>
    match pending with
    | none =>
      if b.toNat < 0x80 then decodeFrom (position + 1) (Char.ofNat b.toNat :: done) none rest
      else match PartialChar.start? b position with
        | none => .error ⟨b, position, 1, .badStart⟩
        | some p => decodeFrom (position + 1) done (some p) rest
    | some p =>
      if p.low ≤ b.toNat ∧ b.toNat ≤ p.high then
        let value := 64 * p.value + (b.toNat - 0x80)
        if p.missing ≤ 1 then decodeFrom (position + 1) (Char.ofNat value :: done) none rest
        else decodeFrom (position + 1) done
          (some ⟨p.first, p.position, value, p.missing - 1, 0x80, 0xBF⟩) rest
      else .error (p.fault position .badContinuation)

def decodeUtf8 (bytes : List UInt8) : Except Utf8Fault String :=
  (decodeFrom 0 [] none bytes).map String.ofList

def unifyLineEndsFrom (done : List Char) : List Char → List Char
  | [] => done.reverse
  | '\r' :: '\n' :: rest => unifyLineEndsFrom ('\n' :: done) rest
  | '\r' :: rest => unifyLineEndsFrom ('\n' :: done) rest
  | c :: rest => unifyLineEndsFrom (c :: done) rest

def unifyLineEnds (s : String) : String := String.ofList (unifyLineEndsFrom [] s.toList)

end SmallLisp.Text
