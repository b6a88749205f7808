import SmallLisp.Atom

namespace SmallLisp

/-- A place in a list of tokens: what is still to be read, the number of tokens read,
and the number of lists that were opened and not closed. -/
structure Cursor where
  rest : List String
  position : Nat
  depth : Nat
  deriving DecidableEq, Repr

namespace Cursor

def ofTokens (tokens : List String) : Cursor := ⟨tokens, 0, 0⟩

def atEnd (c : Cursor) : Bool := c.rest.isEmpty

def peek (c : Cursor) : Except ReadError String :=
  match c.rest with
  | [] => .error .endOfInput
  | token :: _ => .ok token

/-- Every read goes on from the place that it reached, also when it fails. -/
def next (c : Cursor) : Except ReadError String × Cursor :=
  match c.rest with
  | [] => (.error .endOfInput, c)
  | token :: rest => (.ok token, ⟨rest, c.position + 1, c.depth⟩)

def readAtom (c : Cursor) : Except ReadError Value × Cursor :=
  match c.rest with
  | [] => (.error .endOfInput, c)
  | token :: rest => (Atom.read token, ⟨rest, c.position + 1, c.depth⟩)

/-- Reads on inside a list, of which `items` have been read and which stands inside
the lists `outer`, until the outermost of these lists is closed. The items are held
in reverse, and `outer` from the inside out. -/
def readItems (limit : Nat) :
    List String → Nat → Nat → List Value → List (List Value) → Except ReadError Value × Cursor
  | [], position, depth, _, _ => (.error .listNotClosed, ⟨[], position, depth⟩)
  | token :: rest, position, depth, items, outer =>
    if token = "(" then
      if limit < depth + 1 then (.error (.tooDeep limit), ⟨rest, position + 1, depth + 1⟩)
      else readItems limit rest (position + 1) (depth + 1) [] (items :: outer)
    else if token = ")" then
      match outer with
      | [] => (.ok (.list items.reverse), ⟨rest, position + 1, depth - 1⟩)
      | above :: outer =>
        readItems limit rest (position + 1) (depth - 1) (.list items.reverse :: above) outer
    else
      match Atom.read token with
      | .ok v => readItems limit rest (position + 1) depth (v :: items) outer
      | .error e => (.error e, ⟨rest, position + 1, depth⟩)

/-- Reads a list whose opening parenthesis is the next token. That token is not
looked at. -/
def readList (limit : Nat) (c : Cursor) : Except ReadError Value × Cursor :=
  match c.rest with
  | [] => (.error .endOfInput, c)
  | _ :: rest =>
    if limit < c.depth + 1 then (.error (.tooDeep limit), ⟨rest, c.position + 1, c.depth + 1⟩)
    else readItems limit rest (c.position + 1) (c.depth + 1) [] []

def readForm (limit : Nat) (c : Cursor) : Except ReadError Value × Cursor :=
  match c.rest with
  | [] => (.error .endOfInput, c)
  | token :: _ =>
    if token = "(" then c.readList limit
    else if token = ")" then (.error .listNotOpened, c)
    else c.readAtom

theorem readItems_rest_length_le (limit : Nat) (rest : List String) (position depth : Nat)
    (items : List Value) (outer : List (List Value)) :
    (readItems limit rest position depth items outer).2.rest.length ≤ rest.length := by
  fun_induction readItems limit rest position depth items outer <;> simp_all <;> omega

theorem readForm_rest_length_lt (limit : Nat) (c d : Cursor) (v : Value)
    (h : c.readForm limit = (.ok v, d)) : d.rest.length < c.rest.length := by
  rcases c with ⟨_ | ⟨token, rest⟩, position, depth⟩
  · simp [readForm] at h
  · simp only [readForm] at h
    split at h
    · simp only [readList] at h
      split at h
      · simp at h
      · have hle := readItems_rest_length_le limit rest (position + 1) (depth + 1) [] []
        rw [h] at hle
        exact Nat.lt_succ_of_le hle
    · split at h
      · simp at h
      · obtain ⟨_, rfl⟩ := Prod.mk.inj h
        exact Nat.lt_succ_self _

/-- Reads all forms that are left, after the forms `done`, which are held in
reverse. -/
def readRest (limit : Nat) (done : List Value) (c : Cursor) :
    Except ReadError (List Value) × Cursor :=
  if c.atEnd then (.ok done.reverse, c)
  else
    match _ : c.readForm limit with
    | (.ok v, d) => readRest limit (v :: done) d
    | (.error e, d) => (.error e, d)
termination_by c.rest.length
decreasing_by exact readForm_rest_length_lt limit c d v (by assumption)

def readAll (limit : Nat) (c : Cursor) : Except ReadError (List Value) × Cursor :=
  readRest limit [] c

end Cursor

end SmallLisp
