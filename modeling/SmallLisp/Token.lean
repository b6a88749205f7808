import SmallLisp.Text.Blank

namespace SmallLisp.Token

open Text

def isSeparator (c : Char) : Bool := isBlank c || c == ','

def isSingle (c : Char) : Bool :=
  c == '(' || c == ')' || c == '[' || c == ']' || c == '\x7b' || c == '\x7d' ||
    c == '\x27' || c == '\x60' || c == '~' || c == '^' || c == '@'

def isRun (c : Char) : Bool :=
  !(isSeparator c || c == '(' || c == ')' || c == '[' || c == ']' || c == '\x7b' ||
    c == '\x7d' || c == '\x27' || c == '\x60' || c == '\x22' || c == ';')

/-- The rest of a string literal after `done`, which is held in reverse: up to its
closing quote, or up to where it cannot go on. A backslash takes the next character
with it, but it does not take a line feed. -/
def stringRest (done : List Char) : List Char → List Char × List Char
  | [] => (done.reverse, [])
  | '\\' :: c :: rest =>
    if c = '\n' then (done.reverse, '\\' :: c :: rest) else stringRest (c :: '\\' :: done) rest
  | c :: rest =>
    if c = '\x22' then ((c :: done).reverse, rest)
    else if c = '\\' then (done.reverse, c :: rest)
    else stringRest (c :: done) rest

/-- The token that starts with `c`, which is neither a separator nor a semicolon, and
what follows it. -/
def lexeme (c : Char) (rest : List Char) : List Char × List Char :=
  if c = '~' ∧ rest.head? = some '@' then (['~', '@'], rest.tail)
  else if isSingle c then ([c], rest)
  else if c = '\x22' then stringRest [c] rest
  else (c :: rest.takeWhile isRun, rest.dropWhile isRun)

theorem stringRest_length_le (done s : List Char) :
    (stringRest done s).2.length ≤ s.length := by
  fun_induction stringRest done s <;> simp_all <;> omega

theorem length_dropWhile_le (p : Char → Bool) (s : List Char) :
    (s.dropWhile p).length ≤ s.length :=
  (List.dropWhile_sublist p).length_le

theorem lexeme_length_le (c : Char) (rest : List Char) :
    (lexeme c rest).2.length ≤ rest.length := by
  unfold lexeme
  split
  · simp
  · split
    · exact Nat.le_refl _
    · split
      · exact stringRest_length_le _ _
      · exact length_dropWhile_le _ _

/-- The tokens of a text after `done`, which is held in reverse. A semicolon starts a
comment that ends with its line. -/
def scan (done : List (List Char)) : List Char → List (List Char)
  | [] => done.reverse
  | c :: rest =>
    if isSeparator c then scan done rest
    else if c = ';' then scan done (rest.dropWhile (· ≠ '\n'))
    else scan ((lexeme c rest).1 :: done) (lexeme c rest).2
termination_by s => s.length
decreasing_by
  · simp
  · exact Nat.lt_succ_of_le (length_dropWhile_le _ _)
  · exact Nat.lt_succ_of_le (lexeme_length_le c rest)

/-- The tokens of a text, without separators and comments. Every text has tokens. -/
def tokenize (text : String) : List String := (scan [] text.toList).map String.ofList

end SmallLisp.Token
