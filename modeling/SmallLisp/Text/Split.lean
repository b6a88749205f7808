namespace SmallLisp.Text

/-- The pieces of a list between the places where `mark` stands, of which the first
starts with `part` in reverse. -/
def splitFrom (mark : Char) (part : List Char) : List Char → List (List Char)
  | [] => [part.reverse]
  | c :: rest =>
    if c = mark then part.reverse :: splitFrom mark [] rest else splitFrom mark (c :: part) rest

def split (mark : Char) (s : List Char) : List (List Char) := splitFrom mark [] s

/-- The lines of a text. A line feed at the end starts no further line. -/
def lines (text : String) : List String :=
  let pieces := split '\n' text.toList
  (if pieces.getLast? = some [] then pieces.dropLast else pieces).map String.ofList

end SmallLisp.Text
