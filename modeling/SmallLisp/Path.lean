import SmallLisp.Text.Split

namespace SmallLisp.Path

/-- The start of an absolute path. Two slashes are kept, and more are one. -/
def rootOf (path : List Char) : List Char :=
  match path.takeWhile (· == '/') with
  | [] => []
  | ['/', '/'] => ['/', '/']
  | _ => ['/']

def parts (path : List Char) : List (List Char) :=
  (Text.split '/' path).filter fun part => !part.isEmpty && part != ['.']

def render (root : List Char) (parts : List (List Char)) : String :=
  match root, parts with
  | [], [] => "."
  | _, _ => String.ofList (root ++ List.intercalate ['/'] parts)

def normalize (path : String) : String := render (rootOf path.toList) (parts path.toList)

/-- The user whose home directory a relative path starts with: the empty name stands
for the current user. -/
def homeOwner? (path : String) : Option String :=
  match rootOf path.toList, parts path.toList with
  | [], ('~' :: user) :: _ => some (String.ofList user)
  | _, _ => none

def replaceFirst (path directory : String) : String :=
  let head := directory.toList
  render (rootOf head) (parts head ++ (parts path.toList).drop 1)

end SmallLisp.Path
