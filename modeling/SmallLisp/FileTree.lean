import SmallLisp.FileFault
import SmallLisp.Path

namespace SmallLisp

/-- The files and directories of a system, each under the parts of its path from the
root, and the working directory. -/
structure FileTree where
  files : List (List (List Char) × List UInt8)
  directories : List (List (List Char))
  working : List (List Char)

namespace FileTree

def ofWorking (directory : String) : FileTree :=
  let place := Path.parts directory.toList
  ⟨[], [place], place⟩

def origin (t : FileTree) (path : String) : List (List Char) :=
  if path.startsWith "/" then [] else t.working

def locate (t : FileTree) (path : String) : List (List Char) :=
  t.origin path ++ Path.parts path.toList

def addDirectory (t : FileTree) (path : String) : FileTree :=
  { t with directories := t.locate path :: t.directories }

def addFile (t : FileTree) (path : String) (bytes : List UInt8) : FileTree :=
  { t with files := (t.locate path, bytes) :: t.files }

/-- A directory is there when it, or anything in it, is listed. -/
def hasDirectory (t : FileTree) (place : List (List Char)) : Bool :=
  place.isEmpty || t.directories.any (place.isPrefixOf ·) ||
    t.files.any fun f => place.isPrefixOf f.1 && place != f.1

/-- Follows the parts of a path from a directory. The root is its own parent. -/
def walk (t : FileTree) (path : String) (here : List (List Char)) :
    List (List Char) → Except FileFault (List UInt8)
  | [] => .error (.directory path)
  | part :: rest =>
    if part = ['.', '.'] then t.walk path here.dropLast rest
    else if 255 < (String.ofList part).utf8ByteSize then .error (.nameTooLong path)
    else if t.hasDirectory (here ++ [part]) then t.walk path (here ++ [part]) rest
    else
      match t.files.lookup (here ++ [part]) with
      | none => .error (.missing path)
      | some bytes => if rest.isEmpty then .ok bytes else .error (.notDirectory path)

def bytes (t : FileTree) (path : String) : Except FileFault (List UInt8) :=
  let path := Path.normalize path
  if 4095 < path.utf8ByteSize then .error (.nameTooLong path)
  else t.walk path (t.origin path) (Path.parts path.toList)

def text (t : FileTree) (path : String) : Except FileFault String :=
  match t.bytes path with
  | .error fault => .error fault
  | .ok bytes =>
    match Text.decodeUtf8 bytes with
    | .error fault => .error (.malformed fault)
    | .ok text => .ok (Text.unifyLineEnds text)

end FileTree

end SmallLisp
