import SmallLisp.Text.Quoted
import SmallLisp.Text.Utf8

namespace SmallLisp

inductive FileFault where
  | missing (path : String)
  | directory (path : String)
  | notDirectory (path : String)
  | nameTooLong (path : String)
  | denied (path : String)
  | malformed (fault : Text.Utf8Fault)
  deriving DecidableEq, Repr

namespace FileFault

def system (number : Nat) (text path : String) : String :=
  "[Errno " ++ toString number ++ "] " ++ text ++ ": " ++ Text.quoted path

def reason : Text.Utf8Reason → String
  | .badStart => "invalid start byte"
  | .badContinuation => "invalid continuation byte"
  | .truncated => "unexpected end of data"

def place (fault : Text.Utf8Fault) : String :=
  if fault.length = 1 then
    "byte 0x" ++ String.ofList (Text.hexDigits 2 fault.first.toNat) ++ " in position " ++
      toString fault.position
  else
    "bytes in position " ++ toString fault.position ++ "-" ++
      toString (fault.position + fault.length - 1)

def message : FileFault → String
  | missing path => system 2 "No such file or directory" path
  | directory path => system 21 "Is a directory" path
  | notDirectory path => system 20 "Not a directory" path
  | nameTooLong path => system 36 "File name too long" path
  | denied path => system 13 "Permission denied" path
  | malformed fault => "'utf-8' codec can't decode " ++ place fault ++ ": " ++ reason fault.reason

end FileFault

end SmallLisp
