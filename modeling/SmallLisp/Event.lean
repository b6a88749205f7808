import SmallLisp.FileFault
import SmallLisp.Session

namespace SmallLisp

inductive Record where
  | ready (limit : Nat)
  | tokens (found : List String)
  | restoring (count : Nat)
  | running (path : String) (length : Nat)
  | unreadable (path : String) (fault : FileFault)

namespace Record

def source : Record → String
  | ready _ => "tern.interpreter"
  | tokens _ => "tern.reader.parser"
  | restoring _ => "tern.interpreter"
  | running .. => "tern.repl"
  | unreadable .. => "tern.repl"

def message : Record → String
  | ready limit => "interpreter ready (max depth " ++ toString limit ++ ")"
  | tokens found => "tokens: " ++ Text.bracketed (found.map Text.quoted)
  | restoring count => "evaluation failed, restoring " ++ toString count ++ " root bindings"
  | running path length => "running " ++ path ++ " (" ++ toString length ++ " chars)"
  | unreadable path fault => "cannot read " ++ path ++ ": " ++ fault.message

def text (r : Record) : String := "DEBUG " ++ r.source ++ ": " ++ r.message

end Record

inductive Event where
  | prompt
  | parsed (form : Value)
  | printed (line : String)
  | value (v : Value)
  | failed (fault : Fault)
  | crashed (fault : Fault)
  | leaving
  | fileFailed
  | logged (record : Record)

def Event.isCrash : Event → Bool
  | crashed _ => true
  | _ => false

/-- Whether a fault is reported. A fault that is not ends the program. -/
def Fault.isReported : Fault → Bool
  | reading .emptyName => false
  | reading (.tooManyDigits _) => false
  | evaluation .tooLarge => false
  | _ => true

def Fault.event (fault : Fault) : Event :=
  if fault.isReported then .failed fault else .crashed fault

end SmallLisp
