import SmallLisp.Cursor
import SmallLisp.SpecialForm
import SmallLisp.Token

namespace SmallLisp.Program

def sequence (forms : List Value) : Value := .list (.sym SpecialForm.sequenceSymbol :: forms)

def ofTokens (limit : Nat) (tokens : List String) : Except ReadError Value :=
  ((Cursor.ofTokens tokens).readAll limit).1.map sequence

def read (limit : Nat) (text : String) : Except ReadError Value :=
  ofTokens limit (Token.tokenize text)

end SmallLisp.Program
