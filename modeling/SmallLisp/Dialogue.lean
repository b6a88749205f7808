import SmallLisp.Event

namespace SmallLisp

inductive Entry where
  | line (text : String)
  | interrupt

namespace Session

def evaluateEvents (limit : Nat) (form : Value) (s : Session) : List Event × Bool × Session :=
  let (reply, t) := s.evaluate limit form
  let lines := reply.printed.toList.map .printed
  match reply.result with
  | .ok v => (lines ++ [.value v], true, t)
  | .error fault =>
    (lines ++ [.logged (.restoring s.bindings.length), fault.event], false, t)

def enter (limit : Nat) (text : String) (s : Session) : List Event × Bool × Session :=
  let tokens := Token.tokenize text
  match Program.ofTokens limit tokens with
  | .error e => ([.logged (.tokens tokens), (Fault.reading e).event], false, s)
  | .ok form =>
    let (events, succeeded, t) := s.evaluateEvents limit form
    (.logged (.tokens tokens) :: .parsed form :: events, succeeded, t)

/-- The events of one line. Blank lines are passed over, and the white space around
others is dropped. -/
def respond (limit : Nat) (line : String) (s : Session) : List Event × Session :=
  if Text.allBlank line then ([], s)
  else
    let (events, _, t) := s.enter limit (Text.trim line)
    (events, t)

/-- Asks for lines until there are none, or the user interrupts, or a line makes the
program crash. -/
def converse (limit : Nat) : List Entry → Session → List Event × Session
  | .line text :: rest, s =>
    let (events, t) := s.respond limit text
    if events.any Event.isCrash then (.prompt :: events, t)
    else
      let (later, u) := converse limit rest t
      (.prompt :: (events ++ later), u)
  | _, s => ([.prompt, .leaving], s)

end Session

end SmallLisp
