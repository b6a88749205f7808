import SmallLisp.Event
import SmallLisp.Ink

namespace SmallLisp

structure View where
  ink : Ink
  showParsed : Bool
  showValue : Bool
  showPrompt : Bool
  showLog : Bool

namespace View

def prompt (view : View) : String := view.ink.heading "tern> " Ink.plain

def output (view : View) : Event → String
  | .prompt => if view.showPrompt then view.prompt else ""
  | .parsed form =>
    if view.showParsed then
      view.ink.heading "Parsed form:" Ink.green ++ " " ++ form.display ++ "\n"
    else ""
  | .printed line => line ++ "\n"
  | .value v =>
    if view.showValue then
      view.ink.heading "Evaluation:" Ink.green ++ " " ++ v.display ++ "\n"
    else ""
  | .leaving => "\n" ++ view.ink.heading "Exiting" Ink.plain ++ "\n"
  | _ => ""

def errors (view : View) : Event → String
  | .failed (.reading e) => view.ink.complaint "Reading error:" e.message ++ "\n"
  | .failed (.evaluation e) => view.ink.complaint "Evaluation error:" e.message ++ "\n"
  | .crashed fault => fault.message ++ "\n"
  | .fileFailed => "Failed to read file\n"
  | .logged record => if view.showLog then record.text ++ "\n" else ""
  | _ => ""

def outputAll (view : View) (events : List Event) : String :=
  String.join (events.map view.output)

def errorsAll (view : View) (events : List Event) : String :=
  String.join (events.map view.errors)

end View

end SmallLisp
