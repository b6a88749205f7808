import SmallLisp.Limit
import SmallLisp.Path
import SmallLisp.Text.Numeral
import SmallLisp.Text.Quoted
import SmallLisp.Text.Upper

namespace SmallLisp

/-- What the program can find out about where it runs: the variables, the home
directories of users, with the current user under the empty name, and whether the
standard output is a terminal. -/
structure Surroundings where
  vars : List (String × String)
  homes : List (String × String)
  terminal : Bool

inductive SettingsError where
  | notInteger (name raw : String)
  | notBoolean (raw : String)
  | homeUnknown
  deriving DecidableEq, Repr

def SettingsError.message : SettingsError → String
  | notInteger name raw => name ++ " must be an integer, got " ++ Text.quoted raw
  | notBoolean raw => "Expected a boolean setting, got " ++ Text.quoted raw
  | homeUnknown => "Could not determine home directory."

structure Settings where
  historyFile : String
  historyLength : Int
  maxDepth : LimitRequest
  color : Bool
  showParsed : Bool
  logLevel : String
  deriving DecidableEq, Repr

namespace Settings

def names : List String := [
  "TERN_HISTORY_FILE", "TERN_HISTORY_LENGTH", "TERN_MAX_DEPTH", "TERN_COLOR", "TERN_SHOW_PARSED",
  "TERN_LOG_LEVEL", "NO_COLOR"]

def given? (s : Surroundings) (name : String) : Option String :=
  (s.vars.lookup name).filter fun raw => !Text.allBlank raw

def integer (s : Surroundings) (name : String) (default : Int) : Except SettingsError Int :=
  match given? s name with
  | none => .ok default
  | some raw =>
    match Text.integer? raw with
    | some n => .ok n
    | none => .error (.notInteger name raw)

def flag (s : Surroundings) (name : String) (default : Bool) : Except SettingsError Bool :=
  match given? s name with
  | none => .ok default
  | some raw =>
    let word := String.ofList ((Text.trim raw).toList.map Char.toLower)
    if ["1", "true", "yes", "on"].contains word then .ok true
    else if ["0", "false", "no", "off"].contains word then .ok false
    else .error (.notBoolean raw)

def expandHome (s : Surroundings) (path : String) : Except SettingsError String :=
  match Path.homeOwner? path with
  | none => .ok (Path.normalize path)
  | some user =>
    match s.homes.lookup user with
    | some home => .ok (Path.replaceFirst path home)
    | none => .error .homeUnknown

def defaultHistoryFile (s : Surroundings) : String :=
  Path.normalize ((s.homes.lookup "").getD "" ++ "/.tern_history")

def historyPath (s : Surroundings) : Except SettingsError String :=
  match s.vars.lookup "TERN_HISTORY_FILE" with
  | none | some "" => .ok (defaultHistoryFile s)
  | some path => expandHome s path

/-- Colors are for terminals, unless a variable asks for none. -/
def defaultColor (s : Surroundings) : Bool :=
  s.terminal && (s.vars.lookup "NO_COLOR").isNone

def ofSurroundings (s : Surroundings) : Except SettingsError Settings := do
  let historyFile ← historyPath s
  let historyLength ← integer s "TERN_HISTORY_LENGTH" 1000
  let maxDepth ← integer s "TERN_MAX_DEPTH" Limit.standard
  let color ← flag s "TERN_COLOR" (defaultColor s)
  let showParsed ← flag s "TERN_SHOW_PARSED" true
  let logLevel := Text.upper ((s.vars.lookup "TERN_LOG_LEVEL").getD "WARNING")
  return { historyFile, historyLength, maxDepth := .number maxDepth, color, showParsed, logLevel }

end Settings

end SmallLisp
