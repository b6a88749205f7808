import SmallLisp.CommandLine
import SmallLisp.Dialogue
import SmallLisp.Settings
import SmallLisp.View

namespace SmallLisp

inductive Refusal where
  | settings (error : SettingsError)
  | logLevel (name : String)
  | historyLength
  | limit (error : LimitError)
  | nullInPath
  deriving DecidableEq, Repr

def Refusal.message : Refusal → String
  | settings error => error.message
  | logLevel name => "Unknown level: " ++ Text.quoted name
  | historyLength => "Python int too large to convert to C int"
  | limit error => error.message
  | nullInPath => "embedded null byte"

inductive Ending where
  | finished (succeeded : Bool)
  | exited (exit : Exit)
  | refused (refusal : Refusal)

namespace Command

/-- The names of log levels, with whether they let everything through. -/
def logLevels : List (String × Bool) := [
  ("CRITICAL", false), ("FATAL", false), ("ERROR", false), ("WARN", false), ("WARNING", false),
  ("INFO", false), ("DEBUG", true), ("NOTSET", true)]

def adjust (options : Options) (settings : Settings) : Settings :=
  { settings with
    maxDepth := options.maxDepth.getD settings.maxDepth
    color := settings.color && !options.noColor
    showParsed := settings.showParsed && !options.hideParsed
    logLevel := if options.verbose then "DEBUG" else settings.logLevel }

def dialogueView (settings : Settings) (showLog : Bool) : View :=
  { ink := ⟨settings.color⟩
    showParsed := settings.showParsed
    showValue := true
    showPrompt := true
    showLog }

def scriptView (color showLog : Bool) : View :=
  { ink := ⟨color⟩
    showParsed := false
    showValue := false
    showPrompt := false
    showLog }

def runScript (readFile : String → Except FileFault String) (path : String)
    (maxDepth : LimitRequest) : List Event × Ending :=
  if path.toList.contains '\x00' then ([], .refused .nullInPath)
  else
    match readFile path with
    | .error fault => ([.logged (.unreadable path fault), .fileFailed], .finished false)
    | .ok text =>
      let running := Event.logged (.running path text.length)
      match Limit.grant maxDepth with
      | .error e => ([running], .refused (.limit e))
      | .ok limit =>
        let (events, succeeded, _) := Session.fresh.enter limit text
        (running :: .logged (.ready limit) :: events, .finished succeeded)

/-- The limit for a dialogue. Its history has to have a length of 32 bits. -/
def dialogueLimit (settings : Settings) : Except Refusal Nat :=
  if settings.historyLength < -0x80000000 ∨ 0x7fffffff < settings.historyLength then
    .error .historyLength
  else (Limit.grant settings.maxDepth).mapError .limit

def runDialogue (entries : List Entry) (settings : Settings) : List Event × Ending :=
  match dialogueLimit settings with
  | .error refusal => ([], .refused refusal)
  | .ok limit =>
    let events := (Session.fresh.converse limit entries).1
    (.logged (.ready limit) :: events, .finished !(events.any Event.isCrash))

structure Plan where
  file : Option String
  settings : Settings
  showLog : Bool

def Plan.view (p : Plan) : View :=
  match p.file with
  | some _ => scriptView p.settings.color p.showLog
  | none => dialogueView p.settings p.showLog

/-- The command line is read first, then the settings, and the log level is looked at
last. -/
def plan (words : List String) (surroundings : Surroundings) : Except Ending Plan := do
  let options ← (CommandLine.parse words).mapError .exited
  let settings ← (Settings.ofSurroundings surroundings).mapError fun e => .refused (.settings e)
  let settings := adjust options settings
  match logLevels.lookup settings.logLevel with
  | none => throw (.refused (.logLevel settings.logLevel))
  | some showLog => return ⟨options.file, settings, showLog⟩

def Plan.run (readFile : String → Except FileFault String) (entries : List Entry) (p : Plan) :
    List Event × Ending :=
  match p.file with
  | some path => runScript readFile path p.settings.maxDepth
  | none => runDialogue entries p.settings

structure Report where
  output : String
  errors : String
  ending : Ending

def run (words : List String) (surroundings : Surroundings)
    (readFile : String → Except FileFault String) (entries : List Entry) : Report :=
  match plan words surroundings with
  | .error (.exited exit) => ⟨exit.output, exit.errors, .exited exit⟩
  | .error ending => ⟨"", "", ending⟩
  | .ok p =>
    let (events, ending) := p.run readFile entries
    ⟨p.view.outputAll events, p.view.errorsAll events, ending⟩

end Command

end SmallLisp
