import SmallLisp.Limit
import SmallLisp.Text.Numeral
import SmallLisp.Text.Quoted

namespace SmallLisp

inductive Switch where
  | help
  | maxDepth
  | noColor
  | hideParsed
  | verbose
  | version
  deriving DecidableEq, Repr

structure Options where
  file : Option String
  maxDepth : Option LimitRequest
  noColor : Bool
  hideParsed : Bool
  verbose : Bool
  deriving DecidableEq, Repr

inductive UsageError where
  | ambiguous (word : String) (spellings : List String)
  | argumentMissing (switch : Switch)
  | argumentIgnored (switch : Switch) (argument : String)
  | notInteger (switch : Switch) (argument : String)
  | unrecognized (words : List String)
  deriving DecidableEq, Repr

inductive Exit where
  | help
  | version
  | usage (error : UsageError)
  deriving DecidableEq, Repr

namespace Switch

def spellings : List (String × Switch) := [
  ("-h", help), ("--help", help), ("--max-depth", maxDepth), ("--no-color", noColor),
  ("--hide-parsed", hideParsed), ("-v", verbose), ("--verbose", verbose), ("--version", version)]

def name (s : Switch) : String :=
  "/".intercalate ((spellings.filter fun p => p.2 == s).map (·.1))

def takesArgument : Switch → Bool
  | maxDepth => true
  | _ => false

end Switch

namespace UsageError

def message : UsageError → String
  | ambiguous word spellings =>
    "ambiguous option: " ++ word ++ " could match " ++ ", ".intercalate spellings
  | argumentMissing switch => "argument " ++ switch.name ++ ": expected one argument"
  | argumentIgnored switch argument =>
    "argument " ++ switch.name ++ ": ignored explicit argument " ++ Text.quoted argument
  | notInteger switch argument =>
    "argument " ++ switch.name ++ ": invalid int value: " ++ Text.quoted argument
  | unrecognized words => "unrecognized arguments: " ++ " ".intercalate words

end UsageError

/-- The part that a word plays on the command line. An option is short when it has one
dash, and can have an argument of its own in the same word. -/
inductive Role where
  | argument
  | separator
  | option (switch : Switch) (short : Bool) (inline : Option String)
  | unknown
  deriving DecidableEq, Repr

namespace CommandLine

def isNatural (s : List Char) : Bool :=
  !s.isEmpty && s.all fun c => (Text.digitValue? c).isSome

/-- Whether a word is a negative number, which is an argument and not an option. A
line feed may follow it. -/
def isNegativeNumber (word : List Char) : Bool :=
  match word with
  | '-' :: rest =>
    let number := if rest.getLast? = some '\n' then rest.dropLast else rest
    isNatural number ||
      match number.span (· ≠ '.') with
      | (whole, '.' :: fraction) => (whole.isEmpty || isNatural whole) && isNatural fraction
      | _ => false
  | _ => false

def splitEquals (word : List Char) : List Char × Option String :=
  match word.span (· ≠ '=') with
  | (front, '=' :: back) => (front, some (String.ofList back))
  | (front, _) => (front, none)

/-- The options that a word can stand for: one that it spells, one that it spells up to
an equals sign, all long ones that it abbreviates, or a short one that it begins
with. -/
def candidates (word : List Char) : List (String × Role) :=
  let (front, inline) := splitEquals word
  let isShort := fun (s : String) => !(s.startsWith "--")
  match Switch.spellings.find? (·.1 == String.ofList word) with
  | some (s, switch) => [(s, .option switch (isShort s) none)]
  | none =>
    match inline.bind fun _ => Switch.spellings.find? (·.1 == String.ofList front) with
    | some (s, switch) => [(s, .option switch (isShort s) inline)]
    | none =>
      if word.take 2 = ['-', '-'] then
        (Switch.spellings.filter fun p => front.isPrefixOf p.1.toList).map fun p =>
          (p.1, .option p.2 false inline)
      else
        (Switch.spellings.filter fun p => p.1.toList == word.take 2).map fun p =>
          (p.1, .option p.2 true (some (String.ofList (word.drop 2))))

def roleOf (word : String) : Except UsageError Role :=
  let chars := word.toList
  if chars.head? ≠ some '-' ∨ chars = ['-'] then .ok .argument
  else
    match candidates chars with
    | [(_, role)] => .ok role
    | [] => .ok (if isNegativeNumber chars || chars.contains ' ' then .argument else .unknown)
    | many => .error (.ambiguous word (many.map (·.1)))

/-- The parts of all words. Behind a separator there are arguments only. -/
def roles : List String → Except UsageError (List (String × Role))
  | [] => .ok []
  | "--" :: rest => .ok (("--", .separator) :: rest.map fun word => (word, .argument))
  | word :: rest => do
    let role ← roleOf word
    return (word, role) :: (← roles rest)

/-- The switches of a word of short options, of which `argument` is still to be read,
and the argument that is left for the last of them. -/
def cluster (switch : Switch) (short : Bool) (argument : List Char) :
    Except UsageError (List Switch × Option String) :=
  if switch.takesArgument then .ok ([switch], some (String.ofList argument))
  else if !short then .error (.argumentIgnored switch (String.ofList argument))
  else
    match argument with
    | [] => .error (.argumentIgnored switch "")
    | c :: rest =>
      match Switch.spellings.lookup (String.ofList ['-', c]) with
      | none => .error (.argumentIgnored switch (String.ofList (c :: rest)))
      | some next =>
        if rest.isEmpty then .ok ([switch, next], none)
        else do
          let (switches, left) ← cluster next true rest
          return (switch :: switches, left)

/-- What has been read of a command line. The words that have no place are kept in
reverse. -/
structure Progress where
  options : Options
  fileDone : Bool
  extra : List String

def Progress.start : Progress := ⟨⟨none, none, false, false, false⟩, false, []⟩

/-- The limit that an argument asks for. A separator is taken out of the arguments, so
that a lone one leaves an empty request. -/
def limitRequest? (argument : String) : Option LimitRequest :=
  if argument = "--" then some .empty else (Text.integer? argument).map .number

def Progress.switchOn (p : Progress) (switch : Switch) (argument : Option String) :
    Except Exit Progress :=
  match switch with
  | .help => .error .help
  | .version => .error .version
  | .noColor => .ok { p with options := { p.options with noColor := true } }
  | .hideParsed => .ok { p with options := { p.options with hideParsed := true } }
  | .verbose => .ok { p with options := { p.options with verbose := true } }
  | .maxDepth =>
    match argument with
    | none => .error (.usage (.argumentMissing switch))
    | some raw =>
      match limitRequest? raw with
      | some request => .ok { p with options := { p.options with maxDepth := some request } }
      | none => .error (.usage (.notInteger switch raw))

def Progress.switchAll (p : Progress) : List Switch → Option String → Except Exit Progress
  | [], _ => .ok p
  | [last], argument => p.switchOn last argument
  | switch :: rest, argument => do (← p.switchOn switch none).switchAll rest argument

def Progress.setFile (p : Progress) (file : Option String) : Progress :=
  ⟨{ p.options with file }, true, p.extra⟩

def Progress.leave (p : Progress) (words : List String) : Progress :=
  { p with extra := words.reverse ++ p.extra }

/-- Reads words by their parts, from left to right. The first argument is the file, and
takes a separator next to it along. -/
def read (p : Progress) : List (String × Role) → Except Exit Progress
  | [] => .ok p
  | (word, .unknown) :: rest => read (p.leave [word]) rest
  | (_, .option switch short (some inline)) :: rest =>
    match cluster switch short inline.toList with
    | .error e => .error (.usage e)
    | .ok (switches, argument) => do read (← p.switchAll switches argument) rest
  | (_, .option switch _ none) :: rest =>
    if switch.takesArgument then
      match rest with
      | (argument, .argument) :: rest => do read (← p.switchOn switch (some argument)) rest
      | _ => .error (.usage (.argumentMissing switch))
    else do read (← p.switchOn switch none) rest
  | (word, .argument) :: (_, .separator) :: rest =>
    if p.fileDone then .ok (p.leave (word :: "--" :: rest.map (·.1)))
    else .ok ((p.setFile (some word)).leave (rest.map (·.1)))
  | (word, .argument) :: rest =>
    if p.fileDone then read (p.leave [word]) rest else read (p.setFile (some word)) rest
  | (_, .separator) :: rest =>
    if p.fileDone then .ok (p.leave ("--" :: rest.map (·.1)))
    else .ok ((p.setFile (rest.head?.map (·.1))).leave (rest.tail.map (·.1)))

/-- Reads a command line. Words are acted on from left to right, so that a request for
help counts if no fault stands before it. Words without a place are reported last. -/
def parse (words : List String) : Except Exit Options :=
  match roles words with
  | .error e => .error (.usage e)
  | .ok found => do
    let p ← read Progress.start found
    if p.extra.isEmpty then return p.options
    else throw (.usage (.unrecognized p.extra.reverse))

def usageText : String :=
  "usage: tern [-h] [--max-depth MAX_DEPTH] [--no-color] [--hide-parsed] [-v]\n" ++
  "            [--version]\n" ++
  "            [file]\n"

def helpText : String :=
  usageText ++ "\n" ++
  "A small Lisp interpreter.\n\n" ++
  "positional arguments:\n" ++
  "  file                  script to run (if omitted, start the REPL)\n\n" ++
  "options:\n" ++
  "  -h, --help            show this help message and exit\n" ++
  "  --max-depth MAX_DEPTH\n" ++
  "                        maximum evaluation nesting depth\n" ++
  "  --no-color            disable colored output\n" ++
  "  --hide-parsed         do not echo each parsed form in the REPL\n" ++
  "  -v, --verbose         enable debug logging\n" ++
  "  --version             show program's version number and exit\n"

def versionText : String := "tern 0.3.0\n"

end CommandLine

namespace Exit

def status : Exit → Nat
  | usage _ => 2
  | _ => 0

def output : Exit → String
  | help => CommandLine.helpText
  | version => CommandLine.versionText
  | usage _ => ""

def errors : Exit → String
  | usage e => CommandLine.usageText ++ "tern: error: " ++ e.message ++ "\n"
  | _ => ""

end Exit

end SmallLisp
