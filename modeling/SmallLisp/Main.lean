import SmallLisp.Command

namespace SmallLisp

def errorNumber (n : UInt32) : UInt32 := if n ≤ 0xFFFF then n else 0 - n

def FileFault.ofError (path : String) : IO.Error → FileFault
  | .inappropriateType _ n _ => if errorNumber n = 20 then .notDirectory path else .directory path
  | .invalidArgument _ n _ => if errorNumber n = 36 then .nameTooLong path else .missing path
  | .permissionDenied .. => .denied path
  | _ => .missing path

def loadScript (path : String) : IO (Except FileFault String) := do
  let name := Path.normalize path
  try
    let bytes ← IO.FS.readBinFile name
    return match Text.decodeUtf8 bytes.toList with
      | .ok text => .ok (Text.unifyLineEnds text)
      | .error fault => .error (.malformed fault)
  catch e => return .error (FileFault.ofError name e)

def lookAround : IO Surroundings := do
  let mut vars := []
  for name in Settings.names do
    if let some raw ← IO.getEnv name then vars := (name, raw) :: vars
  let home := (← IO.getEnv "HOME").getD "/"
  return ⟨vars, [("", home)], ← (← IO.getStdout).isTty⟩

def present (view : View) (events : List Event) : IO Unit := do
  IO.print (view.outputAll events)
  (← IO.getStdout).flush
  IO.eprint (view.errorsAll events)

/-- Answers line after line, up to the end of the input. Whether it gets there is the
result. -/
partial def talk (view : View) (limit : Nat) (s : Session) : IO Bool := do
  present view [.prompt]
  let line ← (← IO.getStdin).getLine
  if line.isEmpty then
    present view [.leaving]
    return true
  else
    let (events, t) := s.respond limit line
    present view events
    if events.any Event.isCrash then return false else talk view limit t

def exitStatus : Ending → IO UInt32
  | .finished succeeded => return if succeeded then 0 else 1
  | .exited exit => return exit.status.toUInt32
  | .refused refusal => do
    IO.eprintln refusal.message
    return 1

def runPlan (plan : Command.Plan) : IO UInt32 := do
  match plan.file with
  | some path =>
    let text ← loadScript path
    let (events, ending) := Command.runScript (fun _ => text) path plan.settings.maxDepth
    present plan.view events
    exitStatus ending
  | none =>
    match Command.dialogueLimit plan.settings with
    | .error refusal => exitStatus (.refused refusal)
    | .ok limit =>
      present plan.view [.logged (.ready limit)]
      exitStatus (.finished (← talk plan.view limit Session.fresh))

end SmallLisp

open SmallLisp

def main (words : List String) : IO UInt32 := do
  match Command.plan words (← lookAround) with
  | .ok plan => runPlan plan
  | .error ending =>
    if let .exited exit := ending then
      IO.print exit.output
      IO.eprint exit.errors
    exitStatus ending
