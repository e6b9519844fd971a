import FlagStack.CommandLine

/-!
# The program

Reads the config file, runs the command, and does what the command says.
-/

namespace FlagStack

/-- Number of an error, which may be given as its two's complement, and its
text. -/
def errorCode? : IO.Error → Option (UInt32 × String)
  | .noFileOrDirectory _ code text | .permissionDenied _ code text
  | .inappropriateType _ code text | .invalidArgument _ code text
  | .resourceExhausted _ code text | .alreadyExists _ code text
  | .noSuchThing _ code text | .interrupted _ code text
  | .resourceBusy code text | .resourceVanished code text
  | .unsupportedOperation code text | .hardwareFault code text
  | .unsatisfiedConstraints code text | .illegalOperation code text
  | .protocolError code text | .timeExpired code text
  | .otherError code text => some (code, text)
  | .unexpectedEof | .userError _ => none

def FileFault.ofError (e : IO.Error) : FileFault :=
  match errorCode? e with
  | some (code, text) =>
      FileFault.ofCode (if code < 0x80000000 then code else -code).toNat text
  | none => .other 5 (toString e)

/-- An action on files, its error caught. -/
def attempt {α : Type} (action : IO α) : IO (Except FileFault α) := do
  try
    return .ok (← action)
  catch e =>
    return .error (FileFault.ofError e)

/-- Runs a command. -/
def perform (command : Command) : IO Outcome := do
  let content ←
    match command.input? with
    | some path => attempt (IO.FS.readBinFile path)
    | none => pure (.error .absent)
  let result := command.run content (← IO.getEnv stackNameVariable)
  match Command.output? result with
  | some (path, text) => return .ofRun result (← attempt (IO.FS.writeFile path text))
  | none => return .ofRun result (.ok ())

end FlagStack

def main (arguments : List String) : IO UInt32 := do
  let outcome ←
    match FlagStack.Command.ofArguments arguments with
    | some command => FlagStack.perform command
    | none => pure FlagStack.Outcome.misuse
  IO.print outcome.stdout
  IO.eprint outcome.stderr
  return outcome.code.toUInt32
