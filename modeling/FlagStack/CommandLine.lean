import FlagStack.Loading
import FlagStack.Shape.Schema

/-!
# The command line

Three commands: `synth` writes the template of a config file, `check` says
whether the file has one, and `schema` writes the schema of config files.

What a command does to the outside is a value, computed from what the outside
gives: the content of the config file and the override of the stack name.
A command that fails writes nothing but its report.
-/

namespace FlagStack

inductive Command where
  | synth (config : String) (out : Option String) (options : Synthesis.Options)
  | check (config : String) (strict : Bool)
  | schema
deriving DecidableEq

/-- What a command does when it succeeds. -/
inductive Effect where
  | print (text : String)
  | save (path text : String)
deriving DecidableEq

/-- Exit code and what is printed. -/
structure Outcome where
  code : Nat
  stdout : String
  stderr : String
deriving DecidableEq

/-- The environment variable that overrides the name of the stack. -/
def stackNameVariable : String := "EVCTL_STACK_NAME"

namespace Arguments

/-- Arguments read so far, each of them given once at most. -/
structure Seen where
  config : Option String
  out : Option String
  strict : Bool
  outputs : Bool

def Seen.nothing : Seen := ⟨none, none, false, false⟩

def Seen.setConfig (seen : Seen) (path : String) : Option Seen :=
  if seen.config.isSome || path.isEmpty then none else some { seen with config := some path }

def Seen.setOut (seen : Seen) (path : String) : Option Seen :=
  if seen.out.isSome || path.isEmpty then none else some { seen with out := some path }

/-- An argument that is an option and not a value. -/
def isOption (argument : String) : Bool :=
  argument.toList.head? == some '-' && argument != "-"

/-- What follows a prefix of an argument. -/
def after? (lead argument : String) : Option String :=
  if lead.toList.isPrefixOf argument.toList then
    some (String.ofList (argument.toList.drop lead.length))
  else none

/-- The value that is written in one argument with its option. -/
def attachedOut? (argument : String) : Option String :=
  (after? "--out=" argument).or <| (after? "-o=" argument).or <| after? "-o" argument

/-- Reads arguments; behind `--` all of them are values. -/
def readFrom (withOutput : Bool) : List String → Seen → Option Seen
  | [], seen => some seen
  | ["--"], seen => some seen
  | argument :: rest, seen =>
      if argument = "--" then rest.foldlM Seen.setConfig seen
      else if !isOption argument then do readFrom withOutput rest (← seen.setConfig argument)
      else if argument = "--strict" then
        if seen.strict then none else readFrom withOutput rest { seen with strict := true }
      else if !withOutput then none
      else if argument = "--outputs" then
        if seen.outputs then none else readFrom withOutput rest { seen with outputs := true }
      else if argument = "--out" ∨ argument = "-o" then
        match rest with
        | path :: rest =>
            if isOption path then none else do readFrom withOutput rest (← seen.setOut path)
        | [] => none
      else do readFrom withOutput rest (← seen.setOut (← attachedOut? argument))

end Arguments

namespace Command

/-- The command that arguments spell, if they spell one. -/
def ofArguments : List String → Option Command
  | "synth" :: rest => do
      let seen ← Arguments.readFrom true rest .nothing
      return .synth (← seen.config) seen.out ⟨seen.strict, seen.outputs⟩
  | "check" :: rest => do
      let seen ← Arguments.readFrom false rest .nothing
      return .check (← seen.config) seen.strict
  | ["schema"] => some .schema
  | ["schema", "--"] => some .schema
  | _ => none

/-- The file that a command reads. -/
def input? : Command → Option String
  | .synth config .. => some config
  | .check config _ => some config
  | .schema => none

/-- Runs a command on the content of its config file.  A failure is given with
its causes, the outermost first. -/
def run (content : Except FileFault ByteArray) (stackName : Option String) :
    Command → Except (List String) Effect
  | .synth path out options => do
      let config ← (Config.load path content stackName).mapError LoadError.chain
      let stack ← (config.synthesize options).mapError
        fun e => s!"Failed to synthesize {path}" :: e.chain
      match out with
      | some target => return .save target stack.templateText
      | none => return .print (stack.templateText ++ "\n")
  | .check path strict => do
      let config ← (Config.load path content stackName).mapError LoadError.chain
      let stack ← (config.synthesize ⟨strict, false⟩).mapError
        fun e => s!"{path} is invalid" :: e.chain
      return .print s!"{path}: ok ({stack.size} resources)\n"
  | .schema => return .print (Config.shape.schemaDocument.pretty ++ "\n")

/-- The file that a result leaves to be written, and its text. -/
def output? : Except (List String) Effect → Option (String × String)
  | .ok (.save path text) => some (path, text)
  | _ => none

end Command

namespace Outcome

/-- A text with its lines after the first indented. -/
def indented (width : Nat) (s : String) : String :=
  String.ofList <| s.toList.flatMap fun c =>
    if c = '\n' then '\n' :: List.replicate width ' ' else [c]

/-- The causes of a failure: numbered from zero if there are several. -/
def causes : List String → List String
  | [cause] => ["    " ++ indented 4 cause]
  | several =>
      several.zipIdx.map fun (cause, i) =>
        let number := toString i
        String.ofList (List.replicate (5 - number.length) ' ') ++ number ++ ": " ++
          indented 7 cause

/-- The report of a failure. -/
def report : List String → String
  | [] => "Error: \n"
  | [message] => s!"Error: {message}\n"
  | message :: rest =>
      "\n".intercalate (s!"Error: {message}" :: "" :: "Caused by:" :: causes rest) ++ "\n"

def failure (chain : List String) : Outcome :=
  ⟨1, "", report chain⟩

/-- The outcome of a command, by what saving its file gave where it saves one. -/
def ofRun (result : Except (List String) Effect) (saved : Except FileFault Unit) : Outcome :=
  match result with
  | .error chain => failure chain
  | .ok (.print text) => ⟨0, text, ""⟩
  | .ok (.save path _) =>
      match saved with
      | .ok () => ⟨0, "", ""⟩
      | .error fault => failure [s!"Failed to write {path}", fault.message]

/-- The outcome for arguments that spell no command. -/
def misuse : Outcome :=
  ⟨2, "", "usage: evctl synth CONFIG [--out PATH] [--strict] [--outputs]\n" ++
    "       evctl check CONFIG [--strict]\n       evctl schema\n"⟩

end Outcome
end FlagStack
