import FlagStack.Synthesis

/-!
# Loading config files

A config is loaded from the bytes of a file.  The name of its stack can be
overridden from outside; the override takes the place of the name in the file
after the file has been found valid, and is not looked at itself.
-/

namespace FlagStack

/-- Why a file cannot be read or written. -/
inductive FileFault where
  | absent
  | denied
  /-- A part of the path that is not the last is no directory. -/
  | notDirectory
  | directory
  | nameTooLong
  | other (code : Nat) (reason : String)
deriving DecidableEq

namespace FileFault

/-- The number by which the operating system knows the fault. -/
def code : FileFault → Nat
  | .absent => 2
  | .denied => 13
  | .notDirectory => 20
  | .directory => 21
  | .nameTooLong => 36
  | .other code _ => code

def reason : FileFault → String
  | .absent => "No such file or directory"
  | .denied => "Permission denied"
  | .notDirectory => "Not a directory"
  | .directory => "Is a directory"
  | .nameTooLong => "File name too long"
  | .other _ reason => reason

/-- The fault with a given number, and what the operating system says of it. -/
def ofCode (code : Nat) (reason : String) : FileFault :=
  ([absent, denied, notDirectory, directory, nameTooLong].find? (·.code == code)).getD
    (other code reason)

def message (fault : FileFault) : String :=
  s!"{fault.reason} (os error {fault.code})"

end FileFault

/-- Why a config cannot be loaded. -/
inductive LoadError where
  | unreadable (path : String) (fault : FileFault)
  | notText (path : String)
  | malformed (path : String) (error : Error)
deriving DecidableEq

namespace LoadError

/-- The error and what caused it, the outermost first. -/
def chain : LoadError → List String
  | .unreadable path fault => [s!"Failed to read config file {path}", fault.message]
  | .notText path =>
      [s!"Failed to read config file {path}", "stream did not contain valid UTF-8"]
  | .malformed path error => s!"Failed to parse config file {path}" :: error.chain

end LoadError

namespace Config

/-- The config of a file, by its path and what reading it gave. -/
def load (path : String) (content : Except FileFault ByteArray) (stackName : Option String) :
    Except LoadError Config := do
  let bytes ← content.mapError (.unreadable path)
  match String.fromUTF8? bytes with
  | none => throw (.notText path)
  | some text =>
      let c ← (decode text).mapError (.malformed path)
      return { c with stackName := stackName.getD c.stackName }

end Config
end FlagStack
