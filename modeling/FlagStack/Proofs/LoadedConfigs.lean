import FlagStack.Loading
import FlagStack.Proofs.SynthesisVerdict

/-!
# Configs that have been loaded

A config is loaded from a file that holds a valid one.  All of it is what the file
says, but for the name of the stack where another one is given from outside.

That name is given after the check, so the check says nothing of it: a name without a
character other than blanks makes a config that is loaded and is not valid.  Every
other name makes a valid one.

**Results.**
* `load_eq_ok_iff`: which configs are loaded from which files.
* `check_renamed`: what another name does to a valid config.
* `load_keeps_all_but_name`: what a loaded config has of its file, and what its check
  gives.
* `blank_name_loaded`: a config that is loaded and not valid.
-/

namespace FlagStack
namespace Config

/-- The config with the name that is given from outside, if one is. -/
def renamed (c : Config) (stackName : Option String) : Config :=
  { c with stackName := stackName.getD c.stackName }

/-- The content of a file is the text of a config, which is valid. -/
def IsHeldBy (c : Config) (content : Except FileFault ByteArray) : Prop :=
  ∃ bytes text, content = .ok bytes ∧ String.fromUTF8? bytes = some text ∧ decode text = .ok c

variable {path : String} {content : Except FileFault ByteArray} {stackName : Option String}
  {c file : Config}

/-- A file holds one config at most. -/
theorem IsHeldBy.unique
    {other : Config} (h : file.IsHeldBy content) (h' : other.IsHeldBy content) :
    file = other := by
  obtain ⟨bytes, text, rfl, htext, hread⟩ := h
  obtain ⟨bytes', text', hbytes, htext', hread'⟩ := h'
  cases hbytes
  obtain rfl : text = text' := Option.some.inj (htext.symm.trans htext')
  exact Except.ok.inj (hread.symm.trans hread')

/-- What is decoded has been checked. -/
theorem check_of_decode
    {text : String} (h : decode text = .ok c) :
    c.check = .ok () := by
  obtain ⟨read, -, hread⟩ := bind_eq_ok_iff.1 h
  obtain ⟨u, hcheck, hc⟩ := bind_eq_ok_iff.1 hread
  cases hc
  exact mapError_eq_ok_iff.1 hcheck

theorem load_eq_ok_iff :
    load path content stackName = .ok c ↔
      ∃ file : Config, file.IsHeldBy content ∧ c = file.renamed stackName := by
  rw [load, bind_eq_ok_iff]
  constructor
  · rintro ⟨bytes, hbytes, h⟩
    cases htext : String.fromUTF8? bytes with
    | none =>
        rw [htext] at h
        cases h
    | some text =>
        rw [htext] at h
        obtain ⟨file, hfile, hc⟩ := bind_eq_ok_iff.1 h
        cases hc
        exact ⟨file, ⟨bytes, text, mapError_eq_ok_iff.1 hbytes, htext,
          mapError_eq_ok_iff.1 hfile⟩, rfl⟩
  · rintro ⟨file, ⟨bytes, text, rfl, htext, hfile⟩, rfl⟩
    refine ⟨bytes, rfl, ?_⟩
    simp only [htext, hfile]
    rfl

/-- Of a valid config that is given another name only the name can be at fault. -/
theorem check_renamed
    (h : file.check = .ok ()) (stackName : Option String) :
    (file.renamed stackName).check =
      if stackName.any Text.allBlank then .error .blankStackName else .ok () := by
  obtain ⟨hname, henvironment⟩ := check_eq_ok_iff.1 h
  have hsame : file.account.isSome = file.region.isSome := Bool.eq_iff_iff.2 henvironment
  cases stackName with
  | none => simpa [renamed] using h
  | some name => simp [renamed, check, hsame]

/-- A config that has been loaded is the one that the file holds, under the name that
is given from outside if one is.  It is valid unless that name is blank. -/
theorem load_keeps_all_but_name
    (h : load path content stackName = .ok c) :
    ∃ bytes text file, content = .ok bytes ∧ String.fromUTF8? bytes = some text ∧
      decode text = .ok file ∧ c = { file with stackName := stackName.getD file.stackName } ∧
      c.check = if stackName.any Text.allBlank then .error .blankStackName else .ok () := by
  obtain ⟨file, ⟨bytes, text, hbytes, htext, hread⟩, rfl⟩ := load_eq_ok_iff.1 h
  have hcheck := check_renamed (check_of_decode hread) stackName
  exact ⟨bytes, text, file, hbytes, htext, hread, rfl, hcheck⟩

/-- A config with a name and nothing else. -/
def onlyName (name : String) : Config :=
  ⟨name, none, none, [], [], [], []⟩

/-- The file of such a config. -/
def onlyNameFile : Except FileFault ByteArray :=
  .ok "\x7b\"stackName\":\"x\"\x7d".toUTF8

theorem onlyName_loaded :
    load "app.json" onlyNameFile (some "live") = .ok (onlyName "live") ∧
      (onlyName "live").check = .ok () := by
  have hload : load "app.json" onlyNameFile (some "live") = .ok (onlyName "live") := by
    decide +kernel
  obtain ⟨-, -, -, -, -, -, -, hcheck⟩ := load_keeps_all_but_name hload
  exact ⟨hload, hcheck⟩

/-- What has been loaded need not be valid: a blank name is not looked at. -/
theorem blank_name_loaded :
    load "app.json" onlyNameFile (some "") = .ok (onlyName "") ∧
      (onlyName "").check = .error .blankStackName := by
  decide +kernel

end Config
end FlagStack
