import FlagStack.CommandLine
import FlagStack.Proofs.SynthesisEquation
import FlagStack.Proofs.TemplateAccess

/-!
# Two commands, one verdict

The command that checks a config file and the command that writes its template do
not run synthesis under the same options: only the second may ask for outputs.
Outputs come last in synthesis and cannot fail, so the commands agree on every
file: both succeed, and the number that the first reports is the number of records
in the template of the second; or both fail for the same reason, and then nothing
is written.

The reason is a chain of causes.  A file that cannot be loaded has one for both
commands.  A config that cannot be synthesized has one error under every option on
outputs, and each command puts a message of its own before the chain of that error.

**Results.**
* `error_or_size`: options on outputs change neither the error nor the number of records.
* `fails_of_run`: what shows outside of a run that ends with a chain of causes.
* `run_check_of_load`, `run_synth_of_load`: the commands by the outcome of synthesis.
* `check_agrees_with_synth`: the commands agree.
-/

namespace FlagStack

namespace Config

open Synthesis

/-- Under both options on outputs synthesis fails with the same error, or gives as
many records. -/
theorem error_or_size
    (c : Config) (strict : Bool) :
    (∃ e, ∀ outputs, c.synthesize ⟨strict, outputs⟩ = .error e) ∨
      ∃ n, ∀ outputs, ∃ s, c.synthesize ⟨strict, outputs⟩ = .ok s ∧ s.size = n := by
  rcases c.error_or_filled alphanumeric_ofText strict with
      ⟨e, he⟩ | ⟨made, resolution, -, hfilled⟩
  · exact .inl ⟨e, he⟩
  · refine .inr ⟨(filled ⟨strict, false⟩ resolution (emptyStack c) made).size, fun outputs => ?_⟩
    exact ⟨_, hfilled outputs, rfl⟩

end Config

namespace Stack

/-- The records of a template are as many as the stack has. -/
theorem exists_members_template
    (s : Stack) :
    ∃ members, s.template.member? "Resources" = some (.object members) ∧
      members.length = s.size := by
  refine ⟨(s.resources.map Resource.json).entries, ?_, ?_⟩
  · simp [template, Json.ofTable]
  · exact List.length_map _

end Stack

namespace Command

/-- What comes of a command if it can write its file: the outcome, and the file with
its text where there is one. -/
def completed (command : Command) (content : Except FileFault ByteArray)
    (stackName : Option String) : Outcome × Option (String × String) :=
  (.ofRun (command.run content stackName) (.ok ()), output? (command.run content stackName))

/-- A command fails with a chain of causes.  Whatever writing a file would give, it exits
with 1 and prints nothing but the report of the chain, and it has no file to write. -/
structure Fails (command : Command) (content : Except FileFault ByteArray)
    (stackName : Option String) (chain : List String) : Prop where
  run : command.run content stackName = .error chain
  outcome : ∀ saved, Outcome.ofRun (command.run content stackName) saved =
    ⟨1, "", Outcome.report chain⟩
  output : output? (command.run content stackName) = none

variable {path : String} {content : Except FileFault ByteArray} {stackName : Option String}

section Effects

variable {command : Command}

theorem completed_of_print
    {text : String} (h : command.run content stackName = .ok (.print text)) :
    command.completed content stackName = (⟨0, text, ""⟩, none) := by
  rw [completed, h]
  rfl

theorem completed_of_save
    {target text : String} (h : command.run content stackName = .ok (.save target text)) :
    command.completed content stackName = (⟨0, "", ""⟩, some (target, text)) := by
  rw [completed, h]
  rfl

theorem fails_of_run
    {chain : List String} (h : command.run content stackName = .error chain) :
    command.Fails content stackName chain where
  run := h
  outcome := by
    intro saved
    rw [h]
    rfl
  output := by
    rw [h]
    rfl

end Effects

section Runs

theorem run_check_of_fault
    {fault : LoadError} (h : Config.load path content stackName = .error fault)
    (strict : Bool) :
    (check path strict).run content stackName = .error fault.chain := by
  rw [run, h]
  rfl

theorem run_synth_of_fault
    {fault : LoadError} (h : Config.load path content stackName = .error fault)
    (out : Option String) (options : Synthesis.Options) :
    (synth path out options).run content stackName = .error fault.chain := by
  rw [run, h]
  rfl

variable {c : Config} (h : Config.load path content stackName = .ok c)
include h

/-- The check of a config that has been loaded is a synthesis without outputs. -/
theorem run_check_of_load
    (strict : Bool) :
    (check path strict).run content stackName =
      match c.synthesize ⟨strict, false⟩ with
      | .error e => .error (s!"{path} is invalid" :: e.chain)
      | .ok s => .ok (.print s!"{path}: ok ({s.size} resources)\n") := by
  rw [run, h]
  cases hs : c.synthesize ⟨strict, false⟩ with
  | error e => simp only [Except.mapError, ok_bind, hs]; rfl
  | ok s => simp only [Except.mapError, ok_bind, hs]; rfl

theorem run_synth_of_load
    (out : Option String) (options : Synthesis.Options) :
    (synth path out options).run content stackName =
      match c.synthesize options with
      | .error e => .error (s!"Failed to synthesize {path}" :: e.chain)
      | .ok s =>
          match out with
          | some target => .ok (.save target s.templateText)
          | none => .ok (.print (s.templateText ++ "\n")) := by
  rw [run, h]
  cases hs : c.synthesize options with
  | error e => simp only [Except.mapError, ok_bind, hs]; rfl
  | ok s => cases out <;> simp only [Except.mapError, ok_bind, hs] <;> rfl

end Runs

/-- The two commands agree on every file.  Either the config is loaded and
synthesized: then the number that is reported is the number of records in the
template, and a file that is written holds what is printed where no file is asked
for, but for the line end.  Or the config cannot be loaded, and both commands fail with
the chain of that fault.  Or it is loaded and cannot be synthesized: then the error is
the same under both options on outputs, and both commands fail with its chain behind a
message of their own. -/
theorem check_agrees_with_synth
    (path : String) (content : Except FileFault ByteArray) (stackName : Option String)
    (strict : Bool) :
    (∃ c, Config.load path content stackName = .ok c ∧
      ∀ outputs, ∃ s members,
        c.synthesize ⟨strict, outputs⟩ = .ok s ∧
        s.template.member? "Resources" = some (.object members) ∧
        (check path strict).completed content stackName =
          (⟨0, s!"{path}: ok ({members.length} resources)\n", ""⟩, none) ∧
        (synth path none ⟨strict, outputs⟩).completed content stackName =
          (⟨0, s.template.pretty ++ "\n", ""⟩, none) ∧
        ∀ target, (synth path (some target) ⟨strict, outputs⟩).completed content stackName =
          (⟨0, "", ""⟩, some (target, s.template.pretty))) ∨
    (∃ fault, Config.load path content stackName = .error fault ∧
      (check path strict).Fails content stackName fault.chain ∧
      ∀ out outputs, (synth path out ⟨strict, outputs⟩).Fails content stackName fault.chain) ∨
    ∃ c e, Config.load path content stackName = .ok c ∧
      (∀ outputs, c.synthesize ⟨strict, outputs⟩ = .error e) ∧
      (check path strict).Fails content stackName (s!"{path} is invalid" :: e.chain) ∧
      ∀ out outputs, (synth path out ⟨strict, outputs⟩).Fails content stackName
        (s!"Failed to synthesize {path}" :: e.chain) := by
  cases hload : Config.load path content stackName with
  | error fault =>
      refine .inr (.inl ⟨fault, rfl, ?_, ?_⟩)
      · exact fails_of_run (run_check_of_fault hload strict)
      · exact fun out outputs => fails_of_run (run_synth_of_fault hload out ⟨strict, outputs⟩)
  | ok c =>
      rcases c.error_or_size strict with ⟨e, he⟩ | ⟨n, hn⟩
      · refine .inr (.inr ⟨c, e, rfl, he, fails_of_run ?_, fun out outputs => fails_of_run ?_⟩)
        · rw [run_check_of_load hload, he]
        · rw [run_synth_of_load hload, he]
      · refine .inl ⟨c, rfl, fun outputs => ?_⟩
        obtain ⟨checked, hchecked, hsize⟩ := hn false
        obtain ⟨s, hs, hsize'⟩ := hn outputs
        obtain ⟨members, hmembers, hlength⟩ := s.exists_members_template
        refine ⟨s, members, hs, hmembers, completed_of_print ?_, completed_of_print ?_,
          fun target => completed_of_save ?_⟩
        · rw [run_check_of_load hload, hchecked, hlength, hsize', ← hsize]
        · rw [run_synth_of_load hload, hs]
          rfl
        · rw [run_synth_of_load hload, hs]
          rfl

end Command
end FlagStack
