import FlagStack.Proofs.CommandVerdicts
import FlagStack.Proofs.LoadedConfigs

/-!
# What a template is made of

A stack carries a name and an environment through all of synthesis, and has an
operation that makes text of them.  Synthesis does not use it: ids, references and
errors are read off the definitions of a config, and the name and the environment are
only in the stack that is filled with them at the end.

So two valid configs with the same definitions have the same outcome, but for the name
and the environment of the stack; and a command that writes a template writes the same
one whatever name is given from outside.

**Results.**
* `SameLists.synthesizeWith`: synthesis of two configs, as one outcome that fills two
  stacks.
* `SameLists.run_synth`: the command on two files.
* `template_made_of_lists`: templates are made of the lists of a config.
-/

namespace FlagStack

/-- The template is all that resources and outputs say. -/
theorem Stack.templateText_congr
    {s s' : Stack} (hresources : s.resources = s'.resources) (houtputs : s.outputs = s'.outputs) :
    s.templateText = s'.templateText := by
  rw [templateText, templateText, template, template, hresources, houtputs]

namespace Config

open Synthesis

/-- The configs list the same definitions; they may differ in the name of the stack and
in the environment. -/
structure SameLists (c c' : Config) : Prop where
  projects : c.projects = c'.projects
  features : c.features = c'.features
  experiments : c.experiments = c'.experiments
  launches : c.launches = c'.launches

variable {digest : String → String} {options : Options} {c c' : Config}

namespace SameLists

section Readings

variable (h : SameLists c c')
include h

theorem definitions :
    c.definitions = c'.definitions := by
  rw [Config.definitions, Config.definitions, members, members, h.projects, h.features,
    h.experiments, h.launches]

theorem dangling :
    c.dangling = c'.dangling := by
  obtain ⟨name, account, region, projects, features, experiments, launches⟩ := c
  obtain ⟨name', account', region', projects', features', experiments', launches'⟩ := c'
  obtain ⟨rfl, rfl, rfl, rfl⟩ := h
  rfl

theorem projectToken :
    c.projectToken = c'.projectToken := by
  funext idOf t
  cases t with
  | literal name => simp only [Config.projectToken, h.projects]
  | «attribute» logicalId name => rfl

/-- Two valid configs with the same lists fail alike, or the same definitions fill a
stack of each. -/
theorem synthesizeWith
    (hd : ∀ name, Alphanumeric (digest name)) (hc : c.check = .ok ()) (hc' : c'.check = .ok ())
    (options : Options) :
    (∃ e, c.synthesizeWith digest options = .error e ∧
      c'.synthesizeWith digest options = .error e) ∨
    ∃ made resolution,
      c.synthesizeWith digest options = .ok (filled options resolution (emptyStack c) made) ∧
      c'.synthesizeWith digest options = .ok (filled options resolution (emptyStack c') made) := by
  have harranged : c'.arranged digest options.strict = c.arranged digest options.strict := by
    rw [arranged, arranged, hc, hc', tolerated, tolerated, enlisted, enlisted, h.dangling,
      h.definitions]
  rw [c.synthesizeWith_eq hd, c'.synthesizeWith_eq hd, harranged, h.projectToken]
  cases c.arranged digest options.strict with
  | error e => exact .inl ⟨e, rfl, rfl⟩
  | ok made => exact .inr ⟨made, c'.projectToken (idIn made), rfl, rfl⟩

/-- Two valid configs with the same lists fail alike, or have the same template. -/
theorem synthesize
    (hc : c.check = .ok ()) (hc' : c'.check = .ok ()) (options : Options) :
    (∃ e, c.synthesize options = .error e ∧ c'.synthesize options = .error e) ∨
    ∃ s s', c.synthesize options = .ok s ∧ c'.synthesize options = .ok s' ∧
      s.resources = s'.resources ∧ s.outputs = s'.outputs ∧
      s.templateText = s'.templateText := by
  rcases h.synthesizeWith alphanumeric_ofText hc hc' options with
      hfailed | ⟨made, resolution, hs, hs'⟩
  · exact .inl hfailed
  · exact .inr ⟨_, _, hs, hs', rfl, rfl, Stack.templateText_congr rfl rfl⟩

end Readings

/-- The same file under two names. -/
theorem of_load
    {path : String} {content : Except FileFault ByteArray} {name name' : Option String}
    (hload : load path content name = .ok c) (hload' : load path content name' = .ok c') :
    SameLists c c' := by
  obtain ⟨file, hfile, rfl⟩ := load_eq_ok_iff.1 hload
  obtain ⟨file', hfile', rfl⟩ := load_eq_ok_iff.1 hload'
  obtain rfl := hfile.unique hfile'
  exact ⟨rfl, rfl, rfl, rfl⟩

/-- A template that is made of a file is made of any other file with the same lists. -/
theorem run_synth
    (h : SameLists c c') (hc : c.check = .ok ()) (hc' : c'.check = .ok ())
    {path : String} {content content' : Except FileFault ByteArray} {name name' : Option String}
    (hload : load path content name = .ok c) (hload' : load path content' name' = .ok c')
    (out : Option String) (options : Options) :
    (Command.synth path out options).run content name =
      (Command.synth path out options).run content' name' := by
  rw [Command.run_synth_of_load hload, Command.run_synth_of_load hload']
  rcases h.synthesize hc hc' options with ⟨e, he, he'⟩ | ⟨s, s', hs, hs', -, -, htext⟩
  · rw [he, he']
  · rw [hs, hs']
    simp only [htext]

end SameLists

/-- What has been synthesized was valid. -/
theorem check_of_synthesize
    {s : Stack} (h : c.synthesize options = .ok s) :
    c.check = .ok () :=
  check_eq_ok_iff.2 (accepted_of_synthesizeWith alphanumeric_ofText h).valid

/-- A command that writes a template has loaded a valid config. -/
theorem exists_load_of_run
    {path : String} {content : Except FileFault ByteArray} {name out : Option String}
    {effect : Effect} (h : (Command.synth path out options).run content name = .ok effect) :
    ∃ c, load path content name = .ok c ∧ c.check = .ok () := by
  cases hload : load path content name with
  | error fault =>
      rw [Command.run_synth_of_fault hload] at h
      cases h
  | ok c =>
      cases hs : c.synthesize options with
      | error e =>
          rw [Command.run_synth_of_load hload, hs] at h
          cases h
      | ok s => exact ⟨c, rfl, check_of_synthesize hs⟩

/-- Templates are made of the lists of a config.  Two valid configs with the same lists
fail with the same error or give the same resources, outputs and template; the command
does the same on their files; and what it writes of one file does not depend on the name
that is given from outside. -/
theorem template_made_of_lists :
    (∀ (c c' : Config) (options : Options), c.SameLists c' →
      c.check = .ok () → c'.check = .ok () →
      (∃ e, c.synthesize options = .error e ∧ c'.synthesize options = .error e) ∨
      ∃ s s', c.synthesize options = .ok s ∧ c'.synthesize options = .ok s' ∧
        s.resources = s'.resources ∧ s.outputs = s'.outputs ∧
        s.templateText = s'.templateText) ∧
    (∀ (c c' : Config) (path : String) (content content' : Except FileFault ByteArray)
      (name name' out : Option String) (options : Options), c.SameLists c' →
      c.check = .ok () → c'.check = .ok () →
      load path content name = .ok c → load path content' name' = .ok c' →
      (Command.synth path out options).run content name =
        (Command.synth path out options).run content' name') ∧
    ∀ (path : String) (content : Except FileFault ByteArray) (name name' out : Option String)
      (options : Options) (effect effect' : Effect),
      (Command.synth path out options).run content name = .ok effect →
      (Command.synth path out options).run content name' = .ok effect' →
      effect = effect' := by
  refine ⟨?_, ?_, ?_⟩
  · exact fun c c' options h hc hc' => h.synthesize hc hc' options
  · exact fun c c' path content content' name name' out options h hc hc' hload hload' =>
      h.run_synth hc hc' hload hload' out options
  · intro path content name name' out options effect effect' hrun hrun'
    obtain ⟨c, hload, hc⟩ := exists_load_of_run hrun
    obtain ⟨c', hload', hc'⟩ := exists_load_of_run hrun'
    have hsame := (SameLists.of_load hload hload').run_synth hc hc' hload hload' out options
    exact Except.ok.inj (hrun.symm.trans (hsame.trans hrun'))

section OneProject

/-- A config with one project, in an environment or not. -/
def oneProject (name : String) (environment : Option (String × String)) : Config :=
  ⟨name, environment.map Prod.fst, environment.map Prod.snd,
    [⟨"p", none, none, Table.empty⟩], [], [], []⟩

def pinnedFile : Except FileFault ByteArray :=
  .ok ("\x7b\"stackName\":\"x\",\"account\":\"1\",\"region\":\"r\"," ++
    "\"projects\":[\x7b\"name\":\"p\"\x7d]\x7d").toUTF8

def looseFile : Except FileFault ByteArray :=
  .ok "\x7b\"stackName\":\"y\",\"projects\":[\x7b\"name\":\"p\"\x7d]\x7d".toUTF8

/-- The command that prints the template of a file, with outputs. -/
def printed : Command :=
  .synth "app.json" none ⟨true, true⟩

theorem accepted_oneProject
    {name : String} (hname : Text.allBlank name = false) (environment : Option (String × String)) :
    (oneProject name environment).Accepted true := by
  constructor
  case valid => exact ⟨hname, by cases environment <;> simp [oneProject]⟩
  case references => exact fun _ => rfl
  case projectNames => exact List.nodup_singleton _
  all_goals simp [oneProject]

/-- The template of a file is printed where its config is accepted. -/
theorem exists_printed
    {content : Except FileFault ByteArray} {name : Option String}
    (hload : load "app.json" content name = .ok c) (h : c.Accepted true) :
    ∃ effect, printed.run content name = .ok effect := by
  obtain ⟨s, hs⟩ := h.exists_stack ⟨true, true⟩
  exact ⟨.print (s.templateText ++ "\n"), by rw [printed, Command.run_synth_of_load hload, hs]⟩

/-- The project in an environment, in none, and under a name that is given from outside. -/
theorem oneProject_alike :
    let pinned := oneProject "x" (some ("1", "r"))
    let loose := oneProject "y" none
    pinned.SameLists loose ∧ pinned.check = .ok () ∧ loose.check = .ok () ∧
      load "app.json" pinnedFile none = .ok pinned ∧ load "app.json" looseFile none = .ok loose ∧
      (∃ s s', pinned.synthesize ⟨true, true⟩ = .ok s ∧ loose.synthesize ⟨true, true⟩ = .ok s' ∧
        s.templateText = s'.templateText) ∧
      ∃ effect, printed.run pinnedFile none = .ok effect ∧ printed.run looseFile none = .ok effect ∧
        printed.run pinnedFile (some "z") = .ok effect := by
  intro pinned loose
  have hsame : pinned.SameLists loose := ⟨rfl, rfl, rfl, rfl⟩
  have hpinned : pinned.Accepted true := accepted_oneProject (by decide) _
  have hloose : loose.Accepted true := accepted_oneProject (by decide) _
  have hcheck := check_eq_ok_iff.2 hpinned.valid
  have hcheck' := check_eq_ok_iff.2 hloose.valid
  have hload : load "app.json" pinnedFile none = .ok pinned := by decide +kernel
  have hload' : load "app.json" looseFile none = .ok loose := by decide +kernel
  have hloadz : load "app.json" pinnedFile (some "z") = .ok (oneProject "z" (some ("1", "r"))) := by
    decide +kernel
  obtain ⟨hsynthesis, hfiles, hnames⟩ := template_made_of_lists
  obtain ⟨effect, hrun⟩ := exists_printed hload hpinned
  obtain ⟨other, hrunz⟩ := exists_printed hloadz (accepted_oneProject (by decide) _)
  have hrun' := hfiles pinned loose "app.json" pinnedFile looseFile none none none ⟨true, true⟩
    hsame hcheck hcheck' hload hload'
  have heffect : effect = other :=
    hnames "app.json" pinnedFile none (some "z") none ⟨true, true⟩ effect other hrun hrunz
  refine ⟨hsame, hcheck, hcheck', hload, hload', ?_, effect, hrun, hrun'.symm.trans hrun,
    heffect ▸ hrunz⟩
  rcases hsynthesis pinned loose ⟨true, true⟩ hsame hcheck hcheck' with
      ⟨e, he, -⟩ | ⟨s, s', hs, hs', -, -, htext⟩
  · obtain ⟨s, hs⟩ := hpinned.exists_stack ⟨true, true⟩
    cases hs.symm.trans he
  · exact ⟨s, s', hs, hs', htext⟩

end OneProject

end Config
end FlagStack
