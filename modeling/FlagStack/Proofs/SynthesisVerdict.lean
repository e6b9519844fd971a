import FlagStack.Proofs.SynthesisState

/-!
# When synthesis succeeds

Whether synthesis succeeds can be read off the config: no id that synthesis gives
out and nothing of the digest plays a part in it.  A config that is not accepted
has a first fault, and the class of that fault is the class of the error.

**Results.**
* `accepted_iff`: a config is accepted if its definitions are sound.
* `FirstFault.unique`: a config has one first fault.
* `exists_stack_or_error`: the outcome of synthesis, by what the config meets.
-/

namespace FlagStack
namespace Config

/-- A valid config has a stack name that is not blank, and an account and a region
or neither. -/
structure Valid (c : Config) : Prop where
  stackName : Text.allBlank c.stackName = false
  environment : c.account.isSome ↔ c.region.isSome

/-- What synthesis asks of a config. -/
structure Accepted (c : Config) (strict : Bool) : Prop where
  valid : c.Valid
  references : strict → c.dangling = []
  variations : ∀ f ∈ c.features, f.variations ≠ []
  numbers : ∀ f ∈ c.features, ∀ v ∈ f.variations, ¬ v.value.isNonFinite
  goals : ∀ e ∈ c.experiments, e.goals.length ≤ 3
  groups : ∀ l ∈ c.launches, l.groups.length ≤ 5
  projectNames : (c.projects.map Project.name).Nodup
  featureNames : (c.features.map Feature.name).Nodup
  experimentNames : (c.experiments.map Experiment.name).Nodup
  launchNames : (c.launches.map Launch.name).Nodup

/-- The class of the first thing that is wrong with a config. -/
inductive FirstFault (c : Config) (strict : Bool) : ErrorKind → Prop
  | invalid (h : ¬ c.Valid) : FirstFault c strict .config
  | dangling (hvalid : c.Valid) (hstrict : strict) (h : c.dangling ≠ []) :
      FirstFault c strict .danglingReference
  | definition (hvalid : c.Valid) (htolerated : strict → c.dangling = []) {k : ErrorKind}
      (h : FirstOffence c.definitions k) : FirstFault c strict k

section Validity

variable {c : Config} {strict : Bool}

theorem check_eq_ok_iff :
    c.check = .ok () ↔ c.Valid := by
  rw [check]
  constructor
  · intro h
    split at h
    · cases h
    · next hname =>
        split at h
        · cases h
        · next henv =>
            exact ⟨by simpa using hname, by rw [not_not.1 henv]⟩
  · rintro ⟨hname, henv⟩
    have hsame : c.account.isSome = c.region.isSome := Bool.eq_iff_iff.2 henv
    rw [if_neg (by simp [hname]), if_neg (not_not.2 hsame)]

theorem exists_check_eq_error
    (h : ¬ c.Valid) :
    ∃ fault, c.check = .error fault := by
  cases hcheck : c.check with
  | ok u => exact absurd (check_eq_ok_iff.1 hcheck) h
  | error fault => exact ⟨fault, rfl⟩

theorem admissible_definitions_iff :
    (∀ r ∈ c.definitions, r.Admissible) ↔
      (∀ f ∈ c.features, f.variations ≠ [] ∧ ∀ v ∈ f.variations, ¬ v.value.isNonFinite) ∧
        (∀ e ∈ c.experiments, e.goals.length ≤ 3) ∧ ∀ l ∈ c.launches, l.groups.length ≤ 5 := by
  rw [forall_definitions_iff]
  constructor
  · rintro ⟨-, hf, he, hl⟩
    exact ⟨hf, he, hl⟩
  · rintro ⟨hf, he, hl⟩
    exact ⟨fun _ _ => trivial, hf, he, hl⟩

/-- A config is accepted if it is valid, its references may stand and its
definitions are sound. -/
theorem accepted_iff :
    c.Accepted strict ↔ c.Valid ∧ (strict → c.dangling = []) ∧ Sound c.definitions := by
  constructor
  · intro h
    refine ⟨h.valid, h.references, ?_, ?_⟩
    · exact admissible_definitions_iff.2
        ⟨fun f hf => ⟨h.variations f hf, h.numbers f hf⟩, h.goals, h.groups⟩
    · exact c.nodup_entries_definitions_iff.2
        ⟨h.projectNames, h.featureNames, h.experimentNames, h.launchNames⟩
  · rintro ⟨hvalid, hreferences, hsound⟩
    obtain ⟨hf, he, hl⟩ := admissible_definitions_iff.1 hsound.admissible
    obtain ⟨hpn, hfn, hen, hln⟩ := c.nodup_entries_definitions_iff.1 hsound.distinct
    exact ⟨hvalid, hreferences, fun f h => (hf f h).1, fun f h => (hf f h).2, he, hl,
      hpn, hfn, hen, hln⟩

end Validity

section Faults

variable {c : Config} {strict : Bool} {k k' : ErrorKind}

/-- What is accepted has no fault. -/
theorem FirstFault.not_accepted
    (h : c.FirstFault strict k) :
    ¬ c.Accepted strict := by
  rw [accepted_iff]
  rintro ⟨hvalid, hreferences, hsound⟩
  cases h with
  | invalid h => exact h hvalid
  | dangling _ hstrict h => exact h (hreferences hstrict)
  | definition _ _ h => exact not_sound_of_firstOffence h hsound

/-- There is one first fault. -/
theorem FirstFault.unique
    (h : c.FirstFault strict k) (h' : c.FirstFault strict k') :
    k = k' := by
  cases h with
  | invalid h =>
      cases h' with
      | invalid _ => rfl
      | dangling hvalid _ _ => exact absurd hvalid h
      | definition hvalid _ _ => exact absurd hvalid h
  | dangling hvalid hstrict h =>
      cases h' with
      | invalid hinvalid => exact absurd hvalid hinvalid
      | dangling _ _ _ => rfl
      | definition _ htolerated _ => exact absurd (htolerated hstrict) h
  | definition hvalid htolerated h =>
      cases h' with
      | invalid hinvalid => exact absurd hvalid hinvalid
      | dangling _ hstrict hdangling => exact absurd (htolerated hstrict) hdangling
      | definition _ _ h' => exact h.unique h'

/-- The class of a duplicate tells that a kind and name stand twice. -/
theorem FirstFault.sublist_of_duplicate
    (h : c.FirstFault strict .duplicateLogicalId) :
    ∃ other r, [other, r].Sublist c.definitions ∧ other.kind = r.kind ∧ other.name = r.name := by
  cases h with
  | definition _ _ h =>
      obtain ⟨before, r, after, hsplit, -, hoffends⟩ := h
      cases hoffends with
      | repeated _ hother hkind hname =>
          refine ⟨_, r, ?_, hkind, hname⟩
          rw [hsplit]
          exact (List.singleton_sublist.2 hother).append
            (List.singleton_sublist.2 (List.mem_cons_self))

end Faults

section Verdict

variable {digest : String → String}

/-- The outcome of synthesis, by what the config meets. -/
theorem exists_stack_or_error
    (hd : ∀ name, Alphanumeric (digest name)) (c : Config) (options : Synthesis.Options) :
    (c.Accepted options.strict ∧ ∃ s, c.synthesizeWith digest options = .ok s) ∨
      ∃ e, c.synthesizeWith digest options = .error e ∧
        c.FirstFault options.strict e.kind := by
  by_cases hvalid : c.Valid
  · have hcheck := check_eq_ok_iff.2 hvalid
    by_cases htolerated : options.strict → c.dangling = []
    · rcases Synthesis.synthesizeWith_of_checked hd hcheck htolerated with
        ⟨made, last, hrun, hlast, hmade⟩ | ⟨e, hrun, hoffence⟩
      · refine .inl ⟨accepted_iff.2 ⟨hvalid, htolerated, ?_⟩, last.stack, hrun⟩
        rw [← hmade]
        exact hlast.sound
      · exact .inr ⟨e, hrun, .definition hvalid htolerated hoffence⟩
    · obtain ⟨hstrict, hdangling⟩ := Classical.not_imp.1 htolerated
      have hrun : c.synthesizeWith digest options = .error (.dangling c.dangling) :=
        Synthesis.synthesizeWith_of_dangling hcheck hstrict hdangling
      exact .inr ⟨.dangling c.dangling, hrun, .dangling hvalid hstrict hdangling⟩
  · obtain ⟨fault, hcheck⟩ := exists_check_eq_error hvalid
    exact .inr ⟨.config fault, Synthesis.synthesizeWith_of_fault hcheck, .invalid hvalid⟩

/-- What has been synthesized was accepted. -/
theorem accepted_of_synthesizeWith
    (hd : ∀ name, Alphanumeric (digest name)) {c : Config} {options : Synthesis.Options}
    {s : Stack} (hrun : c.synthesizeWith digest options = .ok s) :
    c.Accepted options.strict := by
  rcases exists_stack_or_error hd c options with ⟨haccepted, -⟩ | ⟨e, he, -⟩
  · exact haccepted
  · rw [hrun] at he
    cases he

/-- Synthesis succeeds just if the config is accepted.  Otherwise its error is of
the class of the first fault, and a duplicate is reported only where a kind and
name stand twice.  All this holds for any digest of letters and digits. -/
theorem synthesizeWith_verdict
    (hd : ∀ name, Alphanumeric (digest name)) (c : Config) (options : Synthesis.Options) :
    ((∃ s, c.synthesizeWith digest options = .ok s) ↔ c.Accepted options.strict) ∧
      (∀ k, (∃ e, c.synthesizeWith digest options = .error e ∧ e.kind = k) ↔
        c.FirstFault options.strict k) ∧
      ∀ logicalId, c.synthesizeWith digest options = .error (.duplicateId logicalId) →
        ∃ other r, [other, r].Sublist c.definitions ∧
          other.kind = r.kind ∧ other.name = r.name := by
  have houtcome := exists_stack_or_error hd c options
  have hfault : ∀ e, c.synthesizeWith digest options = .error e →
      c.FirstFault options.strict e.kind := by
    intro e he
    rcases houtcome with ⟨-, s, hs⟩ | ⟨e', he', hfirst⟩
    · rw [he] at hs
      cases hs
    · rw [he] at he'
      cases he'
      exact hfirst
  refine ⟨⟨?_, ?_⟩, fun k => ⟨?_, ?_⟩, ?_⟩
  · rintro ⟨s, hs⟩
    exact accepted_of_synthesizeWith hd hs
  · intro haccepted
    rcases houtcome with ⟨-, hs⟩ | ⟨e, -, hfirst⟩
    · exact hs
    · exact absurd haccepted hfirst.not_accepted
  · rintro ⟨e, he, rfl⟩
    exact hfault e he
  · intro hfirst
    rcases houtcome with ⟨haccepted, -⟩ | ⟨e, he, hfirst'⟩
    · exact absurd haccepted hfirst.not_accepted
    · exact ⟨e, he, hfirst'.unique hfirst⟩
  · intro logicalId hrun
    exact (hfault _ hrun).sublist_of_duplicate

/-- Two features that differ in punctuation only, and a launch with the name of the
first. -/
def lookalikes : Config where
  stackName := "shop"
  account := none
  region := none
  projects := []
  features :=
    [⟨"check-out", .literal "arn:p", [⟨none, .boolean true⟩], [], none, none, none, Table.empty⟩,
      ⟨"check_out", .literal "arn:p", [⟨none, .boolean true⟩], [], none, none, none, Table.empty⟩]
  experiments := []
  launches := [⟨"check-out", .literal "arn:p", [], [], none, none, Table.empty⟩]

theorem lookalikes_synthesized :
    (∀ _name : String, Alphanumeric "00000000") ∧
      ∃ s, lookalikes.synthesizeWith (fun _ => "00000000") ⟨true, true⟩ = .ok s := by
  have hdigest : Alphanumeric "00000000" := by decide
  refine ⟨fun _ => hdigest, ?_⟩
  refine (synthesizeWith_verdict (fun _ => hdigest) lookalikes ⟨true, true⟩).1.2 ?_
  constructor
  · exact ⟨by decide, by decide⟩
  all_goals decide

end Verdict
end Config
end FlagStack
