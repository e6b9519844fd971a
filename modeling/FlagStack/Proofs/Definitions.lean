import FlagStack.Synthesis
import FlagStack.Proofs.Registration
import Mathlib.Data.List.Nodup

/-!
# The definitions of a config

Synthesis goes through the definitions of a config kind by kind.  Here they are
one list, in that order, each as the resource that it would be with its reference
to a project left as it is.

A list of definitions is sound if all of them are admissible and no two have the
same kind and name.

**Results.**
* `nodup_entries_definitions_iff`: no two definitions of a config are of one entry
  just if within each kind no two have the same name.
* `not_sound_of_firstOffence`: what offends makes a list unsound.
* `FirstOffence.unique`: a list has one first offence.
-/

namespace FlagStack

namespace Kind

theorem label_injective :
    Function.Injective label := by
  intro a b h
  cases a <;> cases b <;> first | rfl | (exact absurd h (by decide))

end Kind

namespace Resource

/-- The entry of a config that a resource belongs to. -/
def entry (r : Resource) : Entry :=
  ⟨r.kind.label, r.name⟩

/-- The resource with its reference to a project changed. -/
def mapProject (change : Token → Token) : Resource → Resource
  | .project p => .project p
  | .feature f => .feature { f with project := change f.project }
  | .experiment e => .experiment { e with project := change e.project }
  | .launch l => .launch { l with project := change l.project }

variable (change : Token → Token) (r : Resource)

theorem entry_eq_iff
    {r other : Resource} :
    r.entry = other.entry ↔ r.kind = other.kind ∧ r.name = other.name := by
  simp only [entry, Entry.mk.injEq]
  constructor
  · rintro ⟨hkind, hname⟩
    exact ⟨Kind.label_injective hkind, hname⟩
  · rintro ⟨hkind, hname⟩
    exact ⟨by rw [hkind], hname⟩

@[simp] theorem kind_mapProject :
    (r.mapProject change).kind = r.kind := by
  cases r <;> rfl

@[simp] theorem name_mapProject :
    (r.mapProject change).name = r.name := by
  cases r <;> rfl

@[simp] theorem project?_mapProject :
    (r.mapProject change).project? = r.project?.map change := by
  cases r <;> rfl

/-- What a definition has to meet does not depend on its project. -/
@[simp] theorem check_mapProject :
    (r.mapProject change).check = r.check := by
  cases r <;> rfl

theorem admissible_mapProject :
    (r.mapProject change).Admissible ↔ r.Admissible := by
  cases r <;> exact Iff.rfl

end Resource

namespace Config

/-- The definitions of a config that belong to a project. -/
def members (c : Config) : List Resource :=
  c.features.map .feature ++ c.experiments.map .experiment ++ c.launches.map .launch

/-- The definitions of a config in the order of synthesis. -/
def definitions (c : Config) : List Resource :=
  c.projects.map .project ++ c.members

theorem length_definitions
    (c : Config) :
    c.definitions.length =
      c.projects.length + c.features.length + c.experiments.length + c.launches.length := by
  simp [definitions, members]
  omega

/-- The definitions of a kind are those that the config lists for it. -/
theorem mem_definitions_iff
    {c : Config} {r : Resource} :
    r ∈ c.definitions ↔
      match r with
      | .project p => p ∈ c.projects
      | .feature f => f ∈ c.features
      | .experiment e => e ∈ c.experiments
      | .launch l => l ∈ c.launches := by
  cases r <;> simp [definitions, members]

end Config

/-- All of the definitions are admissible, and no two have the same kind and
name. -/
structure Sound (rs : List Resource) : Prop where
  admissible : ∀ r ∈ rs, r.Admissible
  distinct : (rs.map Resource.entry).Nodup

/-- Why a definition cannot be added behind others, as the class of the error that
tells it. -/
inductive Offends (before : List Resource) (r : Resource) : ErrorKind → Prop
  /-- It does not meet what its kind has to meet. -/
  | refused (h : ¬ r.Admissible) : Offends before r .invalidArgument
  /-- One before it has the same kind and name. -/
  | repeated (hadmissible : r.Admissible) {other : Resource} (hother : other ∈ before)
      (hkind : other.kind = r.kind) (hname : other.name = r.name) :
      Offends before r .duplicateLogicalId

/-- The first of some definitions that cannot be added behind those before it. -/
def FirstOffence (rs : List Resource) (k : ErrorKind) : Prop :=
  ∃ before r after, rs = before ++ r :: after ∧ Sound before ∧ Offends before r k

section Soundness

theorem sound_nil :
    Sound [] :=
  ⟨fun r hr => (by cases hr), List.nodup_nil⟩

theorem sound_append_singleton_iff
    {rs : List Resource} {r : Resource} :
    Sound (rs ++ [r]) ↔
      Sound rs ∧ r.Admissible ∧ ∀ other ∈ rs, other.entry ≠ r.entry := by
  constructor
  · rintro ⟨hadm, hdist⟩
    rw [List.map_append, List.nodup_append] at hdist
    refine ⟨⟨fun x hx => hadm x (by simp [hx]), hdist.1⟩, hadm r (by simp), ?_⟩
    intro other hother
    exact hdist.2.2 _ (List.mem_map_of_mem hother) _ (by simp)
  · rintro ⟨hsound, hr, hnew⟩
    constructor
    · intro x hx
      rcases List.mem_append.1 hx with hx | hx
      · exact hsound.admissible x hx
      · rw [List.mem_singleton.1 hx]
        exact hr
    · rw [List.map_append, List.nodup_append]
      refine ⟨hsound.distinct, by simp, ?_⟩
      intro a ha b hb
      obtain ⟨other, hother, rfl⟩ := List.mem_map.1 ha
      rw [show b = r.entry by simpa using hb]
      exact hnew other hother

theorem Sound.of_append
    {rs more : List Resource} (h : Sound (rs ++ more)) :
    Sound rs := by
  constructor
  · exact fun r hr => h.admissible r (List.mem_append_left _ hr)
  · have hdist := h.distinct
    rw [List.map_append] at hdist
    exact (List.nodup_append.1 hdist).1

theorem Offends.not_sound
    {before : List Resource} {r : Resource} {k : ErrorKind} (h : Offends before r k) :
    ¬ Sound (before ++ [r]) := by
  rw [sound_append_singleton_iff]
  rintro ⟨-, hadm, hnew⟩
  cases h with
  | refused hr => exact hr hadm
  | repeated _ hother hkind hname =>
      exact hnew _ hother (Resource.entry_eq_iff.2 ⟨hkind, hname⟩)

theorem not_sound_of_firstOffence
    {rs : List Resource} {k : ErrorKind} (h : FirstOffence rs k) :
    ¬ Sound rs := by
  obtain ⟨before, r, after, rfl, -, hoffends⟩ := h
  intro hsound
  rw [List.append_cons] at hsound
  exact hoffends.not_sound hsound.of_append

/-- A definition offends in one way only. -/
theorem Offends.unique
    {before : List Resource} {r : Resource} {k k' : ErrorKind}
    (h : Offends before r k) (h' : Offends before r k') :
    k = k' := by
  cases h with
  | refused hr =>
      cases h' with
      | refused _ => rfl
      | repeated hr' _ _ _ => exact absurd hr' hr
  | repeated hr _ _ _ =>
      cases h' with
      | refused hr' => exact absurd hr hr'
      | repeated _ _ _ _ => rfl

/-- Of two ways to split a list, the one that offends is not before the other. -/
theorem Offends.split_eq
    {before before' after after' : List Resource} {r r' : Resource} {k : ErrorKind}
    (h : Offends before r k) (hsound : Sound before')
    (hsplit : before ++ r :: after = before' ++ r' :: after')
    (hle : before.length ≤ before'.length) :
    before = before' ∧ r = r' := by
  obtain ⟨between, rfl⟩ : before <+: before' :=
    List.prefix_of_prefix_length_le ⟨_, hsplit⟩ ⟨_, rfl⟩ hle
  rw [List.append_assoc, List.append_cancel_left_eq] at hsplit
  cases between with
  | nil => exact ⟨(List.append_nil before).symm, (List.cons.inj hsplit).1⟩
  | cons x between =>
      obtain ⟨rfl, -⟩ := List.cons.inj hsplit
      rw [List.append_cons] at hsound
      exact absurd hsound.of_append h.not_sound

/-- There is one first offence. -/
theorem FirstOffence.unique
    {rs : List Resource} {k k' : ErrorKind} (h : FirstOffence rs k) (h' : FirstOffence rs k') :
    k = k' := by
  obtain ⟨before, r, after, rfl, hsound, hoffends⟩ := h
  obtain ⟨before', r', after', hsplit, hsound', hoffends'⟩ := h'
  have hsame : before = before' ∧ r = r' := by
    rcases Nat.le_total before.length before'.length with hle | hle
    · exact hoffends.split_eq hsound' hsplit hle
    · obtain ⟨hbefore, hr⟩ := hoffends'.split_eq hsound hsplit.symm hle
      exact ⟨hbefore.symm, hr.symm⟩
  obtain ⟨rfl, rfl⟩ := hsame
  exact hoffends.unique hoffends'

end Soundness

section Names

/-- Entries of one kind differ just if their names do. -/
theorem nodup_map_entry_iff
    {α : Type} {l : List α} (make : α → Resource) (kind : Kind)
    (hkind : ∀ a, (make a).kind = kind) :
    ((l.map make).map Resource.entry).Nodup ↔ (l.map fun a => (make a).name).Nodup := by
  have hentry : (l.map make).map Resource.entry =
      (l.map fun a => (make a).name).map (Entry.mk kind.label) := by
    simp [Resource.entry, hkind]
  rw [hentry]
  refine List.nodup_map_iff ?_
  intro a b h
  exact (Entry.mk.inj h).2

/-- Entries of different kinds differ. -/
theorem disjoint_map_entry
    {α β : Type} {l : List α} {l' : List β} (make : α → Resource) (make' : β → Resource)
    (hkind : ∀ a b, (make a).kind ≠ (make' b).kind) :
    ∀ e ∈ (l.map make).map Resource.entry,
      ∀ e' ∈ (l'.map make').map Resource.entry, e ≠ e' := by
  intro e he e' he' heq
  obtain ⟨r, hr, rfl⟩ := List.mem_map.1 he
  obtain ⟨r', hr', rfl⟩ := List.mem_map.1 he'
  obtain ⟨a, -, rfl⟩ := List.mem_map.1 hr
  obtain ⟨b, -, rfl⟩ := List.mem_map.1 hr'
  exact hkind a b (Resource.entry_eq_iff.1 heq).1

namespace Config

/-- No two definitions of a config are of one entry just if within each kind no
two have the same name. -/
theorem nodup_entries_definitions_iff
    (c : Config) :
    (c.definitions.map Resource.entry).Nodup ↔
      (c.projects.map Project.name).Nodup ∧ (c.features.map Feature.name).Nodup ∧
        (c.experiments.map Experiment.name).Nodup ∧ (c.launches.map Launch.name).Nodup := by
  have hp := nodup_map_entry_iff (l := c.projects) .project .project fun _ => rfl
  have hf := nodup_map_entry_iff (l := c.features) .feature .feature fun _ => rfl
  have he := nodup_map_entry_iff (l := c.experiments) .experiment .experiment fun _ => rfl
  have hl := nodup_map_entry_iff (l := c.launches) .launch .launch fun _ => rfl
  simp only [definitions, members, List.map_append, List.nodup_append, hp, hf, he, hl]
  constructor
  · rintro ⟨h₁, ⟨⟨h₂, h₃, -⟩, h₄, -⟩, -⟩
    exact ⟨h₁, h₂, h₃, h₄⟩
  · rintro ⟨h₁, h₂, h₃, h₄⟩
    refine ⟨h₁, ⟨⟨h₂, h₃, ?_⟩, h₄, ?_⟩, ?_⟩
    · exact disjoint_map_entry .feature .experiment fun _ _ => nofun
    · intro e he' e' hl'
      rcases List.mem_append.1 he' with h | h
      · exact disjoint_map_entry .feature .launch (fun _ _ => nofun) e h e' hl'
      · exact disjoint_map_entry .experiment .launch (fun _ _ => nofun) e h e' hl'
    · intro e hp' e' h
      rcases List.mem_append.1 h with h | h
      · rcases List.mem_append.1 h with h | h
        · exact disjoint_map_entry .project .feature (fun _ _ => nofun) e hp' e' h
        · exact disjoint_map_entry .project .experiment (fun _ _ => nofun) e hp' e' h
      · exact disjoint_map_entry .project .launch (fun _ _ => nofun) e hp' e' h

theorem forall_definitions_iff
    {c : Config} {P : Resource → Prop} :
    (∀ r ∈ c.definitions, P r) ↔
      (∀ p ∈ c.projects, P (.project p)) ∧ (∀ f ∈ c.features, P (.feature f)) ∧
        (∀ e ∈ c.experiments, P (.experiment e)) ∧ ∀ l ∈ c.launches, P (.launch l) := by
  simp only [definitions, members, List.forall_mem_append, List.forall_mem_map, and_assoc]

end Config

end Names
end FlagStack
