import FlagStack.Proofs.References
import FlagStack.Proofs.SynthesisEquation

/-!
# The order of definitions

A config lists its definitions in some order within each kind.  Whether synthesis
accepts the config does not depend on this order: what it asks for is asked of
each definition, or of names that differ, and where names differ a feature is
looked up as in a table.

The ids do depend on the order, since of definitions that ask for the same id the
first gets it.  Where no two ask for the same id, each gets the one it asks for,
and then the stack does not depend on the order either.

**Results.**
* `Reordered.accepted_iff`: acceptance does not depend on the order.
* `issued_of_idsApart`: ids that are asked for by one definition only are issued.
* `synthesize_reordered`: the templates of reordered configs.
-/

namespace FlagStack
namespace Config

open Synthesis

/-- The configs list the same definitions, in another order within a kind. -/
structure Reordered (c c' : Config) : Prop where
  stackName : c.stackName = c'.stackName
  account : c.account = c'.account
  region : c.region = c'.region
  projects : c.projects.Perm c'.projects
  features : c.features.Perm c'.features
  experiments : c.experiments.Perm c'.experiments
  launches : c.launches.Perm c'.launches

/-- Different names within a kind ask for different ids. -/
def IdsApart (digest : String → String) (c : Config) : Prop :=
  ∀ r ∈ c.definitions, ∀ r' ∈ c.definitions, r.kind = r'.kind →
    r.entry.baseId digest = r'.entry.baseId digest → r.name = r'.name

variable {digest : String → String} {options : Options} {c c' : Config}

section Acceptance

namespace Reordered

theorem symm
    (h : Reordered c c') :
    Reordered c' c :=
  ⟨h.stackName.symm, h.account.symm, h.region.symm, h.projects.symm, h.features.symm,
    h.experiments.symm, h.launches.symm⟩

variable (h : Reordered c c')
include h

theorem definitions :
    c.definitions.Perm c'.definitions := by
  have hmembers : c.members.Perm c'.members :=
    ((h.features.map _).append (h.experiments.map _)).append (h.launches.map _)
  exact (h.projects.map _).append hmembers

theorem emptyStack :
    emptyStack c = emptyStack c' := by
  rw [Synthesis.emptyStack, Synthesis.emptyStack, h.stackName, h.account, h.region]

theorem valid
    (hvalid : c.Valid) :
    c'.Valid :=
  ⟨h.stackName ▸ hvalid.stackName, h.account ▸ h.region ▸ hvalid.environment⟩

theorem sound
    (hsound : Sound c.definitions) :
    Sound c'.definitions :=
  ⟨fun r hr => hsound.admissible r (h.definitions.mem_iff.2 hr),
    (h.definitions.map _).nodup_iff.1 hsound.distinct⟩

/-- Where names of features differ, it does not matter that the last feature of a
name is looked up. -/
theorem offers
    (hnames : (c.features.map Feature.name).Nodup) {feature variation : String}
    (hoffers : c.Offers feature variation) :
    c'.Offers feature variation := by
  have hnames' := (h.features.map Feature.name).nodup_iff.1 hnames
  rcases (offers_iff_exists_feature hnames).1 hoffers with harn | ⟨f, hf, hvariation⟩
  · exact .inl harn
  · exact (offers_iff_exists_feature hnames').2 (.inr ⟨f, h.features.mem_iff.1 hf, hvariation⟩)

theorem linked
    (hnames : (c.features.map Feature.name).Nodup) (hlinked : c.Linked) :
    c'.Linked := by
  constructor
  · intro r hr name hname
    rcases hlinked.projects r (h.definitions.mem_iff.2 hr) name hname with harn | ⟨p, hp, heq⟩
    · exact .inl harn
    · exact .inr ⟨p, h.projects.mem_iff.1 hp, heq⟩
  · exact fun f hf o ho => h.offers hnames (hlinked.overrides f (h.features.mem_iff.2 hf) o ho)
  · exact fun f hf name hname =>
      h.offers hnames (hlinked.defaults f (h.features.mem_iff.2 hf) name hname)
  · exact fun e he t ht =>
      h.offers hnames (hlinked.treatments e (h.experiments.mem_iff.2 he) t ht)
  · exact fun e he => hlinked.controls e (h.experiments.mem_iff.2 he)
  · exact fun e he => hlinked.weights e (h.experiments.mem_iff.2 he)
  · exact fun l hl g hg => h.offers hnames (hlinked.groups l (h.launches.mem_iff.2 hl) g hg)
  · exact fun l hl => hlinked.steps l (h.launches.mem_iff.2 hl)

theorem accepted
    {strict : Bool} (haccepted : c.Accepted strict) :
    c'.Accepted strict := by
  have hnames := haccepted.featureNames
  obtain ⟨hvalid, hreferences, hsound⟩ := Config.accepted_iff.1 haccepted
  refine Config.accepted_iff.2 ⟨h.valid hvalid, ?_, h.sound hsound⟩
  intro hstrict
  exact dangling_eq_nil_iff.2 (h.linked hnames (dangling_eq_nil_iff.1 (hreferences hstrict)))

/-- What synthesis asks of a config does not depend on the order of definitions. -/
theorem accepted_iff
    {strict : Bool} :
    c.Accepted strict ↔ c'.Accepted strict :=
  ⟨h.accepted, h.symm.accepted⟩

end Reordered

end Acceptance

section Ids

/-- Where no two definitions ask for the same id, each has the id that it asks
for. -/
theorem issued_of_idsApart
    (hapart : c.IdsApart digest) :
    c.issued digest = c.definitions.map fun r => (r.entry.baseId digest, r) := by
  have hentries : ∀ e ∈ c.definitions.map Resource.entry, ∀ e' ∈ c.definitions.map Resource.entry,
      e.baseId digest = e'.baseId digest → e = e' := by
    simp only [List.forall_mem_map]
    intro r hr r' hr' hbase
    -- Ids begin with the label of their kind.
    have hcandidate :
        candidateId (r.entry.baseId digest) 0 = candidateId (r'.entry.baseId digest) 0 :=
      hbase
    have hkind : r.kind = r'.kind := kind_eq_of_candidateId_eq hcandidate
    exact Resource.entry_eq_iff.2 ⟨hkind, hapart r hr r' hr' hkind hbase⟩
  have hissue : EntryIds.empty.issue digest (c.definitions.map Resource.entry) =
      (c.definitions.map Resource.entry).map (Entry.baseId digest) :=
    EntryIds.issue_eq_baseIds nofun hentries
  rw [issued, hissue, List.map_map]
  generalize c.definitions = rs
  induction rs with
  | nil => rfl
  | cons r rs ih => rw [List.map_cons, List.map_cons, List.zip_cons_cons, ih]; rfl

theorem Reordered.idsApart
    (h : Reordered c c') (hapart : c.IdsApart digest) :
    c'.IdsApart digest :=
  fun r hr r' hr' =>
    hapart r (h.definitions.mem_iff.2 hr) r' (h.definitions.mem_iff.2 hr')

/-- The same definitions stand under the same ids. -/
theorem Reordered.issued
    (h : Reordered c c') (hapart : c.IdsApart digest) :
    (c.issued digest).Perm (c'.issued digest) := by
  rw [issued_of_idsApart hapart, issued_of_idsApart (h.idsApart hapart)]
  exact h.definitions.map _

end Ids

/-- A stack does not show in which order it has been filled. -/
theorem filled_eq_of_perm
    {made made' : List (String × Resource)} (hperm : made.Perm made')
    (h : (made.map Prod.fst).Nodup) (resolution : Token → Token) (base : Stack) :
    filled options resolution base made = filled options resolution base made' := by
  have hresources : Table.ofList (made.map fun m => (m.1, m.2.mapProject resolution)) =
      Table.ofList (made'.map fun m => (m.1, m.2.mapProject resolution)) := by
    refine Table.ofList_eq_of_perm (hperm.map _) ?_
    rw [List.map_map]
    exact h
  have houtputs : Table.ofList (made.map fun m => arnOutput m.1) =
      Table.ofList (made'.map fun m => arnOutput m.1) :=
    Table.ofList_eq_of_perm (hperm.map _) (nodup_arnOutputs h)
  rw [filled, filled, hresources, houtputs]

/-- Reordered configs have the same stack where names ask for different ids. -/
theorem Reordered.synthesizeWith
    (hd : ∀ name, Alphanumeric (digest name)) (h : Reordered c c') (hapart : c.IdsApart digest)
    {s : Stack} (hs : c.synthesizeWith digest options = .ok s) :
    c'.synthesizeWith digest options = .ok s := by
  have hnodup := nodup_issued hd hs
  have hissued := h.issued hapart
  obtain ⟨haccepted, rfl⟩ := (synthesizeWith_eq_ok_iff hd).1 hs
  have hsound := (Config.accepted_iff.1 haccepted).2.2
  have htoken : c'.projectToken (idIn (c'.issued digest)) =
      c.projectToken (idIn (c.issued digest)) :=
    projectToken_congr hsound (h.sound hsound) fun id e => by
      simp only [hissued.mem_iff]
  refine (synthesizeWith_eq_ok_iff hd).2 ⟨h.accepted haccepted, ?_⟩
  rw [htoken, ← h.emptyStack]
  exact filled_eq_of_perm hissued hnodup _ _

/-- The order of definitions within a kind does not matter where names ask for
different ids: synthesis succeeds on both configs or on neither, and the templates
are the same text. -/
theorem synthesize_reordered
    (h : Reordered c c') (hapart : c.IdsApart Digest.ofText) (options : Options) :
    ((∃ s, c.synthesize options = .ok s) ↔ ∃ s', c'.synthesize options = .ok s') ∧
      ∀ s s', c.synthesize options = .ok s → c'.synthesize options = .ok s' →
        s.templateText = s'.templateText := by
  have hto : ∀ s, c.synthesize options = .ok s → c'.synthesize options = .ok s :=
    fun s hs => h.synthesizeWith alphanumeric_ofText hapart hs
  have hfrom : ∀ s, c'.synthesize options = .ok s → c.synthesize options = .ok s :=
    fun s hs => h.symm.synthesizeWith alphanumeric_ofText (h.idsApart hapart) hs
  refine ⟨⟨?_, ?_⟩, ?_⟩
  · rintro ⟨s, hs⟩
    exact ⟨s, hto s hs⟩
  · rintro ⟨s, hs⟩
    exact ⟨s, hfrom s hs⟩
  · intro s s' hs hs'
    have heq : s = s' := Except.ok.inj ((hto s hs).symm.trans hs')
    rw [heq]

/-- Two projects and a feature of each. -/
def paired : Config where
  stackName := "s"
  account := none
  region := none
  projects := [⟨"a", none, none, Table.empty⟩, ⟨"b", none, none, Table.empty⟩]
  features :=
    [⟨"f", .literal "a", [⟨none, .boolean true⟩], [], none, none, none, Table.empty⟩,
      ⟨"g", .literal "b", [⟨none, .boolean true⟩], [], none, none, none, Table.empty⟩]
  experiments := []
  launches := []

theorem paired_reordered :
    let swapped := { paired with
      projects := paired.projects.reverse, features := paired.features.reverse }
    Reordered paired swapped ∧ paired.IdsApart Digest.ofText ∧
      ∃ s, paired.synthesize ⟨true, true⟩ = .ok s ∧
        ∃ s', swapped.synthesize ⟨true, true⟩ = .ok s' ∧ s.templateText = s'.templateText := by
  intro swapped
  have hreordered : Reordered paired swapped :=
    ⟨rfl, rfl, rfl, paired.projects.reverse_perm.symm, paired.features.reverse_perm.symm,
      .nil, .nil⟩
  have hapart : paired.IdsApart Digest.ofText := by
    unfold IdsApart
    decide +kernel
  have haccepted : paired.Accepted true := by
    constructor
    · exact ⟨by decide, by decide⟩
    all_goals decide
  obtain ⟨s, hs⟩ := haccepted.exists_stack ⟨true, true⟩
  obtain ⟨hverdict, htext⟩ := synthesize_reordered hreordered hapart ⟨true, true⟩
  obtain ⟨s', hs'⟩ := hverdict.1 ⟨s, hs⟩
  exact ⟨hreordered, hapart, s, hs, s', hs', htext s s' hs hs'⟩

end Config
end FlagStack
