import FlagStack.Proofs.Respellings
import FlagStack.Proofs.SpelledTexts
import FlagStack.Synthesis

/-!
# Spellings of the same config

A config text can be spelled in another way without becoming another config: members in
another order, members that no field answers to, another name of a field, `null` or an
empty collection for what is left out, all at any depth and any number of times.

An array that lists the fields of a record is no object: there only empty collections can
be left out, not the `null` of a field that an object may leave out.

**Results.**
* `Config.decode_of_respelled`: a text that holds a config can be spelled in another way.
* `Config.decode_shortened_array`: what can not be left out of an array.
-/

namespace FlagStack
namespace Config

/-- One text comes from another by a change of spelling in one place. -/
def Respelled (text text' : String) : Prop :=
  ∃ lead v trail lead' v' trail', Config.shape.Respelled v v' ∧
    text = Spelling.document lead v trail ∧ text' = Spelling.document lead' v' trail'

theorem respelled_document
    {v v' : Spelling} (h : Relation.EqvGen Config.shape.Respelled v v') (lead trail : Blanks) :
    Relation.EqvGen Respelled (Spelling.document lead v trail)
      (Spelling.document lead v' trail) := by
  induction h with
  | rel v v' h => exact .rel _ _ ⟨lead, v, trail, lead, v', trail, h, rfl, rfl⟩
  | refl v => exact .refl _
  | symm v v' _ ih => exact .symm _ _ ih
  | trans v v' v'' _ _ ih ih' => exact .trans _ _ _ ih ih'

theorem toOption_decode_of_respelled
    {text text' : String} (h : Relation.EqvGen Respelled text text') :
    (Config.shape.decode text).toOption = (Config.shape.decode text').toOption := by
  induction h with
  | rel text text' h =>
      obtain ⟨lead, v, trail, lead', v', trail', hchange, rfl, rfl⟩ := h
      rw [Shape.decode_document, Shape.decode_document, hchange.meaning (by decide)]
  | refl text => rfl
  | symm text text' _ ih => exact ih.symm
  | trans text text' text'' _ _ ih ih' => exact ih.trans ih'

/-- A text that holds a config has a spelling, and it holds the same config however it is
spelled. -/
theorem decode_of_respelled
    {text : String} {c : Config} (h : Config.shape.decode text = .ok c) :
    (∃ lead v trail, text = Spelling.document lead v trail) ∧
      ∀ text', Relation.EqvGen Respelled text text' →
        Config.shape.decode text' = .ok c ∧ Config.decode text' = Config.decode text := by
  refine ⟨Shape.exists_document_of_decode _ h, fun text' hchain => ?_⟩
  have hsame := toOption_decode_of_respelled hchain
  rw [h] at hsame
  cases hdecode : Config.shape.decode text' with
  | error e =>
      rw [hdecode] at hsame
      cases hsame
  | ok c' =>
      rw [hdecode] at hsame
      cases hsame
      exact ⟨rfl, by rw [Config.decode, Config.decode, h, hdecode]⟩

/-- An object can leave out the region, an array that lists the fields can not. -/
theorem decode_shortened_array :
    Config.shape.decode "[\"s\",null,null]" = .ok ⟨"s", none, none, [], [], [], []⟩ ∧
      Config.shape.decode "\x7b\"stackName\":\"s\",\"account\":null\x7d" =
        .ok ⟨"s", none, none, [], [], [], []⟩ ∧
      Config.shape.decode "[\"s\",null]" = .error (.wrongLength 2 "AppConfig" 7) := by
  decide +kernel

section OneOverride

/-- The characters of a string that can stand for themselves. -/
def plainPieces (s : String) : List Piece :=
  s.toList.filterMap fun c =>
    if h : c ≠ '"' ∧ c ≠ '\\' ∧ ¬ c.toNat < 0x20 then some (.plain c h.1 h.2.1 h.2.2) else none

def tight : Gaps := ⟨.empty, .empty⟩

def tightMember (key : String) (v : Spelling) : Label × Gaps × Spelling :=
  (⟨.empty, plainPieces key, .empty⟩, tight, v)

/-- An override of which the variation stands under a key. -/
def oneOverrideMembers (key : String) : List (Label × Gaps × Spelling) :=
  [tightMember "entityId" (.string (plainPieces "e")),
   tightMember key (.string (plainPieces "v"))]

def oneFeatureMembers (key : String) : List (Label × Gaps × Spelling) :=
  [tightMember "name" (.string (plainPieces "f")),
   tightMember "project" (.string (plainPieces "p")),
   tightMember "variations" (.array [] .empty),
   tightMember "entityOverrides"
    (.array [(tight, .object (oneOverrideMembers key) .empty)] .empty)]

def oneConfigMembers (key : String) : List (Label × Gaps × Spelling) :=
  [tightMember "stackName" (.string (plainPieces "s")),
   tightMember "features"
    (.array [(tight, .object (oneFeatureMembers key) .empty)] .empty)]

/-- `1e999`, which is out of range where it is kept. -/
def outOfRange : Spelling :=
  .number ⟨false, ⟨['1'], by simp, List.all_eq_true.1 rfl⟩, by decide, none,
    some ⟨false, none, ⟨['9', '9', '9'], by simp, List.all_eq_true.1 rfl⟩⟩⟩

theorem oneConfig_renamed :
    Config.shape.Respelled (.object (oneConfigMembers "variationName") .empty)
      (.object (oneConfigMembers "variation") .empty) := by
  have hoverride : Override.shape.Respelled (.object (oneOverrideMembers "variationName") .empty)
      (.object (oneOverrideMembers "variation") .empty) :=
    .named (.members .empty (.renamed [_] [] _ _ tight _ rfl rfl rfl rfl))
  have hfeature : Feature.shape.Respelled (.object (oneFeatureMembers "variationName") .empty)
      (.object (oneFeatureMembers "variation") .empty) :=
    .named (.member [_, _, _] [] _ tight .empty rfl rfl (.item [] [] tight .empty hoverride))
  exact .named (.member [_] [] _ tight .empty rfl rfl (.item [] [] tight .empty hfeature))

/-- A member that nobody asked for, `null` and an empty list. -/
def idleMembers : List (Label × Gaps × Spelling) :=
  [tightMember "projects" (.array [] .empty),
   tightMember "account" (.literal .null),
   tightMember "legacy" (.array [(tight, outOfRange)] .empty)]

theorem oneConfig_filled :
    Relation.EqvGen Config.shape.Respelled (.object (oneConfigMembers "variation") .empty)
      (.object (idleMembers ++ oneConfigMembers "variation") .empty) := by
  have hlegacy : Config.shape.Respelled (.object (oneConfigMembers "variation") .empty)
      (.object (idleMembers.drop 2 ++ oneConfigMembers "variation") .empty) :=
    .named (.members .empty (.inserted [] (oneConfigMembers "variation") _ tight _ rfl rfl))
  have haccount : Config.shape.Respelled
      (.object (idleMembers.drop 2 ++ oneConfigMembers "variation") .empty)
      (.object (idleMembers.drop 1 ++ oneConfigMembers "variation") .empty) :=
    .named (.members .empty
      (.given [] (idleMembers.drop 2 ++ oneConfigMembers "variation") _ tight _ rfl rfl
        (by decide) (.null _ rfl)))
  have hprojects : Config.shape.Respelled
      (.object (idleMembers.drop 1 ++ oneConfigMembers "variation") .empty)
      (.object (idleMembers ++ oneConfigMembers "variation") .empty) :=
    .named (.members .empty
      (.given [] (idleMembers.drop 1 ++ oneConfigMembers "variation") _ tight _ rfl rfl
        (by decide) (.empty (.list _ _ rfl))))
  exact .trans _ _ _ (.rel _ _ hlegacy) (.trans _ _ _ (.rel _ _ haccount) (.rel _ _ hprojects))

def oneConfig : Config :=
  ⟨"s", none, none, [], [⟨"f", .literal "p", [], [⟨"e", "v"⟩], none, none, none, Table.empty⟩],
    [], []⟩

def oneConfigText : String :=
  "\x7b\"stackName\":\"s\",\"features\":[\x7b\"name\":\"f\",\"project\":\"p\"," ++
    "\"variations\":[],\"entityOverrides\":[\x7b\"entityId\":\"e\"," ++
    "\"variationName\":\"v\"\x7d]\x7d]\x7d"

def filledText : String :=
  "\x7b\"features\":[\x7b\"name\":\"f\",\"project\":\"p\",\"variations\":[]," ++
    "\"entityOverrides\":[\x7b\"entityId\":\"e\",\"variation\":\"v\"\x7d]\x7d]," ++
    "\"stackName\":\"s\",\"legacy\":[1e999],\"account\":null,\"projects\":[]\x7d"

/-- What a variation is called, what nobody asked for, what is left out and in which order
the members stand makes no other config. -/
theorem oneOverride_respelled :
    Config.shape.decode oneConfigText = .ok oneConfig ∧
      Config.shape.decode filledText = .ok oneConfig := by
  have hreordered : Config.shape.Respelled
      (.object (idleMembers ++ oneConfigMembers "variation") .empty)
      (.object (idleMembers ++ oneConfigMembers "variation").reverse .empty) :=
    .named (.members .empty (.reordered ((List.reverse_perm _).symm.map core)))
  have hchain : Relation.EqvGen Config.shape.Respelled
      (.object (oneConfigMembers "variationName") .empty)
      (.object (idleMembers ++ oneConfigMembers "variation").reverse .empty) :=
    .trans _ _ _ (.rel _ _ oneConfig_renamed) (.trans _ _ _ oneConfig_filled (.rel _ _ hreordered))
  have htexts := respelled_document hchain .empty .empty
  have hfirst : Spelling.document .empty (.object (oneConfigMembers "variationName") .empty)
      .empty = oneConfigText := by decide +kernel
  have hlast : Spelling.document .empty
      (.object (idleMembers ++ oneConfigMembers "variation").reverse .empty) .empty =
      filledText := by decide +kernel
  rw [hfirst, hlast] at htexts
  have hread : Config.shape.decode oneConfigText = .ok oneConfig := by decide +kernel
  exact ⟨hread, ((decode_of_respelled hread).2 _ htexts).1⟩

end OneOverride

end Config
end FlagStack
