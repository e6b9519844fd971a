import FlagStack.Kind
import FlagStack.Proofs.ResourceNames

/-!
# Paths of resource names

The resource of a resource name is a path of pieces between slashes.  What belongs to a
project stands on a path `project/p/kind/name`, where the project and the name can be any
texts without separators, also words for kinds.

A kind is looked for among all pieces of a path, and not only where kinds stand.  The
project is found whatever it is called, since its kind stands first, and the name is
found from the other end.  But behind the kind the name is found only if the project is
not called like a kind.

**Results.**
* `split_joined`: joined pieces are split into these pieces.
* `lastPiece_append`, `lastPiece_eq_nil_iff`: what stands at the end of a path.
* `exists_name_eq_error_iff`: which resources have no name.
* `nameAfter_pathIn`: what is found on the path of something that belongs to a project.
-/

namespace FlagStack

namespace Text

section Splitting

variable {separator : Char} {s piece rest : List Char}

/-- From the length of the text on, it does not matter how many pieces there may be. -/
theorem splitFirst_eq_of_length_le
    {count other : Nat} (h : s.length ≤ count) (h' : s.length ≤ other) :
    splitFirst separator count s = splitFirst separator other s := by
  induction count generalizing s other with
  | zero =>
      obtain rfl := List.eq_nil_of_length_eq_zero (Nat.le_zero.1 h)
      rw [splitFirst_of_not_mem _ List.not_mem_nil, splitFirst_of_not_mem _ List.not_mem_nil]
  | succ count ih =>
      rcases exists_piece separator s with hnone | ⟨piece, rest, hpiece, rfl⟩
      · rw [splitFirst_of_not_mem _ hnone, splitFirst_of_not_mem _ hnone]
      · rw [List.length_append, List.length_cons] at h h'
        obtain ⟨other, rfl⟩ := Nat.exists_eq_add_one_of_ne_zero (n := other) (by omega)
        have hrest : splitFirst separator count rest = splitFirst separator other rest :=
          ih (by omega) (by omega)
        rw [splitFirst_append _ hpiece, splitFirst_append _ hpiece, hrest]

theorem split_append
    (h : separator ∉ piece) :
    split separator (piece ++ separator :: rest) = piece :: split separator rest := by
  have hlength : (piece ++ separator :: rest).length = piece.length + rest.length + 1 := by
    simp [Nat.add_assoc]
  rw [split, hlength, splitFirst_append _ h, split]
  exact congrArg _ (splitFirst_eq_of_length_le (by omega) (by omega))

/-- Joined pieces are split into these pieces. -/
theorem split_joined
    {pieces : List (List Char)} {last : List Char} (hpieces : ∀ piece ∈ pieces, separator ∉ piece)
    (hlast : separator ∉ last) :
    split separator (pieces.flatMap (· ++ [separator]) ++ last) = pieces ++ [last] := by
  induction pieces with
  | nil => exact splitFirst_of_not_mem _ hlast
  | cons first pieces ih =>
      rw [List.forall_mem_cons] at hpieces
      rw [List.flatMap_cons, List.append_assoc, List.append_assoc, List.singleton_append,
        split_append hpieces.1, ih hpieces.2, List.cons_append]

end Splitting

section Ends

variable {isSeparator : Char → Bool} {s piece : List Char} {c : Char}

theorem lastPiece_append
    (hc : isSeparator c) (hpiece : ∀ d ∈ piece, ¬ isSeparator d) :
    lastPiece isSeparator (s ++ c :: piece) = piece := by
  have hreverse : (s ++ c :: piece).reverse = piece.reverse ++ c :: s.reverse := by simp
  have hplain : ∀ d ∈ piece.reverse, (!isSeparator d) = true := by
    intro d hd
    simpa using hpiece d (List.mem_reverse.1 hd)
  rw [lastPiece, hreverse, List.takeWhile_append_of_pos hplain,
    List.takeWhile_cons_of_neg (by simp [hc]), List.append_nil, List.reverse_reverse]

/-- Nothing stands at the end of a text just if it ends in a separator. -/
theorem lastPiece_eq_nil_iff
    (hs : s ≠ []) :
    lastPiece isSeparator s = [] ↔ ∃ c, isSeparator c ∧ [c] <:+ s := by
  obtain ⟨start, last, rfl⟩ := (List.eq_nil_or_concat s).resolve_left hs
  rw [List.concat_eq_append, lastPiece, List.reverse_append, List.reverse_singleton,
    List.singleton_append]
  by_cases hlast : isSeparator last
  · rw [List.takeWhile_cons_of_neg (by simp [hlast])]
    exact iff_of_true rfl ⟨last, hlast, List.suffix_append start [last]⟩
  · rw [List.takeWhile_cons_of_pos (by simp [hlast])]
    refine iff_of_false (by simp) ?_
    rintro ⟨c, hc, hsuffix⟩
    have hsame : [c] = [last] :=
      List.IsSuffix.eq_of_length_le
        (List.suffix_of_suffix_length_le hsuffix (List.suffix_append start [last]) le_rfl) le_rfl
    cases hsame
    exact hlast hc

end Ends
end Text

/-- The path of something of a kind that belongs to a project. -/
def Kind.pathIn (kind : Kind) (project name : String) : String :=
  "project/" ++ project ++ "/" ++ kind.noun ++ "/" ++ name

namespace Kind

theorem noun_injective :
    Function.Injective noun := by
  intro a b h
  cases a <;> cases b <;> first | rfl | (exact absurd h (by decide))

theorem noun_ne_empty
    (kind : Kind) :
    kind.noun ≠ "" := by
  cases kind <;> decide

theorem slash_not_mem_noun
    (kind : Kind) :
    '/' ∉ kind.noun.toList := by
  cases kind <;> decide

theorem toList_pathIn
    (kind : Kind) (project name : String) :
    (kind.pathIn project name).toList =
      ["project".toList, project.toList, kind.noun.toList].flatMap (· ++ ['/']) ++
        name.toList := by
  simp [pathIn]

end Kind

namespace Arn

variable {a : Arn} {project name : String} {kind : Kind}

section Names

/-- A resource has no name just if its path ends in a separator. -/
theorem exists_name_eq_error_iff
    (h : a.resource ≠ "") :
    (∃ fault, a.name = .error fault) ↔ ∃ c ∈ ['/', ':'], [c] <:+ a.resource.toList := by
  have hresource : a.resource.toList ≠ [] := by simpa using h
  have hnil := @Text.lastPiece_eq_nil_iff (fun c => c = '/' || c = ':') _ hresource
  have hname : (∃ fault, a.name = .error fault) ↔
      Text.lastPiece (fun c => c = '/' || c = ':') a.resource.toList = [] := by
    by_cases hempty : Text.lastPiece (fun c => c = '/' || c = ':') a.resource.toList = [] <;>
      simp [Arn.name, hempty]
  rw [hname, hnil]
  simp

/-- The name is what stands behind the last separator. -/
theorem name_of_append
    {start : List Char} {c : Char} (hresource : a.resource.toList = start ++ c :: name.toList)
    (hc : c ∈ ['/', ':']) (hgiven : name ≠ "") (hplain : ∀ d ∈ ['/', ':'], d ∉ name.toList) :
    a.name = .ok name := by
  have hlast : Text.lastPiece (fun c => c = '/' || c = ':') a.resource.toList = name.toList := by
    rw [hresource]
    refine Text.lastPiece_append (by simpa using hc) fun d hd => ?_
    have hne : d ≠ '/' ∧ d ≠ ':' :=
      ⟨fun h => hplain '/' (by simp) (h ▸ hd), fun h => hplain ':' (by simp) (h ▸ hd)⟩
    simp [hne]
  simp [Arn.name, hlast, hgiven]

end Names

section Nested

variable (hpath : a.resource = kind.pathIn project name) (hproject : '/' ∉ project.toList)
include hpath

theorem name_pathIn
    (hgiven : name ≠ "") (hplain : ∀ d ∈ ['/', ':'], d ∉ name.toList) :
    a.name = .ok name := by
  have hresource : a.resource.toList =
      ("project/" ++ project ++ "/" ++ kind.noun).toList ++ '/' :: name.toList := by
    simp [hpath, Kind.pathIn]
  exact name_of_append hresource (by simp) hgiven hplain

include hproject

/-- The pieces of the path. -/
theorem split_pathIn
    (hname : '/' ∉ name.toList) :
    (Text.split '/' a.resource.toList).map String.ofList =
      ["project", project, kind.noun, name] := by
  have hpieces : ∀ piece ∈ ["project".toList, project.toList, kind.noun.toList], '/' ∉ piece := by
    simp [hproject, kind.slash_not_mem_noun]
  rw [hpath, Kind.toList_pathIn, Text.split_joined hpieces hname]
  simp

/-- The first piece of the path is the kind of the project. -/
theorem nameAfter_project
    (hgiven : project ≠ "") (hname : '/' ∉ name.toList) :
    a.nameAfter "project" = some project := by
  rw [nameAfter, split_pathIn hpath hproject hname]
  simp [following, hgiven]

/-- A kind is found where the project is called like it, or else in its place. -/
theorem nameAfter_kind
    (hgiven : name ≠ "") (hname : '/' ∉ name.toList) {other : Kind} (hother : other ≠ .project) :
    a.nameAfter other.noun =
      if project = other.noun then some kind.noun
      else if other = kind then some name
      else none := by
  have hfirst : "project" ≠ other.noun :=
    show Kind.project.noun ≠ other.noun from Kind.noun_injective.ne hother.symm
  rw [nameAfter, split_pathIn hpath hproject hname]
  by_cases hcalled : project = other.noun
  · simp [following, hfirst, hcalled, kind.noun_ne_empty]
  · by_cases hkind : other = kind
    · subst hkind
      simp [following, hfirst, hcalled, hgiven]
    · have hplace : kind.noun ≠ other.noun := Kind.noun_injective.ne (Ne.symm hkind)
      -- Nothing follows the name, also where it is called like the kind.
      by_cases hlast : name = other.noun <;>
        simp [following, hfirst, hcalled, hkind, hplace, hlast]

end Nested

/-- On the path of something that belongs to a project the project is found behind its
kind, and the name at the end.  Behind the kind of that thing the name is found, and
behind the other kinds nothing is, unless the project is called like one of them: then
the piece behind the project's name is found in their place. -/
theorem nameAfter_pathIn
    (a : Arn) (project name : String) (kind : Kind) (hkind : kind ≠ .project)
    (hpath : a.resource = kind.pathIn project name)
    (hproject : project ≠ "" ∧ ∀ c ∈ ['/', ':'], c ∉ project.toList)
    (hname : name ≠ "" ∧ ∀ c ∈ ['/', ':'], c ∉ name.toList) :
    a.nameAfter "project" = some project ∧ a.name = .ok name ∧
      (∀ other : Kind, other ≠ .project →
        a.nameAfter other.noun =
          if project = other.noun then some kind.noun
          else if other = kind then some name
          else none) ∧
      ((∀ other : Kind, other ≠ .project →
          a.nameAfter other.noun = if other = kind then some name else none) ↔
        (∀ other : Kind, other ≠ .project → project ≠ other.noun) ∨
          project = kind.noun ∧ name = kind.noun) := by
  have hslash : '/' ∉ project.toList ∧ '/' ∉ name.toList :=
    ⟨hproject.2 '/' (by simp), hname.2 '/' (by simp)⟩
  have hfound := fun (other : Kind) (hother : other ≠ .project) =>
    nameAfter_kind hpath hslash.1 hname.1 hslash.2 hother
  refine ⟨nameAfter_project hpath hslash.1 hproject.1 hslash.2,
    name_pathIn hpath hname.1 hname.2, hfound, ?_⟩
  constructor
  · intro hplaced
    by_cases hcalled : ∃ other, other ≠ Kind.project ∧ project = other.noun
    · obtain ⟨other, hother, rfl⟩ := hcalled
      have hsame := (hfound other hother).symm.trans (hplaced other hother)
      rw [if_pos rfl] at hsame
      -- What is found is a kind, so that it is found rightly only if the name is that kind.
      split at hsame
      · next heq =>
          subst heq
          exact .inr ⟨rfl, (Option.some.inj hsame).symm⟩
      · cases hsame
    · exact .inl fun other hother h => hcalled ⟨other, hother, h⟩
  · rintro (hfree | ⟨rfl, rfl⟩) other hother
    · rw [hfound other hother, if_neg (hfree other hother)]
    · rw [hfound other hother]
      by_cases heq : other = kind
      · simp [heq]
      · simp [heq, Kind.noun_injective.ne (Ne.symm heq)]

/-- A feature of a project that is called like a launch. -/
def underLaunch : Arn :=
  ⟨"aws", "evidently", "us-east-1", "123456789012", "project/launch/feature/project"⟩

theorem underLaunch_found :
    underLaunch.nameAfter "project" = some "launch" ∧ underLaunch.name = .ok "project" ∧
      underLaunch.nameAfter "feature" = some "project" ∧
      underLaunch.nameAfter "launch" = some "feature" := by
  obtain ⟨hproject, hname, hkinds, -⟩ :=
    nameAfter_pathIn underLaunch "launch" "project" .feature (by decide) rfl
      ⟨by decide, by simp⟩ ⟨by decide, by simp⟩
  exact ⟨hproject, hname, hkinds .feature (by decide), hkinds .launch (by decide)⟩

/-- Behind its kind the name is not always found. -/
theorem name_not_always_after_kind :
    ¬ ∀ (a : Arn) (project name : String) (kind : Kind), kind ≠ .project →
      a.resource = kind.pathIn project name →
      (project ≠ "" ∧ ∀ c ∈ ['/', ':'], c ∉ project.toList) →
      (name ≠ "" ∧ ∀ c ∈ ['/', ':'], c ∉ name.toList) →
      a.nameAfter kind.noun = some name := by
  intro h
  have hname := h ⟨"aws", "evidently", "us-east-1", "123456789012", "project/feature/feature/f1"⟩
    "feature" "f1" .feature (by decide) rfl ⟨by decide, by simp⟩ ⟨by decide, by simp⟩
  exact absurd hname (by decide)

end Arn
end FlagStack
