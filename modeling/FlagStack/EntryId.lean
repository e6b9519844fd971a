import FlagStack.Kind

/-!
# Ids of entries

The id of an entry of a config is made from its kind and name.  Letters and
digits of the name are kept, the first in upper case; if that loses anything a
digest of the name is appended.

Different entries can still come to the same id.  The first to ask for it keeps
it, and the others get a number appended: the least from two on that makes the
id free.  An entry that asks again gets the id that it has.

The digest is a parameter: that ids are kept apart does not rest on it.
-/

namespace FlagStack

/-- What an id is given to. -/
structure Entry where
  kind : String
  name : String
deriving DecidableEq

namespace Entry

/-- The id that an entry asks for first. -/
def baseId (digest : String → String) (e : Entry) : String :=
  let kept := e.name.toList.filter Char.isAlphanum
  let head :=
    match kept with
    | [] => []
    | c :: rest => c.toUpper :: rest
  let tail := if kept ≠ e.name.toList ∨ e.name.isEmpty then digest e.name else ""
  e.kind ++ String.ofList head ++ tail

end Entry

/-- The id to try after `tried` others. -/
def candidateId (base : String) (tried : Nat) : String :=
  if tried = 0 then base else base ++ toString (tried + 1)

/-- Ids in use, each with its entry. -/
structure EntryIds where
  inUse : List (String × Entry)

namespace EntryIds

/-- No id is in use. -/
def empty : EntryIds := ⟨[]⟩

/-- The id belongs to another entry. -/
def isForeign (ids : EntryIds) (e : Entry) (id : String) : Bool :=
  match ids.inUse.lookup id with
  | some other => other != e
  | none => false

/-- The first candidate that belongs to no other entry, `tried` of them having
been tried and at most `left` being tested.  Candidates differ, so of one more
than there are ids in use one is free. -/
def firstOpen (ids : EntryIds) (e : Entry) (base : String) : Nat → Nat → String
  | 0, tried => candidateId base tried
  | left + 1, tried =>
      let id := candidateId base tried
      if ids.isForeign e id then ids.firstOpen e base left (tried + 1) else id

/-- The id of an entry, and the ids in use from now on. -/
def assign (ids : EntryIds) (digest : String → String) (e : Entry) : String × EntryIds :=
  let id := ids.firstOpen e (e.baseId digest) ids.inUse.length 0
  match ids.inUse.lookup id with
  | some _ => (id, ids)
  | none => (id, ⟨(id, e) :: ids.inUse⟩)

end EntryIds
end FlagStack
