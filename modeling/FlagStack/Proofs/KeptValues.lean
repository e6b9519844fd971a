import FlagStack.Proofs.FiniteNumbers
import FlagStack.Proofs.Readers

/-!
# Values that are kept

What a value that is read from a text looks like, whatever the text: its numbers are
in range, the keys of its objects increase, and it is nested no deeper than there was
room for.

**Results.**
* `gives_readValue`: a value that is read is such a value.
-/

namespace FlagStack
namespace Json

/-- A value as it is kept, with room for so many containers inside of each other. -/
inductive Kept : Nat → Json → Prop
  | null {room : Nat} : Kept room .null
  | bool {room : Nat} {b : Bool} : Kept room (.bool b)
  | number {room : Nat} {v : Json} (h : Numeral.InRange v) : Kept room v
  | string {room : Nat} {s : String} : Kept room (.string s)
  | array {room : Nat} {items : List Json} (h : ∀ v ∈ items, Kept room v) :
      Kept (room + 1) (.array items)
  | object {room : Nat} {members : List (String × Json)}
      (increasing : members.Pairwise (·.1 < ·.1)) (h : ∀ m ∈ members, Kept room m.2) :
      Kept (room + 1) (.object members)

section Scalars

variable {room : Nat}

/-- A literal, string or number is a value without containers. -/
theorem gives_readScalar :
    Reader.Gives readScalar (Kept room) := by
  intro s v rest h
  cases s with
  | nil => cases h
  | cons c s =>
      rw [readScalar] at h
      split at h
      · obtain ⟨_, -, hv⟩ := bind_eq_ok_iff.1 h
        cases hv
        exact .null
      · split at h
        · obtain ⟨_, -, hv⟩ := bind_eq_ok_iff.1 h
          cases hv
          exact .bool
        · split at h
          · obtain ⟨_, -, hv⟩ := bind_eq_ok_iff.1 h
            cases hv
            exact .bool
          · split at h
            · obtain ⟨⟨_, _⟩, -, hv⟩ := bind_eq_ok_iff.1 h
              cases hv
              exact .string
            · split at h
              · obtain ⟨⟨n, left⟩, -, hn⟩ := bind_eq_ok_iff.1 h
                obtain ⟨w, hw, hv⟩ := bind_eq_ok_iff.1 hn
                cases hv
                exact .number (.of_value hw)
              · cases h

end Scalars

theorem gives_byBracket
    {α : Type} {P : α → Prop} {list object scalar : Reader α}
    (hlist : list.Gives P) (hobject : object.Gives P) (hscalar : scalar.Gives P) :
    (byBracket list object scalar).Gives P := by
  intro s a rest h
  rw [byBracket] at h
  split at h
  · exact hlist _ _ _ h
  · exact hobject _ _ _ h
  · exact hscalar _ _ _ h

/-- Members in increasing key order whose values are kept. -/
def KeptMembers (room : Nat) (members : List (String × Json)) : Prop :=
  members.Pairwise (·.1 < ·.1) ∧ ∀ m ∈ members, Kept room m.2

theorem KeptMembers.insertEntry
    {room : Nat} {members : List (String × Json)} (h : KeptMembers room members)
    (key : String) {v : Json} (hv : Kept room v) :
    KeptMembers room (insertEntry key v members) := by
  refine ⟨pairwise_insertEntry key v h.1, ?_⟩
  intro m hm
  rcases mem_insertEntry hm with rfl | hm
  · exact hv
  · exact h.2 m hm

/-- A value that is read has a form in which it can be kept. -/
theorem gives_readValue
    (bound room : Nat) :
    (readValue bound room).Gives (Kept room) := by
  induction room with
  | zero => exact gives_byBracket (gives_throw _) (gives_throw _) gives_readScalar
  | succ room ih =>
      refine gives_byBracket ?_ ?_ gives_readScalar
      · refine gives_map fun s items rest h => .array ?_
        exact gives_items ih bound (fun v hv => (by cases hv)) s items rest h
      · have hmember : ∀ key l, KeptMembers room l →
            Reader.Gives (do colon; return insertEntry key (← readValue bound room) l)
              (KeptMembers room) :=
          fun key l hl => gives_bind_of_forall fun _ =>
            gives_bind ih fun v hv => gives_pure (hl.insertEntry key hv)
        refine gives_map fun s members rest h => ?_
        obtain ⟨hincreasing, hkept⟩ :=
          gives_members hmember bound ⟨List.Pairwise.nil, nofun⟩ s members rest h
        exact .object hincreasing hkept

end Json
end FlagStack
