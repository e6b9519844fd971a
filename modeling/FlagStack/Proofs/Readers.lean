import FlagStack.Proofs.Outcomes
import FlagStack.Shape.Reader

/-!
# What readers give

A reader gives values with a property if every value that it reads has it.  The
property is carried along by the ways in which readers are put together.

**Results.**
* `gives_bind`, `gives_items`, `gives_members`: what a sequence of readers, a list
  and an object give.
-/

namespace FlagStack
namespace Json

/-- Every value that the reader gives has the property. -/
def Reader.Gives {α : Type} (reader : Reader α) (P : α → Prop) : Prop :=
  ∀ s a rest, reader s = .ok (a, rest) → P a

section Sequences

variable {α β : Type} {P : α → Prop} {Q : β → Prop}

theorem gives_pure
    {a : α} (h : P a) :
    Reader.Gives (pure a) P := by
  intro s b rest hb
  cases hb
  exact h

theorem gives_throw
    (e : Error) :
    Reader.Gives (throw e : Reader α) P := by
  intro s a rest h
  cases h

theorem gives_throw_bind
    (e : Error) (next : α → Reader β) :
    Reader.Gives ((throw e : Reader α) >>= next) Q := by
  intro s b rest h
  cases h

theorem gives_trivial
    (reader : Reader α) :
    reader.Gives fun _ => True :=
  fun _ _ _ _ => trivial

theorem gives_bind
    {reader : Reader α} {next : α → Reader β}
    (h : reader.Gives P) (hnext : ∀ a, P a → (next a).Gives Q) :
    Reader.Gives (reader >>= next) Q := by
  intro s b rest hb
  obtain ⟨⟨a, left⟩, ha, hb⟩ := bind_eq_ok_iff.1 hb
  exact hnext a (h s a left ha) left b rest hb

theorem gives_map
    {reader : Reader α} {f : α → β} (h : reader.Gives fun a => Q (f a)) :
    Reader.Gives (f <$> reader) Q := by
  rw [← bind_pure_comp]
  exact gives_bind h fun a ha => gives_pure ha

/-- A property of the result that holds whatever has been read before. -/
theorem gives_bind_of_forall
    {reader : Reader α} {next : α → Reader β} (h : ∀ a, (next a).Gives Q) :
    Reader.Gives (reader >>= next) Q :=
  gives_bind (gives_trivial reader) fun a _ => h a

end Sequences

section Containers

variable {α σ : Type}

/-- The items of a list all have what the reader of items gives. -/
theorem gives_items
    {item : Reader α} {P : α → Prop} (hitem : item.Gives P) (bound : Nat)
    {acc : List α} (hacc : ∀ a ∈ acc, P a) :
    (items item bound acc).Gives fun l => ∀ a ∈ l, P a := by
  induction bound generalizing acc with
  | zero => exact gives_throw _
  | succ bound ih =>
      rw [items]
      refine gives_bind_of_forall fun more => ?_
      cases more with
      | false =>
          refine gives_bind_of_forall fun _ => gives_pure ?_
          intro a ha
          exact hacc a (List.mem_reverse.1 ha)
      | true =>
          refine gives_bind hitem fun a ha => ih ?_
          exact List.forall_mem_cons.2 ⟨ha, hacc⟩

/-- A property of the state that every member keeps holds at the end of an
object. -/
theorem gives_members
    {member : String → σ → Reader σ} {P : σ → Prop}
    (hmember : ∀ key state, P state → (member key state).Gives P) (bound : Nat)
    {first : Bool} {state : σ} (hstate : P state) :
    (members member bound first state).Gives P := by
  induction bound generalizing first state with
  | zero => exact gives_throw _
  | succ bound ih =>
      rw [members]
      refine gives_bind_of_forall fun key? => ?_
      cases key? with
      | none => exact gives_pure hstate
      | some key => exact gives_bind (hmember key state hstate) fun next hnext => ih hnext

theorem gives_nested
    {P : α → Prop} {room : Nat} {inside : Nat → Reader α}
    (h : ∀ r, room = r + 1 → (inside r).Gives P) :
    (nested room inside).Gives P := by
  cases room with
  | zero => exact gives_throw _
  | succ room => exact h room rfl

/-- A value of a whole text has what its reader gives. -/
theorem of_readAll
    {reader : Nat → Reader α} {P : α → Prop} (h : ∀ bound, (reader bound).Gives P)
    {text : String} {a : α} (hread : readAll reader text = .ok a) :
    P a := by
  obtain ⟨⟨b, rest⟩, hb, hread⟩ := bind_eq_ok_iff.1 hread
  obtain ⟨_, -, hend⟩ := bind_eq_ok_iff.1 hread
  cases hend
  exact h _ _ _ _ hb

end Containers
end Json

namespace Shape

open Json (Reader gives_bind gives_bind_of_forall gives_pure gives_throw gives_nested)

variable {α : Type} {P : α → Prop}

theorem gives_readOption
    {reader : Reader α} (h : reader.Gives P) :
    (readOption reader).Gives fun o => ∀ a ∈ o, P a := by
  intro s o rest ho
  rw [readOption] at ho
  split at ho
  · obtain ⟨left, -, hleft⟩ := bind_eq_ok_iff.1 ho
    cases hleft
    intro a ha
    cases ha
  · obtain ⟨⟨a, left⟩, ha, hleft⟩ := bind_eq_ok_iff.1 ho
    cases hleft
    intro b hb
    cases hb
    exact h _ _ _ ha

theorem gives_readAlternative
    {bare tagged : Reader α} (hbare : bare.Gives P) (htagged : tagged.Gives P) :
    (readAlternative bare tagged).Gives P := by
  intro s a rest h
  rw [readAlternative] at h
  split at h
  · cases h
  · exact htagged _ _ _ h
  · exact hbare _ _ _ h
  · cases h

theorem gives_readContainer
    {bracket : Char} {expected : String} {room : Nat} {inside : Nat → Reader α}
    (h : ∀ r, room = r + 1 → (inside r).Gives P) :
    (readContainer bracket expected room inside).Gives P := by
  intro s a rest ha
  rw [readContainer] at ha
  split at ha
  · cases ha
  · split at ha
    · exact gives_nested h _ _ _ ha
    · cases ha

/-- A name that is picked is one of the names. -/
theorem gives_pick
    (names : List (String × α)) (name : String) :
    Reader.Gives (liftM (pick names name)) fun a => (name, a) ∈ names := by
  intro s a rest h
  obtain ⟨b, hb, hrest⟩ := bind_eq_ok_iff.1 h
  cases hrest
  rw [pick] at hb
  split at hb
  · next heq =>
      cases hb
      obtain ⟨before, after, hsplit, -⟩ := List.lookup_eq_some_iff.1 heq
      simp [hsplit]
  · cases hb

theorem gives_alternative
    (names : List (String × α)) :
    (alternative names).Gives fun a => ∃ name, (name, a) ∈ names := by
  rw [alternative]
  refine gives_bind_of_forall fun name => ?_
  refine gives_bind (gives_pick names name) fun a ha => ?_
  exact gives_bind_of_forall fun _ => gives_pure ⟨name, ha⟩

theorem gives_readChoice
    (names : List (String × α)) (room : Nat) :
    (readChoice names room).Gives fun a => ∃ name, (name, a) ∈ names := by
  refine gives_readAlternative ?_ (gives_nested fun _ _ => ?_)
  · refine gives_bind_of_forall fun name => ?_
    intro s a rest h
    exact ⟨name, gives_pick names name s a rest h⟩
  · refine gives_bind (gives_alternative names) fun a ha => ?_
    refine gives_bind_of_forall fun _ => ?_
    exact gives_bind_of_forall fun _ => gives_pure ha

end Shape
end FlagStack
