import FlagStack.Proofs.IssuedIds

/-!
# The search for an id

An entry finds its id in a loop that counts.  The loop looks at a candidate; while the
candidate belongs to another entry it raises the counter and puts the new number behind
the base.  Nothing in the loop bounds the counter.

The loop ends all the same.  Candidates differ, and each that is passed over is an id
in use, so no more can be passed over than there are ids in use.  This number is the
bound that an assignment starts with, and for this reason it always finds what the loop
finds.

**Results.**
* `turned_iff`: where the loop stands after a number of turns.
* `search_ends`: the loop ends, when and at which id.
-/

namespace FlagStack
namespace EntryIds

/-- Where the loop stands: what it has counted, and the candidate that it looks at. -/
structure Search where
  counter : Nat
  id : String
deriving DecidableEq

namespace Search

/-- The first candidate is the base. -/
def start (base : String) : Search :=
  ⟨1, base⟩

/-- A turn of the loop passes over a candidate of another entry.  The loop ends at a
candidate that is free or belongs to the entry itself. -/
def turn (ids : EntryIds) (e : Entry) (base : String) (s : Search) : Option Search :=
  match ids.inUse.lookup s.id with
  | some owner =>
      if owner = e then none else some ⟨s.counter + 1, base ++ toString (s.counter + 1)⟩
  | none => none

/-- Where the loop stands after a number of turns, if it has not ended before. -/
inductive Turned (ids : EntryIds) (e : Entry) (base : String) : Nat → Search → Prop
  | start : Turned ids e base 0 (start base)
  | turn {n : Nat} {s s' : Search} (hturned : Turned ids e base n s)
      (hturn : s.turn ids e base = some s') : Turned ids e base (n + 1) s'

end Search

open Search

variable {ids : EntryIds} {e : Entry} {base : String}

section Turns

theorem turn_eq
    (ids : EntryIds) (e : Entry) (base : String) (s : Search) :
    s.turn ids e base =
      if ids.isForeign e s.id then some ⟨s.counter + 1, base ++ toString (s.counter + 1)⟩
      else none := by
  rw [turn, isForeign]
  cases ids.inUse.lookup s.id with
  | none => rfl
  | some owner => by_cases h : owner = e <;> simp [h]

/-- The loop counts its turns, and looks at the candidate of that number.  It comes so
far just if all candidates before belong to other entries. -/
theorem turned_iff
    {n : Nat} {s : Search} :
    Turned ids e base n s ↔
      s = ⟨n + 1, candidateId base n⟩ ∧ ∀ j < n, ids.isForeign e (candidateId base j) := by
  constructor
  · intro h
    induction h with
    | start => exact ⟨rfl, fun j hj => absurd hj (Nat.not_lt_zero j)⟩
    | @turn n s s' _ hturn ih =>
        obtain ⟨rfl, hbefore⟩ := ih
        rw [turn_eq] at hturn
        split at hturn
        · next hforeign =>
            cases hturn
            refine ⟨rfl, fun j hj => ?_⟩
            rcases Nat.lt_succ_iff_lt_or_eq.1 hj with hj | rfl
            · exact hbefore j hj
            · exact hforeign
        · cases hturn
  · rintro ⟨rfl, hbefore⟩
    induction n with
    | zero => exact .start
    | succ n ih =>
        refine .turn (ih fun j hj => hbefore j (Nat.lt_succ_of_lt hj)) ?_
        rw [turn_eq, if_pos (hbefore n (Nat.lt_succ_self n))]
        rfl

end Turns

/-- The loop ends, whatever ids have been assigned before.  With so many ids in use it
looks at no more than one candidate more, and counts no further; so a counter of 32 bits
shows the right number as long as fewer are in use than the greatest number of 32 bits.
Every candidate before the last belongs to another entry, and the last is the id that is
assigned. -/
theorem search_ends
    (digest : String → String) (calls : List Entry) (e : Entry) :
    let ids := empty.after digest calls
    let base := e.baseId digest
    let taken := ids.inUse.length
    (ids.inUse.map Prod.fst).Nodup ∧
      ∃ n last, n + 1 ≤ taken + 1 ∧ Turned ids e base n last ∧ last.turn ids e base = none ∧
        last.id = (ids.assign digest e).1 ∧
        ∀ k s, Turned ids e base k s →
          k ≤ n ∧ s.counter ≤ taken + 1 ∧
            (taken < Int32.maxValue.toInt → (Int32.ofNat s.counter).toInt = s.counter) ∧
            (k < n → ∃ owner, ids.inUse.lookup s.id = some owner ∧ owner ≠ e) := by
  intro ids base taken
  have hsettled : Settled digest ids := settled_empty.after calls
  obtain ⟨n, hid, hbefore, hopen⟩ := exists_assign_fst digest ids e
  have hbound : n ≤ taken := le_length_of_foreign hbefore
  refine ⟨hsettled.nodup, n, ⟨n + 1, candidateId base n⟩, Nat.succ_le_succ hbound,
    turned_iff.2 ⟨rfl, hbefore⟩, ?_, hid.symm, ?_⟩
  · rw [turn_eq, if_neg hopen]
  · intro k s hturned
    obtain ⟨rfl, hpassed⟩ := turned_iff.1 hturned
    have hk : k ≤ n := by
      by_contra hlt
      exact hopen (hpassed n (Nat.lt_of_not_le hlt))
    have hcounter : k + 1 ≤ taken + 1 := Nat.succ_le_succ (Nat.le_trans hk hbound)
    refine ⟨hk, hcounter, ?_, fun hlt => isForeign_iff.1 (hbefore k hlt)⟩
    intro hfew
    have hmax : Int32.maxValue.toInt = 2147483647 := rfl
    rw [hmax] at hfew
    refine Int32.toInt_ofNat_of_lt ?_
    show k + 1 < 2147483648
    omega

/-- Two features whose names make the same base. -/
def sameBase : List Entry :=
  [⟨"Feature", "checkout"⟩, ⟨"Feature", "Checkout"⟩]

/-- A third one passes over two candidates, and counts as far as it may. -/
theorem sameBase_searched :
    let ids := empty.after (fun _ => "") sameBase
    let e : Entry := ⟨"Feature", "check-out"⟩
    Turned ids e "FeatureCheckout" 2 ⟨3, "FeatureCheckout3"⟩ ∧ 3 = ids.inUse.length + 1 ∧
      (ids.assign (fun _ => "") e).1 = "FeatureCheckout3" ∧
      (Int32.ofNat 3).toInt = 3 ∧
      ∃ owner, ids.inUse.lookup "FeatureCheckout2" = some owner ∧ owner ≠ e := by
  intro ids e
  have hsecond : Turned ids e "FeatureCheckout" 1 ⟨2, "FeatureCheckout2"⟩ :=
    turned_iff.2 (by decide +kernel)
  have hthird : Turned ids e "FeatureCheckout" 2 ⟨3, "FeatureCheckout3"⟩ :=
    turned_iff.2 (by decide +kernel)
  have hbase : e.baseId (fun _ => "") = "FeatureCheckout" := by decide +kernel
  have htaken : ids.inUse.length = 2 := by decide +kernel
  obtain ⟨-, n, last, -, -, -, -, hall⟩ := search_ends (fun _ => "") sameBase e
  rw [hbase] at hall
  obtain ⟨hle, -, hmax, -⟩ := hall 2 _ hthird
  obtain ⟨-, -, -, howner⟩ := hall 1 _ hsecond
  refine ⟨hthird, by rw [htaken], by decide +kernel, ?_, howner hle⟩
  exact hmax (by rw [htaken]; decide)

end EntryIds
end FlagStack
