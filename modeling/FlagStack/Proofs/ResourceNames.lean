import FlagStack.Error
import Mathlib.Data.List.TakeWhile

/-!
# Resource names read and written

A resource name is split at its first five colons, so the parts before them have no
colon and the resource behind them may have any.  Reading accepts exactly what is
written of parts of that form, and gives these parts.

**Results.**
* `splitFirst_eq_iff`: the pieces of a bounded split are those that give the text when
  they are joined again.
* `parse_eq_ok_iff`: which texts are read as which parts.
* `parse_inverts_text`: reading and writing are inverse.
-/

namespace FlagStack

namespace Text

variable {separator : Char} {s piece rest : List Char}

section Splitting

/-- A text without separators is one piece. -/
theorem splitFirst_of_not_mem
    (count : Nat) (h : separator ∉ s) :
    splitFirst separator count s = [s] := by
  cases count with
  | zero => rfl
  | succ count =>
      have hall : ∀ c ∈ s, decide (c ≠ separator) = true := by
        intro c hc
        exact decide_eq_true fun heq => h (heq ▸ hc)
      simp only [splitFirst, List.dropWhile_eq_nil_iff.2 hall, List.takeWhile_eq_self_iff.2 hall]

/-- A piece ends at the first separator. -/
theorem splitFirst_append
    (count : Nat) (h : separator ∉ piece) :
    splitFirst separator (count + 1) (piece ++ separator :: rest) =
      piece :: splitFirst separator count rest := by
  have hall : ∀ c ∈ piece, decide (c ≠ separator) = true := by
    intro c hc
    exact decide_eq_true fun heq => h (heq ▸ hc)
  have htake : (piece ++ separator :: rest).takeWhile (fun c => decide (c ≠ separator)) =
      piece := by
    rw [List.takeWhile_append_of_pos hall, List.takeWhile_cons_of_neg (by simp), List.append_nil]
  have hdrop : (piece ++ separator :: rest).dropWhile (fun c => decide (c ≠ separator)) =
      separator :: rest := by
    rw [List.dropWhile_append_of_pos hall, List.dropWhile_cons_of_neg (by simp)]
  simp only [splitFirst, htake, hdrop]

/-- The text before the first separator, if there is one. -/
theorem exists_piece
    (separator : Char) (s : List Char) :
    separator ∉ s ∨ ∃ piece rest, separator ∉ piece ∧ s = piece ++ separator :: rest := by
  by_cases h : separator ∈ s
  · obtain ⟨piece, rest, rfl, hpiece⟩ := List.eq_append_cons_of_mem h
    exact .inr ⟨piece, rest, hpiece, rfl⟩
  · exact .inl h

theorem length_splitFirst_le
    (separator : Char) (count : Nat) (s : List Char) :
    (splitFirst separator count s).length ≤ count + 1 := by
  induction count generalizing s with
  | zero => exact Nat.le_refl 1
  | succ count ih =>
      rcases exists_piece separator s with h | ⟨piece, rest, hpiece, rfl⟩
      · rw [splitFirst_of_not_mem _ h, List.length_singleton]
        omega
      · rw [splitFirst_append _ hpiece, List.length_cons]
        exact Nat.succ_le_succ (ih rest)

/-- As many pieces as a split may give, and the last of them, are those that give the
text when they are joined again, if only the last has separators. -/
theorem splitFirst_eq_iff
    {pieces : List (List Char)} {last : List Char} :
    splitFirst separator pieces.length s = pieces ++ [last] ↔
      s = pieces.flatMap (· ++ [separator]) ++ last ∧ ∀ piece ∈ pieces, separator ∉ piece := by
  induction pieces generalizing s with
  | nil => simp [splitFirst]
  | cons first pieces ih =>
      rw [List.length_cons]
      constructor
      · intro h
        rcases exists_piece separator s with hnone | ⟨piece, rest, hpiece, rfl⟩
        · rw [splitFirst_of_not_mem _ hnone] at h
          simp at h
        · rw [splitFirst_append _ hpiece, List.cons_append] at h
          obtain ⟨rfl, hrest⟩ := List.cons.inj h
          obtain ⟨rfl, hpieces⟩ := ih.1 hrest
          refine ⟨by simp, ?_⟩
          rw [List.forall_mem_cons]
          exact ⟨hpiece, hpieces⟩
      · rintro ⟨rfl, hpieces⟩
        rw [List.forall_mem_cons] at hpieces
        have hrest := ih.2 ⟨rfl, hpieces.2⟩
        rw [List.flatMap_cons, List.append_assoc, List.append_assoc, List.singleton_append,
          splitFirst_append _ hpieces.1, hrest, List.cons_append]

end Splitting
end Text

namespace Arn

/-- The parts before the resource have no colon, and partition, service and resource are
given. -/
structure WellFormed (a : Arn) : Prop where
  colonFree : ∀ part ∈ [a.partition, a.service, a.region, a.account], ':' ∉ part.toList
  given : ∀ part ∈ [a.partition, a.service, a.resource], part ≠ ""

section Parts

variable {s : String} {a : Arn}

theorem text_eq
    (a : Arn) :
    a.text =
      "arn:" ++ a.partition ++ ":" ++ a.service ++ ":" ++ a.region ++ ":" ++ a.account ++ ":" ++
        a.resource := by
  rfl

/-- The written form is its parts, joined by colons. -/
theorem toList_text
    (a : Arn) :
    a.text.toList =
      ["arn".toList, a.partition.toList, a.service.toList, a.region.toList,
        a.account.toList].flatMap (· ++ [':']) ++ a.resource.toList := by
  simp [text_eq]

/-- The pieces of a text are the parts that it is written of. -/
theorem splitFirst_eq_parts_iff :
    Text.splitFirst ':' 5 s.toList =
        ["arn".toList, a.partition.toList, a.service.toList, a.region.toList,
          a.account.toList, a.resource.toList] ↔
      s = a.text ∧ ∀ part ∈ [a.partition, a.service, a.region, a.account], ':' ∉ part.toList := by
  have hsplit := @Text.splitFirst_eq_iff ':' s.toList
    ["arn".toList, a.partition.toList, a.service.toList, a.region.toList, a.account.toList]
    a.resource.toList
  have hscheme : ':' ∉ "arn".toList := by decide
  rw [← toList_text, String.toList_inj] at hsplit
  simpa [hscheme] using hsplit

/-- The parts that have to be given are given. -/
theorem isEmpty_parts_eq_false_iff :
    (a.partition.isEmpty || a.service.isEmpty || a.resource.isEmpty) = false ↔
      ∀ part ∈ [a.partition, a.service, a.resource], part ≠ "" := by
  simp [and_assoc]

end Parts

section Reading

variable {s : String} {a : Arn}

/-- Six pieces are read as the parts, if those are given that have to be. -/
theorem parse_of_pieces
    (hpieces : (Text.splitFirst ':' 5 s.toList).map String.ofList =
      ["arn", a.partition, a.service, a.region, a.account, a.resource]) :
    parse s =
      if a.partition.isEmpty || a.service.isEmpty || a.resource.isEmpty then
        .error (.emptyPart s)
      else .ok a := by
  simp only [parse, hpieces]

/-- What is read has six pieces. -/
theorem exists_pieces_of_parse
    (h : parse s = .ok a) :
    (Text.splitFirst ':' 5 s.toList).map String.ofList =
      ["arn", a.partition, a.service, a.region, a.account, a.resource] := by
  have hlength := Text.length_splitFirst_le ':' 5 s.toList
  rw [← List.length_map String.ofList] at hlength
  rw [parse] at h
  split at h
  · next parts hparts =>
      split at h
      all_goals try cases h
      next partition service region account resource more =>
        split at h
        · cases h
        · cases h
          -- There are no more than six pieces.
          rw [hparts] at hlength ⊢
          have hmore : more.length = 0 := by
            simp only [List.length_cons] at hlength
            omega
          rw [List.eq_nil_of_length_eq_zero hmore]
  · cases h

/-- A text is read as the parts that it is written of. -/
theorem parse_eq_ok_iff :
    parse s = .ok a ↔ a.WellFormed ∧ s = a.text := by
  constructor
  · intro h
    have hpieces := exists_pieces_of_parse h
    rw [parse_of_pieces hpieces] at h
    split at h
    · cases h
    · next hgiven =>
        have hparts : Text.splitFirst ':' 5 s.toList =
            ["arn".toList, a.partition.toList, a.service.toList, a.region.toList,
              a.account.toList, a.resource.toList] := by
          simpa [Function.comp_def] using congrArg (List.map String.toList) hpieces
        obtain ⟨htext, hcolon⟩ := splitFirst_eq_parts_iff.1 hparts
        rw [Bool.not_eq_true] at hgiven
        exact ⟨⟨hcolon, isEmpty_parts_eq_false_iff.1 hgiven⟩, htext⟩
  · rintro ⟨hwell, htext⟩
    have hparts := splitFirst_eq_parts_iff.2 ⟨htext, hwell.colonFree⟩
    have hpieces : (Text.splitFirst ':' 5 s.toList).map String.ofList =
        ["arn", a.partition, a.service, a.region, a.account, a.resource] := by
      simp [hparts]
    rw [parse_of_pieces hpieces, isEmpty_parts_eq_false_iff.2 hwell.given]
    rfl

/-- Reading and writing are inverse.  A text is read just if it is a scheme and five
parts between colons, the first four of them without colons and partition, service and
resource not empty; then these are the parts that are read, and they are written as the
text.  Any other text is refused as no resource name. -/
theorem parse_inverts_text
    (s : String) :
    (∀ partition service region account resource : String,
      parse s = .ok ⟨partition, service, region, account, resource⟩ ↔
        s = "arn:" ++ partition ++ ":" ++ service ++ ":" ++ region ++ ":" ++ account ++ ":" ++
            resource ∧
          (∀ part ∈ [partition, service, region, account], ':' ∉ part.toList) ∧
          ∀ part ∈ [partition, service, resource], part ≠ "") ∧
      (∀ a, parse s = .ok a → a.text = s) ∧
      (∀ a : Arn, a.WellFormed → parse a.text = .ok a) ∧
      ((¬ ∃ a : Arn, a.WellFormed ∧ s = a.text) →
        ∃ fault, parse s = .error fault ∧ (Error.arn fault).kind = .invalidArn) := by
  refine ⟨?_, ?_, ?_, ?_⟩
  · intro partition service region account resource
    rw [parse_eq_ok_iff, text_eq]
    constructor
    · rintro ⟨hwell, htext⟩
      exact ⟨htext, hwell.colonFree, hwell.given⟩
    · rintro ⟨htext, hcolon, hgiven⟩
      exact ⟨⟨hcolon, hgiven⟩, htext⟩
  · intro a h
    exact (parse_eq_ok_iff.1 h).2.symm
  · intro a h
    exact parse_eq_ok_iff.2 ⟨h, rfl⟩
  · intro hnone
    cases h : parse s with
    | ok a => exact absurd ⟨a, parse_eq_ok_iff.1 h⟩ hnone
    | error fault => exact ⟨fault, rfl, rfl⟩

/-- Region and account may be empty, and the resource may have colons. -/
example :
    parse "arn:aws:logs:::group:a/b" = .ok ⟨"aws", "logs", "", "", "group:a/b"⟩ := by
  rfl

end Reading
end Arn
end FlagStack
