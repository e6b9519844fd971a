import FlagStack.Proofs.SpelledScalars
import Mathlib.Data.List.TakeWhile

/-!
# Tokens that are read are spelled

What a reader takes from a text for a blank, a string, a number or a literal is one that
can be spelled, even where it is only passed over.

**Results.**
* `exists_content_of_stringFrom`, `exists_number_of_scan`: strings and numbers.
* `exists_scalar_of_readScalar`, `exists_scalar_of_skipScalar`: values that are no
  containers.
-/

namespace FlagStack

open Json

section Tokens

variable {s rest : List Char}

/-- What stands in front of a token is blanks. -/
theorem exists_gap
    (s : List Char) :
    ∃ gap : Blanks, s = gap.text ++ skipBlanks s :=
  ⟨⟨s.takeWhile isBlank, fun _ hc => List.mem_takeWhile_imp hc⟩,
    List.takeWhile_append_dropWhile.symm⟩

theorem eq_append_of_literalRest
    {letters : List Char} (h : literalRest letters s = .ok rest) :
    s = letters ++ rest := by
  fun_induction literalRest letters s with
  | case1 s =>
      cases h
      rfl
  | case2 => cases h
  | case3 letters c s ih => rw [ih h, List.cons_append]
  | case4 => cases h

/-- Characters and escapes up to a closing quote, with another one in front. -/
theorem exists_content_cons
    (piece : Piece) {t : List Char} (h : ∃ content, t = contentText content ++ '"' :: rest) :
    ∃ content, piece.text ++ t = contentText content ++ '"' :: rest := by
  obtain ⟨content, rfl⟩ := h
  exact ⟨piece :: content, (contentText_cons piece content _).symm⟩

/-- What stands in front of the closing quote are characters and escapes. -/
theorem exists_content_of_stringFrom
    {kept : Bool} {acc cs : List Char} (h : stringFrom kept acc s = .ok (cs, rest)) :
    ∃ content, s = contentText content ++ '"' :: rest := by
  fun_induction stringFrom kept acc s with
  | case2 acc rest =>
      cases h
      exact ⟨[], rfl⟩
  | case9 acc a b c d unit hunit _ _ e f g i tail second hsecond _ ih =>
      have hpair := exists_content_cons (.unit e f g i second hsecond) (ih h)
      exact exists_content_cons (.unit a b c d unit hunit) hpair
  | case13 acc a b c d tail unit hunit _ _ ih =>
      exact exists_content_cons (.unit a b c d unit hunit) (ih h)
  | case15 acc letter tail _ _ c hshort ih =>
      exact exists_content_cons (.short letter c hshort) (ih h)
  | case18 acc c tail hquote hend _ _ hescape hcontrol ih =>
      have hbackslash : c ≠ '\\' := fun hc => by
        cases tail with
        | nil => exact hend hc rfl
        | cons d tail => exact hescape d tail hc rfl
      exact exists_content_cons (.plain c hquote hbackslash hcontrol) (ih h)
  | _ => cases h

theorem exists_content_of_readString
    {content : String} (h : readString s = .ok (content, rest)) :
    ∃ pieces, s = contentText pieces ++ '"' :: rest := by
  obtain ⟨⟨cs, left⟩, hread, hleft⟩ := bind_eq_ok_iff.1 h
  cases hleft
  exact exists_content_of_stringFrom hread

theorem exists_content_of_skipString
    (h : skipString s = .ok rest) :
    ∃ pieces, s = contentText pieces ++ '"' :: rest := by
  obtain ⟨⟨cs, left⟩, hread, hleft⟩ := bind_eq_ok_iff.1 h
  cases hleft
  exact exists_content_of_stringFrom hread

end Tokens

section Numbers

variable {atEnd : Error} {s rest : List Char}

theorem exists_digits_of_someDigits
    {digits : List Char} (h : Numeral.someDigits atEnd s = .ok (digits, rest)) :
    ∃ spelled : Digits, spelled.text = digits ∧ s = spelled.text ++ rest := by
  obtain ⟨hs, hne, hdigits, -⟩ := Numeral.someDigits_eq_ok_iff.1 h
  exact ⟨⟨digits, hne, hdigits⟩, rfl, hs⟩

theorem exists_whole_of_wholePart
    {whole : List Char} (h : Numeral.wholePart atEnd s = .ok (whole, rest)) :
    ∃ spelled : Digits, (spelled.text.head? = some '0' → spelled.text = ['0']) ∧
      s = spelled.text ++ rest := by
  rw [Numeral.wholePart.eq_def] at h
  split at h
  · split at h
    · cases h
    · cases h
      exact ⟨⟨['0'], by simp, List.all_eq_true.1 rfl⟩, fun _ => rfl, rfl⟩
  · next hother =>
      obtain ⟨spelled, -, rfl⟩ := exists_digits_of_someDigits h
      refine ⟨spelled, fun hhead => ?_, rfl⟩
      obtain ⟨c, t, htext⟩ := List.exists_cons_of_ne_nil spelled.nonempty
      rw [htext] at hhead hother ⊢
      cases hhead
      cases t with
      | nil => rfl
      | cons d t => exact absurd rfl (hother d (t ++ rest))

theorem exists_fraction_of_fractionPart
    {fraction : Option (List Char)} (h : Numeral.fractionPart atEnd s = .ok (fraction, rest)) :
    ∃ spelled, s = fractionText spelled ++ rest := by
  rw [Numeral.fractionPart.eq_def] at h
  split at h
  · obtain ⟨⟨digits, left⟩, hdigits, hleft⟩ := bind_eq_ok_iff.1 h
    cases hleft
    obtain ⟨spelled, -, rfl⟩ := exists_digits_of_someDigits hdigits
    exact ⟨some spelled, rfl⟩
  · cases h
    exact ⟨none, rfl⟩

theorem exists_sign
    (s : List Char) :
    ∃ sign, s = signText sign ++ (Numeral.exponentSign s).2 := by
  rw [Numeral.exponentSign.eq_def]
  split
  · exact ⟨some false, rfl⟩
  · rw [Numeral.minus.eq_def]
    split
    · exact ⟨some true, rfl⟩
    · exact ⟨none, rfl⟩

theorem exists_exponent_of_exponentPart
    {exponent : Option (Bool × List Char)}
    (h : Numeral.exponentPart atEnd s = .ok (exponent, rest)) :
    ∃ spelled, s = exponentText spelled ++ rest := by
  rw [Numeral.exponentPart.eq_def] at h
  split at h
  · next c tail =>
      split at h
      · next hletter =>
          obtain ⟨⟨digits, left⟩, hdigits, hleft⟩ := bind_eq_ok_iff.1 h
          cases hleft
          obtain ⟨spelled, -, hspelled⟩ := exists_digits_of_someDigits hdigits
          obtain ⟨sign, hsign⟩ := exists_sign tail
          refine ⟨some ⟨c = 'E', sign, spelled⟩, ?_⟩
          change (Numeral.exponentSign tail).2 = _ at hspelled
          rw [hsign, hspelled]
          rcases hletter with rfl | rfl <;> simp [exponentText, ExponentSpelling.text]
      · cases h
        exact ⟨none, rfl⟩
  · cases h
    exact ⟨none, rfl⟩

theorem exists_number_of_scan
    {n : Numeral} (h : Numeral.scan atEnd s = .ok (n, rest)) :
    ∃ spelled : NumberSpelling, s = spelled.text ++ rest := by
  have hminus : ∃ negative : Bool,
      s = (if negative then ['-'] else []) ++ (Numeral.minus s).2 := by
    rw [Numeral.minus.eq_def]
    split
    · exact ⟨true, rfl⟩
    · exact ⟨false, rfl⟩
  obtain ⟨negative, hs⟩ := hminus
  obtain ⟨⟨whole, left⟩, hwhole, h⟩ := bind_eq_ok_iff.1 h
  obtain ⟨⟨fraction, left'⟩, hfraction, h⟩ := bind_eq_ok_iff.1 h
  obtain ⟨⟨exponent, left''⟩, hexponent, h⟩ := bind_eq_ok_iff.1 h
  cases h
  obtain ⟨whole, hleading, hwhole⟩ := exists_whole_of_wholePart hwhole
  obtain ⟨fraction, rfl⟩ := exists_fraction_of_fractionPart hfraction
  obtain ⟨exponent, rfl⟩ := exists_exponent_of_exponentPart hexponent
  refine ⟨⟨negative, whole, hleading, fraction, exponent⟩, ?_⟩
  change (Numeral.minus s).2 = _ at hwhole
  rw [hs, hwhole]
  simp [NumberSpelling.text]

end Numbers

section Scalars

variable {s rest : List Char}

theorem exists_scalar_of_readScalar
    {a : Json} (h : readScalar s = .ok (a, rest)) :
    ∃ v : Spelling, s = v.text ++ rest := by
  rw [readScalar.eq_def] at h
  split at h
  · cases h
  · next c tail =>
      split at h
      · next hc =>
          obtain ⟨left, hleft, h⟩ := bind_eq_ok_iff.1 h
          cases h
          exact ⟨.literal .null, by rw [hc, eq_append_of_literalRest hleft]; rfl⟩
      split at h
      · next hc =>
          obtain ⟨left, hleft, h⟩ := bind_eq_ok_iff.1 h
          cases h
          exact ⟨.literal (.bool true), by rw [hc, eq_append_of_literalRest hleft]; rfl⟩
      split at h
      · next hc =>
          obtain ⟨left, hleft, h⟩ := bind_eq_ok_iff.1 h
          cases h
          exact ⟨.literal (.bool false), by rw [hc, eq_append_of_literalRest hleft]; rfl⟩
      split at h
      · next hc =>
          obtain ⟨⟨content, left⟩, hleft, h⟩ := bind_eq_ok_iff.1 h
          cases h
          obtain ⟨pieces, rfl⟩ := exists_content_of_readString hleft
          exact ⟨.string pieces, by simp [hc, Spelling.text]⟩
      split at h
      · obtain ⟨⟨n, left⟩, hleft, h⟩ := bind_eq_ok_iff.1 h
        obtain ⟨value, -, h⟩ := bind_eq_ok_iff.1 h
        cases h
        obtain ⟨spelled, hspelled⟩ := exists_number_of_scan hleft
        exact ⟨.number spelled, hspelled⟩
      · cases h

theorem exists_scalar_of_skipScalar
    (h : skipScalar s = .ok rest) :
    ∃ v : Spelling, s = v.text ++ rest := by
  rw [skipScalar.eq_def] at h
  split at h
  · cases h
  · next c tail =>
      split at h
      · next hc =>
          obtain ⟨pieces, rfl⟩ := exists_content_of_skipString h
          exact ⟨.string pieces, by simp [hc, Spelling.text]⟩
      split at h
      · obtain ⟨⟨n, left⟩, hleft, h⟩ := bind_eq_ok_iff.1 h
        cases h
        obtain ⟨spelled, hspelled⟩ := exists_number_of_scan hleft
        exact ⟨.number spelled, hspelled⟩
      · obtain ⟨⟨a, left⟩, hleft, h⟩ := bind_eq_ok_iff.1 h
        cases h
        exact exists_scalar_of_readScalar hleft

end Scalars

section Separators

variable {s t rest : List Char}

theorem exists_gap_of_skipBlanks
    (h : skipBlanks s = t) :
    ∃ gap : Blanks, s = gap.text ++ t := by
  obtain ⟨gap, hgap⟩ := exists_gap s
  exact ⟨gap, h ▸ hgap⟩

theorem exists_gap_of_colon
    (h : colon s = .ok ((), rest)) :
    ∃ gap : Blanks, s = gap.text ++ ':' :: rest := by
  rw [colon] at h
  split at h
  · cases h
  · next hskip =>
      cases h
      exact exists_gap_of_skipBlanks hskip
  · cases h

theorem exists_gap_of_closeList
    (h : closeList s = .ok ((), rest)) :
    ∃ gap : Blanks, s = gap.text ++ ']' :: rest := by
  rw [closeList] at h
  split at h
  · cases h
  · next hskip =>
      cases h
      exact exists_gap_of_skipBlanks hskip
  · split at h <;> cases h
  · cases h

/-- Another item follows behind a comma, the first one without. -/
theorem exists_gaps_of_nextItem
    {first : Bool} (h : nextItem first s = .ok (true, t)) :
    ∃ gap before : Blanks, s = gap.text ++ (separator first ++ (before.text ++ t)) := by
  rw [nextItem] at h
  split at h
  · cases h
  · cases h
  · next c tail hclose hskip =>
      obtain ⟨gap, rfl⟩ := exists_gap_of_skipBlanks hskip
      cases first with
      | true =>
          cases h
          exact ⟨gap, .empty, rfl⟩
      | false =>
          simp only [Bool.false_eq_true, if_false] at h
          split at h
          · next hc =>
              subst hc
              split at h
              · cases h
              · cases h
              · cases h
                obtain ⟨before, hbefore⟩ := exists_gap tail
                exact ⟨gap, before, congrArg (gap.text ++ ',' :: ·) hbefore⟩
          · cases h

theorem exists_gap_of_nextItem
    {first : Bool} (h : nextItem first s = .ok (false, t)) :
    ∃ gap : Blanks, s = gap.text ++ t ∧ ∃ rest, t = ']' :: rest := by
  rw [nextItem] at h
  split at h
  · cases h
  · next tail hskip =>
      cases h
      obtain ⟨gap, hgap⟩ := exists_gap_of_skipBlanks hskip
      exact ⟨gap, hgap, _, rfl⟩
  · split at h
    · cases h
    split at h
    · split at h <;> cases h
    · cases h

theorem exists_key_of_nextKey
    {first : Bool} {key : String} (h : nextKey first s = .ok (some key, t)) :
    ∃ (gap before : Blanks) (content : List Piece), s = gap.text ++
      (separator first ++ (before.text ++ '"' :: (contentText content ++ '"' :: t))) := by
  rw [nextKey] at h
  split at h
  · cases h
  · cases h
  · next c tail hclose hskip =>
      obtain ⟨gap, rfl⟩ := exists_gap_of_skipBlanks hskip
      cases first with
      | true =>
          simp only [if_true] at h
          split at h
          · next hc =>
              obtain ⟨⟨name, left⟩, hread, h⟩ := bind_eq_ok_iff.1 h
              cases h
              obtain ⟨content, rfl⟩ := exists_content_of_readString hread
              exact ⟨gap, .empty, content, by simp [separator, hc]⟩
          · cases h
      | false =>
          simp only [Bool.false_eq_true, if_false] at h
          split at h
          · next hc =>
              split at h
              · cases h
              · cases h
              · next hnext =>
                  obtain ⟨⟨name, left⟩, hread, h⟩ := bind_eq_ok_iff.1 h
                  cases h
                  obtain ⟨content, rfl⟩ := exists_content_of_readString hread
                  obtain ⟨before, rfl⟩ := exists_gap_of_skipBlanks hnext
                  exact ⟨gap, before, content, by simp [separator, hc]⟩
              · cases h
          · cases h

theorem exists_gap_of_nextKey
    {first : Bool} (h : nextKey first s = .ok (none, rest)) :
    ∃ gap : Blanks, s = gap.text ++ '\x7d' :: rest := by
  rw [nextKey] at h
  split at h
  · cases h
  · next hskip =>
      cases h
      exact exists_gap_of_skipBlanks hskip
  · split at h
    · split at h
      · obtain ⟨_, -, h⟩ := bind_eq_ok_iff.1 h
        cases h
      · cases h
    split at h
    · split at h
      · cases h
      · cases h
      · obtain ⟨_, -, h⟩ := bind_eq_ok_iff.1 h
        cases h
      · cases h
    · cases h

end Separators

end FlagStack
