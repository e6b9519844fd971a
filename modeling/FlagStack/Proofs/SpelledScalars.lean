import FlagStack.Proofs.Spellings

/-!
# Strings and numbers as they are spelled

The string that a spelling stands for, if it stands for one: a surrogate has to be one of
a pair.  Where a string is passed over this is not looked at.  The numeral of a spelling
is found whatever stands behind it.

**Results.**
* `readString_contentText`, `skipString_contentText`: strings, kept and passed over.
* `scan_text`: numbers.
-/

namespace FlagStack

open Json

/-- The characters that the pieces of a string stand for. -/
def characters? : List Piece → Option (List Char)
  | [] => some []
  | .plain c _ _ _ :: rest => (characters? rest).map (c :: ·)
  | .short _ c _ :: rest => (characters? rest).map (c :: ·)
  | .unit _ _ _ _ first _ :: rest =>
      if isTrailing first then none
      else if isLeading first then
        match rest with
        | .unit _ _ _ _ second _ :: rest =>
            if isTrailing second then (characters? rest).map (paired first second :: ·) else none
        | _ => none
      else (characters? rest).map (Char.ofNat first :: ·)

/-- The string that the pieces stand for. -/
def content? (content : List Piece) : Option String :=
  (characters? content).map String.ofList

section Strings

theorem contentText_cons
    (piece : Piece) (content : List Piece) (tail : List Char) :
    contentText (piece :: content) ++ tail = piece.text ++ (contentText content ++ tail) := by
  simp [contentText]

variable (kept : Bool) (acc tail : List Char)

theorem stringFrom_short
    {letter c : Char} (h : shortEscape? letter = some c) :
    stringFrom kept acc ('\\' :: letter :: tail) = stringFrom kept (c :: acc) tail := by
  have hu : letter ≠ 'u' := by
    rintro rfl
    cases h
  simp [stringFrom, hu, h]

/-- A unit that is no surrogate, or one that is only passed over. -/
theorem stringFrom_unit
    {a b c d : Char} {n : Nat} (h : unit? a b c d = some n)
    (htrailing : (kept && isTrailing n) = false) (hleading : (kept && isLeading n) = false) :
    stringFrom kept acc ('\\' :: 'u' :: a :: b :: c :: d :: tail) =
      stringFrom kept (Char.ofNat n :: acc) tail := by
  simp [stringFrom, h, htrailing, hleading]

/-- Two units that are a pair of surrogates. -/
theorem stringFrom_pair
    {a b c d e f g h : Char} {first second : Nat} (hfirst : unit? a b c d = some first)
    (hsecond : unit? e f g h = some second) (hnot : isTrailing first = false)
    (hleading : isLeading first) (htrailing : isTrailing second) :
    stringFrom true acc
        ('\\' :: 'u' :: a :: b :: c :: d :: '\\' :: 'u' :: e :: f :: g :: h :: tail) =
      stringFrom true (paired first second :: acc) tail := by
  simp [stringFrom, hfirst, hsecond, hnot, hleading, htrailing]

/-- A leading surrogate that is not followed by a trailing one is refused. -/
theorem exists_stringFrom_eq_error
    {a b c d : Char} {n : Nat} (h : unit? a b c d = some n)
    (hnot : isTrailing n = false) (hleading : isLeading n)
    {rest : List Piece}
    (hrest : ∀ e f g h second hsecond others, rest = .unit e f g h second hsecond :: others →
      isTrailing second = false) (tail : List Char) :
    ∃ e, stringFrom true acc
      ('\\' :: 'u' :: a :: b :: c :: d :: (contentText rest ++ '"' :: tail)) = .error e := by
  cases rest with
  | nil =>
      refine ⟨.unfinishedSurrogate, ?_⟩
      simp [contentText, stringFrom, h, hnot, hleading]
  | cons piece rest =>
      cases piece with
      | plain c hquote hbackslash hcontrol =>
          refine ⟨.unfinishedSurrogate, ?_⟩
          simp [contentText, Piece.text, stringFrom, h, hnot, hleading, hbackslash]
      | short letter c hshort =>
          have hu : letter ≠ 'u' := by
            rintro rfl
            cases hshort
          refine ⟨.unfinishedSurrogate, ?_⟩
          simp [contentText, Piece.text, stringFrom, h, hnot, hleading, hu]
      | unit e f g h' second hsecond =>
          have hpair := hrest e f g h' second hsecond rest rfl
          refine ⟨.loneSurrogate, ?_⟩
          simp [contentText, Piece.text, stringFrom, h, hnot, hleading, hsecond, hpair]

theorem map_characters_cons
    (chars : Option (List Char)) (c : Char) :
    (chars.map (c :: ·)).map (fun cs => (acc.reverse ++ cs, tail)) =
      chars.map fun cs => ((c :: acc).reverse ++ cs, tail) := by
  cases chars <;> simp

/-- A string is kept just if its pieces stand for characters. -/
theorem stringFrom_contentText
    (content : List Piece) (acc rest : List Char) :
    (stringFrom true acc (contentText content ++ '"' :: rest)).toOption =
      (characters? content).map fun cs => (acc.reverse ++ cs, rest) := by
  fun_induction characters? content generalizing acc with
  | case1 => simp [contentText, stringFrom, Except.toOption]
  | case2 c hquote hbackslash hcontrol content ih =>
      rw [contentText_cons, map_characters_cons]
      exact (congrArg _ (stringFrom_plainCharacter acc _ true hquote hbackslash hcontrol)).trans
        (ih (c :: acc))
  | case3 letter c h content ih =>
      rw [contentText_cons, map_characters_cons]
      exact (congrArg _ (stringFrom_short true acc _ h)).trans (ih (c :: acc))
  | case4 a b c d n h content htrailing =>
      rw [contentText_cons]
      simp [Piece.text, stringFrom, h, htrailing, Except.toOption]
  | case5 a b c d first h hnot hleading e f g i second h' content htrailing ih =>
      rw [contentText_cons, contentText_cons, map_characters_cons]
      have hpair := stringFrom_pair acc (contentText content ++ '"' :: rest) h h'
        (by simpa using hnot) hleading htrailing
      exact (congrArg _ hpair).trans (ih _)
  | case6 a b c d first h hnot hleading e f g i second h' content htrailing =>
      have hlone : ∀ e' f' g' i' second' h'' others,
          Piece.unit e f g i second h' :: content = .unit e' f' g' i' second' h'' :: others →
          isTrailing second' = false := by
        intro _ _ _ _ _ _ _ heq
        cases heq
        simpa using htrailing
      rw [contentText_cons]
      obtain ⟨error, herror⟩ :=
        exists_stringFrom_eq_error acc h (by simpa using hnot) hleading hlone rest
      exact congrArg _ herror
  | case7 a b c d first h content hnot hleading hother =>
      have hlone : ∀ e f g i second h' others, content = .unit e f g i second h' :: others →
          isTrailing second = false :=
        fun e f g i second h' others heq => (hother e f g i second h' others heq).elim
      rw [contentText_cons]
      obtain ⟨error, herror⟩ :=
        exists_stringFrom_eq_error acc h (by simpa using hnot) hleading hlone rest
      exact congrArg _ herror
  | case8 a b c d n h content hnot hleading ih =>
      rw [contentText_cons, map_characters_cons]
      have hunit := stringFrom_unit true acc (contentText content ++ '"' :: rest) h
        (by simpa using hnot) (by simpa using hleading)
      exact (congrArg _ hunit).trans (ih _)

theorem readString_contentText
    (content : List Piece) (rest : List Char) :
    (readString (contentText content ++ '"' :: rest)).toOption =
      (content? content).map (·, rest) := by
  have hread := stringFrom_contentText content [] rest
  rw [readString, content?]
  cases hfrom : stringFrom true [] (contentText content ++ '"' :: rest) with
  | error e =>
      rw [hfrom] at hread
      cases hchars : characters? content with
      | none => rfl
      | some cs =>
          rw [hchars] at hread
          cases hread
  | ok result =>
      rw [hfrom] at hread
      cases hchars : characters? content with
      | none =>
          rw [hchars] at hread
          cases hread
      | some cs =>
          rw [hchars] at hread
          cases hread
          rfl

/-- Every string is passed over. -/
theorem skipString_contentText
    (content : List Piece) (rest : List Char) :
    skipString (contentText content ++ '"' :: rest) = .ok rest := by
  have hfrom : ∀ acc, ∃ cs,
      stringFrom false acc (contentText content ++ '"' :: rest) = .ok (cs, rest) := by
    induction content with
    | nil => exact fun acc => ⟨acc.reverse, by simp [contentText, stringFrom]⟩
    | cons piece content ih =>
        intro acc
        rw [contentText_cons]
        cases piece with
        | plain c hquote hbackslash hcontrol =>
            have hstep := stringFrom_plainCharacter acc (contentText content ++ '"' :: rest) false
              hquote hbackslash hcontrol
            exact hstep ▸ ih _
        | short letter c h => exact stringFrom_short false acc _ h ▸ ih _
        | unit a b c d n h => exact stringFrom_unit false acc _ h rfl rfl ▸ ih _
  obtain ⟨cs, hcs⟩ := hfrom []
  rw [skipString, hcs]
  rfl

end Strings

section Numbers

/-- The parts of a number. -/
def NumberSpelling.numeral (n : NumberSpelling) : Numeral where
  negative := n.negative
  whole := n.whole.text
  fraction := n.fraction.map Digits.text
  exponent := n.exponent.map fun e => (e.sign == some true, e.digits.text)

variable (atEnd : Error) {rest : List Char}

theorem someDigits_digits
    (digits : Digits) (hrest : ∀ c ∈ rest.head?, c.isDigit = false) :
    Numeral.someDigits atEnd (digits.text ++ rest) = .ok (digits.text, rest) :=
  Numeral.someDigits_eq_ok_iff.2 ⟨rfl, digits.nonempty, digits.digits, hrest⟩

theorem wholePart_whole
    (n : NumberSpelling) (hrest : ∀ c ∈ rest.head?, c.isDigit = false) :
    Numeral.wholePart atEnd (n.whole.text ++ rest) = .ok (n.whole.text, rest) := by
  obtain ⟨c, s, hwhole⟩ := List.exists_cons_of_ne_nil n.whole.nonempty
  by_cases hzero : c = '0'
  · subst hzero
    have hsingle : n.whole.text = ['0'] := n.leading (by rw [hwhole]; rfl)
    rw [hsingle]
    exact Numeral.wholePart_zero hrest
  · have hdigits := someDigits_digits atEnd n.whole hrest
    rw [hwhole] at hdigits ⊢
    rw [List.cons_append, Numeral.wholePart_of_ne hzero]
    exact hdigits

theorem fractionPart_fraction
    (n : NumberSpelling) (hrest : ∀ c ∈ rest.head?, c.isDigit = false ∧ c ≠ '.') :
    Numeral.fractionPart atEnd (fractionText n.fraction ++ rest) =
      .ok (n.fraction.map Digits.text, rest) := by
  cases n.fraction with
  | none => exact Numeral.fractionPart_of_ne fun c hc => (hrest c hc).2
  | some digits =>
      have hdigits := someDigits_digits atEnd digits fun c hc => (hrest c hc).1
      simp only [fractionText, List.cons_append, Numeral.fractionPart, hdigits, ok_bind]
      rfl

theorem exponentSign_sign
    (e : ExponentSpelling) (rest : List Char) :
    Numeral.exponentSign (signText e.sign ++ (e.digits.text ++ rest)) =
      (e.sign == some true, e.digits.text ++ rest) := by
  rcases e with ⟨capital, _ | _ | _, digits⟩
  · obtain ⟨c, s, htext⟩ := List.exists_cons_of_ne_nil digits.nonempty
    have hc : c.isDigit := digits.digits c (htext ▸ List.mem_cons_self)
    have hplus : c ≠ '+' := by
      rintro rfl
      revert hc
      decide
    have hminus : c ≠ '-' := by
      rintro rfl
      revert hc
      decide
    simp [signText, htext, Numeral.exponentSign, Numeral.minus, hplus, hminus]
  · rfl
  · rfl

theorem exponentPart_exponent
    (n : NumberSpelling) (hrest : EndsNumber rest) :
    Numeral.exponentPart atEnd (exponentText n.exponent ++ rest) =
      .ok (n.numeral.exponent, rest) := by
  rw [NumberSpelling.numeral]
  cases n.exponent with
  | none => exact Numeral.exponentPart_of_ne fun c hc => (hrest c hc).2.2
  | some e =>
      have hdigits := someDigits_digits atEnd e.digits fun c hc => (hrest c hc).1
      have hletter :
          (if e.capital then 'E' else 'e') = 'e' ∨ (if e.capital then 'E' else 'e') = 'E' := by
        cases e.capital <;> simp
      simp only [exponentText, ExponentSpelling.text, List.cons_append, List.append_assoc,
        Numeral.exponentPart, if_pos hletter, exponentSign_sign, hdigits, ok_bind]
      rfl

/-- What stands behind the digits before the point is no digit. -/
theorem head?_exponentText
    (n : NumberSpelling) (hrest : EndsNumber rest) :
    ∀ c ∈ (exponentText n.exponent ++ rest).head?, c.isDigit = false ∧ c ≠ '.' := by
  cases n.exponent with
  | none => exact fun c hc => ⟨(hrest c hc).1, (hrest c hc).2.1⟩
  | some e =>
      intro c hc
      cases hc
      cases e.capital <;> decide

theorem head?_fractionText
    (n : NumberSpelling) (hrest : EndsNumber rest) :
    ∀ c ∈ (fractionText n.fraction ++ (exponentText n.exponent ++ rest)).head?,
      c.isDigit = false := by
  cases n.fraction with
  | none => exact fun c hc => (head?_exponentText n hrest c hc).1
  | some digits =>
      intro c hc
      cases hc
      decide

theorem minus_text
    (n : NumberSpelling) (s : List Char) :
    Numeral.minus ((if n.negative then ['-'] else []) ++ (n.whole.text ++ s)) =
      (n.negative, n.whole.text ++ s) := by
  obtain ⟨c, t, hwhole⟩ := List.exists_cons_of_ne_nil n.whole.nonempty
  have hc : c.isDigit := n.whole.digits c (hwhole ▸ List.mem_cons_self)
  have hminus : c ≠ '-' := by
    rintro rfl
    revert hc
    decide
  cases n.negative with
  | true => rfl
  | false => simp [hwhole, Numeral.minus, hminus]

/-- A number is scanned up to its end. -/
theorem scan_text
    (n : NumberSpelling) (hrest : EndsNumber rest) :
    Numeral.scan atEnd (n.text ++ rest) = .ok (n.numeral, rest) := by
  simp only [NumberSpelling.text, List.append_assoc, Numeral.scan, minus_text, Numeral.unsigned,
    wholePart_whole atEnd n (head?_fractionText n hrest), ok_bind,
    fractionPart_fraction atEnd n (head?_exponentText n hrest), exponentPart_exponent atEnd n hrest]
  rfl

end Numbers

end FlagStack
