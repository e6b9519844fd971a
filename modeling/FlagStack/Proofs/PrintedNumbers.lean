import FlagStack.Json.Reader
import FlagStack.Proofs.FiniteNumbers
import FlagStack.Proofs.Outcomes

/-!
# Numbers read back

A number that has been printed is read as the same number, whatever stands behind it,
if only it does not go on like a number.

Integers have one spelling.  For floating point numbers this cannot be said in
general, since a spelling is not read exactly; but if a number is read back from its
own text then it is read back inside of any other.

**Results.**
* `Numeral.isLocal_scan`: a numeral is scanned without looking behind its end.
* `scan_writeInteger`, `value_writeInteger`: integers are read back.
* `scan_of_readsBack`: what it means for a floating point number to be read back.
-/

namespace FlagStack
namespace Json

/-- A text that does not begin with a character that a number could go on with. -/
def EndsNumber (s : List Char) : Prop :=
  ∀ c ∈ s.head?, c.isDigit = false ∧ c ≠ '.' ∧ c ≠ 'e' ∧ c ≠ 'E'

namespace Numeral

/-- What scans a part of a numeral takes a piece off the text, and does not look behind
the end of the numeral. -/
def IsLocal {α : Type} (part : List Char → Except Error (α × List Char)) : Prop :=
  ∀ s a r, part s = .ok (a, r) →
    r <:+ s ∧ ∀ t, EndsNumber t → part (s ++ t) = .ok (a, r ++ t)

section Locality

variable {α β : Type} {atEnd : Error}

theorem isLocal_ok
    (a : α) :
    IsLocal fun s => .ok (a, s) := by
  intro s b r h
  cases h
  exact ⟨List.suffix_refl s, fun t _ => rfl⟩

theorem IsLocal.bind
    {part : List Char → Except Error (α × List Char)} (h : IsLocal part)
    {next : α → List Char → Except Error (β × List Char)} (hnext : ∀ a, IsLocal (next a)) :
    IsLocal fun s => part s >>= fun x => next x.1 x.2 := by
  intro s b r hb
  obtain ⟨⟨a, s'⟩, ha, hb⟩ := bind_eq_ok_iff.1 hb
  obtain ⟨hsuffix, happend⟩ := h s a s' ha
  obtain ⟨hsuffix', happend'⟩ := hnext a s' b r hb
  refine ⟨hsuffix'.trans hsuffix, fun t ht => ?_⟩
  exact bind_eq_ok_iff.2 ⟨(a, s' ++ t), happend t ht, happend' t ht⟩

/-- Digits are taken off as long as there are any. -/
theorem someDigits_eq_ok_iff
    {s digits r : List Char} :
    someDigits atEnd s = .ok (digits, r) ↔
      s = digits ++ r ∧ digits ≠ [] ∧ (∀ c ∈ digits, c.isDigit) ∧
        ∀ c ∈ r.head?, c.isDigit = false := by
  constructor
  · intro h
    cases s with
    | nil => cases h
    | cons c s =>
        rw [someDigits] at h
        split at h
        · next hc =>
            cases h
            refine ⟨List.takeWhile_append_dropWhile.symm, ?_, ?_, ?_⟩
            · simp [hc]
            · exact List.all_eq_true.1 List.all_takeWhile
            · intro d hd
              have hhead := List.head?_dropWhile_not Char.isDigit (c :: s)
              rw [Option.mem_def.1 hd] at hhead
              simpa using hhead
        · cases h
  · rintro ⟨rfl, hne, hdigits, hr⟩
    have htake := takeWhile_isDigit_append hdigits hr
    have hdrop := dropWhile_isDigit_append hdigits hr
    cases digits with
    | nil => exact absurd rfl hne
    | cons c digits =>
        rw [List.cons_append] at htake hdrop ⊢
        rw [someDigits, if_pos (hdigits c List.mem_cons_self), htake, hdrop]

theorem EndsNumber.append
    {r t : List Char} (hr : ∀ c ∈ r.head?, c.isDigit = false) (ht : EndsNumber t) :
    ∀ c ∈ (r ++ t).head?, c.isDigit = false := by
  cases r with
  | nil => exact fun c hc => (ht c hc).1
  | cons d r => exact hr

theorem isLocal_someDigits :
    IsLocal (someDigits atEnd) := by
  intro s digits r h
  obtain ⟨rfl, hne, hdigits, hr⟩ := someDigits_eq_ok_iff.1 h
  refine ⟨List.suffix_append digits r, fun t ht => someDigits_eq_ok_iff.2 ?_⟩
  exact ⟨List.append_assoc _ _ _, hne, hdigits, EndsNumber.append hr ht⟩

theorem wholePart_of_ne
    {c : Char} (h : c ≠ '0') (s : List Char) :
    wholePart atEnd (c :: s) = someDigits atEnd (c :: s) := by
  rw [wholePart.eq_def]
  split
  · next heq =>
      cases heq
      exact absurd rfl h
  · rfl

/-- A zero is not followed by another digit. -/
theorem wholePart_zero
    {s : List Char} (h : ∀ c ∈ s.head?, c.isDigit = false) :
    wholePart atEnd ('0' :: s) = .ok (['0'], s) := by
  cases s with
  | nil => rfl
  | cons c s =>
      rw [wholePart, if_neg]
      rw [h c rfl]
      exact Bool.false_ne_true

theorem isLocal_wholePart :
    IsLocal (wholePart atEnd) := by
  intro s whole r h
  cases s with
  | nil => cases h
  | cons c s =>
      by_cases hzero : c = '0'
      · subst hzero
        have hs : ∀ d ∈ s.head?, d.isDigit = false := by
          intro d hd
          cases s with
          | nil => cases hd
          | cons e s =>
              cases hd
              rw [wholePart] at h
              split at h
              · cases h
              · next hd => simpa using hd
        rw [wholePart_zero hs] at h
        cases h
        exact ⟨List.suffix_cons _ _, fun t ht => wholePart_zero (EndsNumber.append hs ht)⟩
      · rw [wholePart_of_ne hzero] at h
        obtain ⟨hsuffix, happend⟩ := isLocal_someDigits _ _ _ h
        refine ⟨hsuffix, fun t ht => ?_⟩
        rw [List.cons_append, wholePart_of_ne hzero]
        exact happend t ht

theorem fractionPart_of_ne
    {s : List Char} (h : ∀ c ∈ s.head?, c ≠ '.') :
    fractionPart atEnd s = .ok (none, s) := by
  rw [fractionPart.eq_def]
  split
  · exact absurd rfl (h _ rfl)
  · rfl

theorem isLocal_fractionPart :
    IsLocal (fractionPart atEnd) := by
  intro s fraction r h
  by_cases hpoint : ∀ c ∈ s.head?, c ≠ '.'
  · rw [fractionPart_of_ne hpoint] at h
    cases h
    refine ⟨List.suffix_refl s, fun t ht => fractionPart_of_ne fun c hc => ?_⟩
    cases s with
    | nil => exact (ht c hc).2.1
    | cons d s => exact hpoint c hc
  · obtain ⟨rest, rfl⟩ : ∃ rest, s = '.' :: rest := by
      cases s with
      | nil => simp at hpoint
      | cons d rest => exact ⟨rest, by simpa using hpoint⟩
    have hdigits : IsLocal fun s => someDigits atEnd s >>= fun x => .ok (some x.1, x.2) :=
      isLocal_someDigits.bind fun digits => isLocal_ok (some digits)
    obtain ⟨hsuffix, happend⟩ := hdigits rest fraction r h
    exact ⟨hsuffix.trans (List.suffix_cons _ _), happend⟩

theorem minus_append
    {s : List Char} (h : s ≠ []) (t : List Char) :
    minus (s ++ t) = ((minus s).1, (minus s).2 ++ t) := by
  cases s with
  | nil => exact absurd rfl h
  | cons c s =>
      by_cases hc : c = '-'
      · subst hc
        rfl
      · simp [minus, hc]

theorem minus_suffix
    (s : List Char) :
    (minus s).2 <:+ s := by
  rw [minus.eq_def]
  split
  · exact List.suffix_cons _ _
  · exact List.suffix_refl s

theorem exponentSign_append
    {s : List Char} (h : s ≠ []) (t : List Char) :
    exponentSign (s ++ t) = ((exponentSign s).1, (exponentSign s).2 ++ t) := by
  cases s with
  | nil => exact absurd rfl h
  | cons c s =>
      by_cases hc : c = '+'
      · subst hc
        rfl
      · have hminus := minus_append h t
        rw [List.cons_append] at hminus ⊢
        simpa [exponentSign, hc] using hminus

theorem exponentSign_suffix
    (s : List Char) :
    (exponentSign s).2 <:+ s := by
  rw [exponentSign.eq_def]
  split
  · exact List.suffix_cons _ _
  · exact minus_suffix s

theorem exponentPart_of_ne
    {s : List Char} (h : ∀ c ∈ s.head?, c ≠ 'e' ∧ c ≠ 'E') :
    exponentPart atEnd s = .ok (none, s) := by
  cases s with
  | nil => rfl
  | cons c s =>
      obtain ⟨he, hE⟩ := h c rfl
      rw [exponentPart, if_neg (by simp [he, hE])]

theorem isLocal_exponentPart :
    IsLocal (exponentPart atEnd) := by
  intro s exponent r h
  by_cases hletter : ∀ c ∈ s.head?, c ≠ 'e' ∧ c ≠ 'E'
  · rw [exponentPart_of_ne hletter] at h
    cases h
    refine ⟨List.suffix_refl s, fun t ht => exponentPart_of_ne fun c hc => ?_⟩
    cases s with
    | nil => exact (ht c hc).2.2
    | cons d s => exact hletter c hc
  · obtain ⟨c, rest, hc, rfl⟩ : ∃ c rest, (c = 'e' ∨ c = 'E') ∧ s = c :: rest := by
      cases s with
      | nil => simp at hletter
      | cons c rest =>
          refine ⟨c, rest, ?_, rfl⟩
          by_contra hne
          exact hletter fun d hd => (by cases hd; exact not_or.1 hne)
    have hdigits : ∀ sign : Bool, IsLocal fun s =>
        someDigits atEnd s >>= fun x => .ok (some (sign, x.1), x.2) :=
      fun sign => isLocal_someDigits.bind fun digits => isLocal_ok (some (sign, digits))
    have hrest : rest ≠ [] := by
      rintro rfl
      rw [exponentPart, if_pos hc] at h
      cases h
    rw [exponentPart, if_pos hc] at h
    obtain ⟨hsuffix, happend⟩ := hdigits _ _ exponent r h
    refine ⟨(hsuffix.trans (exponentSign_suffix rest)).trans (List.suffix_cons c rest), ?_⟩
    intro t ht
    rw [List.cons_append, exponentPart, if_pos hc, exponentSign_append hrest]
    exact happend t ht

/-- A numeral is scanned without looking behind its end. -/
theorem isLocal_scan :
    IsLocal (scan atEnd) := by
  have hunsigned : ∀ negative, IsLocal (unsigned atEnd negative) := fun negative =>
    isLocal_wholePart.bind fun whole => isLocal_fractionPart.bind fun fraction =>
      isLocal_exponentPart.bind fun exponent => isLocal_ok _
  intro s n r h
  have hs : s ≠ [] := by
    rintro rfl
    cases h
  obtain ⟨hsuffix, happend⟩ := hunsigned _ _ n r h
  refine ⟨hsuffix.trans (minus_suffix s), fun t ht => ?_⟩
  rw [scan, minus_append hs]
  exact happend t ht

end Locality
section Integers

theorem head?_toDigits_ne_zero
    {n : Nat} (h : n ≠ 0) :
    (Nat.toDigits 10 n).head? ≠ some '0' := by
  induction n using Nat.strongRecOn with
  | ind n ih =>
      by_cases hsmall : n < 10
      · rw [Nat.toDigits_of_lt_base hsmall, List.head?_cons, ne_eq, Option.some.injEq,
          Nat.digitChar_eq_zero]
        exact h
      · have hdigits := Nat.toDigits_of_base_le (b := 10) (by omega) (Nat.not_lt.1 hsmall)
        have hhead := ih (n / 10) (by omega) (by omega)
        obtain ⟨c, s, hrest, -⟩ := exists_head_toDigits (n / 10)
        rw [hrest] at hdigits hhead
        rw [hdigits]
        exact hhead

theorem wholePart_toDigits
    (atEnd : Error) (n : Nat) :
    wholePart atEnd (Nat.toDigits 10 n) = .ok (Nat.toDigits 10 n, []) := by
  by_cases hzero : n = 0
  · subst hzero
    rfl
  · have hsome : someDigits atEnd (Nat.toDigits 10 n) = .ok (Nat.toDigits 10 n, []) :=
      someDigits_eq_ok_iff.2 ⟨(List.append_nil _).symm, Nat.toDigits_ne_nil,
        fun c hc => Nat.isDigit_of_mem_toDigits (by omega) (by omega) hc, nofun⟩
    have hhead := head?_toDigits_ne_zero hzero
    obtain ⟨c, s, hdigits, -⟩ := exists_head_toDigits n
    rw [hdigits] at hsome hhead ⊢
    rw [wholePart_of_ne (by simpa using hhead)]
    exact hsome

/-- An integer begins with a minus or a digit. -/
theorem exists_head_writeInteger
    (n : Int) :
    ∃ c s, writeInteger n = c :: s ∧ (c = '-' ∨ c.isDigit) := by
  rw [writeInteger]
  split
  · exact ⟨'-', _, rfl, .inl rfl⟩
  · obtain ⟨c, s, hdigits, hc⟩ := exists_head_toDigits n.natAbs
    exact ⟨c, s, hdigits, .inr hc⟩

theorem scan_writeInteger
    (atEnd : Error) (n : Int) :
    scan atEnd (writeInteger n) = .ok (⟨n < 0, Nat.toDigits 10 n.natAbs, none, none⟩, []) := by
  have hminus : minus (writeInteger n) = (decide (n < 0), Nat.toDigits 10 n.natAbs) := by
    rw [writeInteger]
    split
    · next hn => simp [minus, hn]
    · next hn =>
        obtain ⟨c, s, hdigits, hc⟩ := exists_head_toDigits n.natAbs
        have hne : c ≠ '-' := by
          rintro rfl
          revert hc
          decide
        simp [minus, hn, hdigits, hne]
  simp only [scan, unsigned, hminus, wholePart_toDigits, ok_bind]
  rfl

/-- All digits are gathered if the value stays below `2 ^ 64`. -/
theorem gather_eq
    {digits : List Char} {m : Nat} (h : Nat.ofDigitChars 10 digits m < 2 ^ 64) :
    gather m digits = (Nat.ofDigitChars 10 digits m, []) := by
  induction digits generalizing m with
  | nil => rfl
  | cons c digits ih =>
      rw [Nat.ofDigitChars_cons, Nat.mul_comm] at h
      have hnext : m * 10 + digitValue c < twoPow 64 :=
        Nat.lt_of_le_of_lt (le_ofDigitChars digits _) h
      have hrest : gather (m * 10 + digitValue c) digits = _ := ih h
      rw [gather, if_pos hnext, hrest, Nat.ofDigitChars_cons, Nat.mul_comm 10 m]
      rfl

/-- The numeral of an integer of 64 bits has the integer for its value. -/
theorem value_writeInteger
    {n : Int} (least : -2 ^ 63 ≤ n) (greatest : n < 2 ^ 64) :
    value ⟨n < 0, Nat.toDigits 10 n.natAbs, none, none⟩ = .ok (.integer n) := by
  have hgather : gather 0 (Nat.toDigits 10 n.natAbs) = (n.natAbs, []) := by
    have hvalue : Nat.ofDigitChars 10 (Nat.toDigits 10 n.natAbs) 0 = n.natAbs :=
      Nat.ofDigitChars_ten_toDigits
    rw [gather_eq (by omega), hvalue]
  have hinteger : integer? ⟨n < 0, Nat.toDigits 10 n.natAbs, none, none⟩ = some n := by
    rw [integer?]
    simp only [hgather, Option.isSome_none, Bool.false_eq_true, or_self, if_false,
      decide_eq_true_eq, twoPow_eq]
    split
    · rw [if_pos (by omega)]
      congr 1
      omega
    · congr 1
      omega
  rw [value, hinteger]

end Integers

end Numeral
end Json

/-- What was read is the number. -/
def Json.isFloat (x : Binary64) : Except Json.Error Json → Bool
  | .ok (.float y) => y = x
  | _ => false

/-- The number is read from its own text as the same number. -/
def Binary64.ReadsBack (x : Binary64) : Prop :=
  Json.parse (String.ofList (Json.writeFloat x)) = .ok (.float x)

theorem Json.isFloat_iff
    {x : Binary64} {read : Except Json.Error Json} :
    Json.isFloat x read ↔ read = .ok (.float x) := by
  rcases read with e | v
  · simp [isFloat]
  · cases v <;> simp [isFloat]

instance (x : Binary64) : Decidable x.ReadsBack :=
  decidable_of_iff _ (Json.isFloat_iff (x := x))

namespace Decimal

section Characters

variable {c : Char} {digits : List Char}

theorem isDigit_of_mem_significantDigits
    {d : Decimal} (h : c ∈ d.significantDigits) :
    c.isDigit := by
  have hdigits : c ∈ d.digits := by
    have hmem := (List.dropWhile_suffix _).mem (List.mem_reverse.1 h)
    exact List.mem_reverse.1 hmem
  exact Nat.isDigit_of_mem_toDigits (by omega) (by omega) hdigits

theorem mem_mantissa
    (hdigits : ∀ c ∈ digits, c.isDigit) (h : c ∈ mantissa digits) :
    c.isDigit ∨ c = '.' := by
  rw [mantissa.eq_def] at h
  split at h
  · rcases List.mem_cons.1 h with rfl | h
    · exact .inl (hdigits _ (by simp))
    · rcases List.mem_cons.1 h with rfl | h
      · exact .inr rfl
      · exact .inl (hdigits c (List.mem_cons_of_mem _ h))
  · exact .inl (hdigits c h)

theorem mem_scientific
    (hdigits : ∀ c ∈ digits, c.isDigit) {exponent : Int} (h : c ∈ scientific digits exponent) :
    c.isDigit ∨ c ∈ ['-', '+', '.', 'e'] := by
  rcases List.mem_append.1 h with h | h
  · rcases mem_mantissa hdigits h with h | rfl
    · exact .inl h
    · simp
  · rcases List.mem_cons.1 h with rfl | h
    · simp
    · rcases List.mem_cons.1 h with rfl | h
      · split <;> simp
      · exact .inl (Nat.isDigit_of_mem_toDigits (by omega) (by omega) h)

theorem mem_fractional
    (hdigits : ∀ c ∈ digits, c.isDigit) {zeros : Nat} (h : c ∈ fractional digits zeros) :
    c.isDigit ∨ c = '.' := by
  simp only [fractional, List.mem_cons, List.cons_append, List.mem_append] at h
  rcases h with rfl | rfl | h | h
  · exact .inl rfl
  · exact .inr rfl
  · rw [List.eq_of_mem_replicate h]
    exact .inl rfl
  · exact .inl (hdigits c h)

theorem mem_pointed
    (hdigits : ∀ c ∈ digits, c.isDigit) {whole : Nat} (h : c ∈ pointed digits whole) :
    c.isDigit ∨ c = '.' := by
  have hpadded : ∀ c ∈ digits ++ List.replicate (whole + 1 - digits.length) '0', c.isDigit := by
    intro c hc
    rcases List.mem_append.1 hc with hc | hc
    · exact hdigits c hc
    · rw [List.eq_of_mem_replicate hc]
      rfl
  rcases List.mem_append.1 h with h | h
  · exact .inl (hpadded c (List.mem_of_mem_take h))
  · rcases List.mem_cons.1 h with rfl | h
    · exact .inr rfl
    · exact .inl (hpadded c (List.mem_of_mem_drop h))

/-- The characters of a decimal. -/
theorem mem_write
    {d : Decimal} {layout : Layout} (h : c ∈ d.write layout) :
    c.isDigit ∨ c ∈ ['-', '+', '.', 'e'] := by
  have hdigits : ∀ c ∈ d.significantDigits, c.isDigit := fun c hc =>
    isDigit_of_mem_significantDigits hc
  have hpoint : c.isDigit ∨ c = '.' → c.isDigit ∨ c ∈ ['-', '+', '.', 'e'] :=
    Or.imp_right fun heq => by simp [heq]
  rw [write] at h
  split at h
  · simp only [List.mem_cons, List.not_mem_nil, or_false] at h
    rcases h with rfl | rfl | rfl
    · exact .inl rfl
    · simp
    · exact .inl rfl
  · split at h
    · exact mem_scientific hdigits h
    · split at h
      · exact hpoint (mem_fractional hdigits h)
      · exact hpoint (mem_pointed hdigits h)

end Characters

end Decimal

namespace Json

section Floats

variable {x : Binary64}

/-- The characters of a floating point number. -/
theorem mem_writeFloat
    {c : Char} (h : c ∈ writeFloat x) :
    c.isDigit ∨ c ∈ ['-', '+', '.', 'e', 'n', 'u', 'l'] := by
  rw [writeFloat] at h
  split at h
  · rcases List.mem_append.1 h with h | h
    · split at h
      · simp_all
      · cases h
    · rcases Decimal.mem_write h with h | h
      · exact .inl h
      · right
        revert h
        simp only [List.mem_cons, List.not_mem_nil, or_false]
        tauto
  · right
    revert h
    simp only [List.mem_cons, List.not_mem_nil, or_false]
    tauto

theorem not_isBlank_of_isDigit
    {c : Char} (h : c.isDigit) :
    isBlank c = false := by
  by_contra hblank
  have hblank : isBlank c = true := by simpa using hblank
  simp only [isBlank, Bool.or_eq_true, decide_eq_true_eq] at hblank
  rcases hblank with ((rfl | rfl) | rfl) | rfl <;> revert h <;> decide

/-- A number begins like no other value. -/
theorem head_number
    {c : Char} (h : c = '-' ∨ c.isDigit) :
    isBlank c = false ∧ c ≠ '[' ∧ c ≠ '\x7b' ∧ c ≠ 'n' ∧ c ≠ 't' ∧ c ≠ 'f' ∧ c ≠ '"' ∧
      c ≠ ']' := by
  rcases h with rfl | h
  · decide
  · refine ⟨not_isBlank_of_isDigit h, ?_, ?_, ?_, ?_, ?_, ?_, ?_⟩ <;>
      · rintro rfl
        revert h
        decide

/-- No character of a floating point number is a blank. -/
theorem not_isBlank_of_mem_writeFloat
    {c : Char} (h : c ∈ writeFloat x) :
    isBlank c = false := by
  rcases mem_writeFloat h with h | h
  · exact not_isBlank_of_isDigit h
  · have hall : ['-', '+', '.', 'e', 'n', 'u', 'l'].all fun c => !isBlank c := by decide
    simpa using List.all_eq_true.1 hall c h

theorem skipBlanks_of_head
    {c : Char} (h : isBlank c = false) (s : List Char) :
    skipBlanks (c :: s) = c :: s := by
  rw [skipBlanks, List.dropWhile_cons, h]
  rfl

/-- A value that begins with no bracket is a scalar. -/
theorem readValue_of_head
    {c : Char} (hblank : isBlank c = false) (hlist : c ≠ '[') (hobject : c ≠ '\x7b')
    (bound room : Nat) (s : List Char) :
    readValue bound room (c :: s) = readScalar (c :: s) := by
  have hbracket : ∀ list object scalar : Reader Json,
      byBracket list object scalar (c :: s) = scalar (c :: s) := by
    intro list object scalar
    rw [byBracket, skipBlanks_of_head hblank]
    split
    · next heq => cases heq; exact absurd rfl hlist
    · next heq => cases heq; exact absurd rfl hobject
    · rfl
  cases room <;> exact hbracket _ _ _

/-- A scalar that is a floating point number is read as a numeral. -/
theorem scan_of_readScalar_eq_float
    {s rest : List Char} (h : readScalar s = .ok (.float x, rest)) :
    ∃ n c s', s = c :: s' ∧ (c = '-' ∨ c.isDigit) ∧
      Numeral.scan .endInValue s = .ok (n, rest) ∧ n.value = .ok (.float x) := by
  cases s with
  | nil => cases h
  | cons c s =>
      rw [readScalar] at h
      split at h
      · obtain ⟨_, -, hv⟩ := bind_eq_ok_iff.1 h
        cases hv
      · split at h
        · obtain ⟨_, -, hv⟩ := bind_eq_ok_iff.1 h
          cases hv
        · split at h
          · obtain ⟨_, -, hv⟩ := bind_eq_ok_iff.1 h
            cases hv
          · split at h
            · obtain ⟨⟨_, _⟩, -, hv⟩ := bind_eq_ok_iff.1 h
              cases hv
            · split at h
              · next hc =>
                  obtain ⟨⟨n, left⟩, hn, hv⟩ := bind_eq_ok_iff.1 h
                  obtain ⟨w, hw, hv⟩ := bind_eq_ok_iff.1 hv
                  cases hv
                  exact ⟨n, c, s, rfl, hc, hn, hw⟩
              · cases h

/-- What it takes for a floating point number to be read back from its text. -/
theorem scan_of_readsBack
    (h : x.ReadsBack) :
    ∃ n c s, writeFloat x = c :: s ∧ (c = '-' ∨ c.isDigit) ∧
      Numeral.scan .endInValue (writeFloat x) = .ok (n, []) ∧ n.value = .ok (.float x) := by
  obtain ⟨⟨v, rest⟩, hread, h⟩ := bind_eq_ok_iff.1 h
  obtain ⟨_, hend, h⟩ := bind_eq_ok_iff.1 h
  cases h
  rw [String.toList_ofList] at hread
  have hscalar : readScalar (writeFloat x) = .ok (.float x, rest) := by
    rw [← hread]
    cases hw : writeFloat x with
    | nil => rfl
    | cons c s =>
        have hmem : c ∈ writeFloat x := by simp [hw]
        refine (readValue_of_head (not_isBlank_of_mem_writeFloat hmem) ?_ ?_ _ _ s).symm
        · rintro rfl
          rcases mem_writeFloat hmem with h | h <;> revert h <;> decide
        · rintro rfl
          rcases mem_writeFloat hmem with h | h <;> revert h <;> decide
  obtain ⟨n, c, s, hw, hc, hscan, hvalue⟩ := scan_of_readScalar_eq_float hscalar
  have hsuffix := (Numeral.isLocal_scan _ _ _ hscan).1
  have hrest : rest = [] := by
    cases rest with
    | nil => rfl
    | cons d rest =>
        have hblank := not_isBlank_of_mem_writeFloat (hsuffix.mem List.mem_cons_self)
        simp only [atEnd, skipBlanks_of_head hblank] at hend
        cases hend
  rw [hrest] at hscan
  exact ⟨n, c, s, hw, hc, hscan, hvalue⟩

end Floats
end Json
end FlagStack
