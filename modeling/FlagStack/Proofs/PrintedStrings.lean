import FlagStack.Json.Printer
import FlagStack.Json.Text
import FlagStack.Proofs.Outcomes

/-!
# Strings read back

A string that has been printed is read as the same string.  It is enough to look at one
character: what it is printed as puts it in front of what has been read.

**Results.**
* `stringFrom_escapedChar`: one character.
* `readString_flatMap`: a string.
-/

namespace FlagStack
namespace Json

section Characters

variable {c : Char} (acc tail : List Char)

/-- The four digits of a control character spell it. -/
theorem unit?_hexadecimal
    {n : Nat} (h : n < 0x20) :
    List.replicate (4 - (Text.hexadecimal n).length) '0' ++ Text.hexadecimal n =
        ['0', '0', (n / 16).digitChar, (n % 16).digitChar] ∧
      unit? '0' '0' (n / 16).digitChar (n % 16).digitChar = some n := by
  revert n
  decide

theorem stringFrom_controlCharacter
    (h : c.toNat < 0x20) :
    stringFrom true acc
        (['\\', 'u'] ++ (List.replicate (4 - (Text.hexadecimal c.toNat).length) '0' ++
          Text.hexadecimal c.toNat) ++ tail) =
      stringFrom true (c :: acc) tail := by
  obtain ⟨hdigits, hunit⟩ := unit?_hexadecimal h
  have htrailing : isTrailing c.toNat = false := by
    simp only [isTrailing, Bool.and_eq_false_iff, decide_eq_false_iff_not]
    omega
  have hleading : isLeading c.toNat = false := by
    simp only [isLeading, Bool.and_eq_false_iff, decide_eq_false_iff_not]
    omega
  rw [hdigits]
  simp only [List.cons_append, List.nil_append, stringFrom, hunit, htrailing, hleading,
    Bool.and_false, Bool.false_eq_true, if_false, Char.ofNat_toNat]

/-- A character that stands for itself. -/
theorem stringFrom_plainCharacter
    (kept : Bool) (hquote : c ≠ '"') (hbackslash : c ≠ '\\') (hcontrol : ¬ c.toNat < 0x20) :
    stringFrom kept acc (c :: tail) = stringFrom kept (c :: acc) tail := by
  simp [stringFrom, hbackslash, hcontrol]

/-- What a character is printed as is read as the character. -/
theorem stringFrom_escapedChar
    (c : Char) (acc tail : List Char) :
    stringFrom true acc (escapedChar c ++ tail) = stringFrom true (c :: acc) tail := by
  rw [escapedChar]
  split
  · next hc => rcases hc with rfl | rfl <;> rfl
  · next hspecial =>
      obtain ⟨hquote, hbackslash⟩ := not_or.1 hspecial
      split
      · next hc => subst hc; rfl
      · split
        · next hc => subst hc; rfl
        · split
          · next hc => subst hc; rfl
          · split
            · next hc => subst hc; rfl
            · split
              · next hc => subst hc; rfl
              · split
                · next hcontrol =>
                    rw [List.append_assoc ['\\', 'u']]
                    exact stringFrom_controlCharacter acc tail hcontrol
                · next hcontrol =>
                    exact stringFrom_plainCharacter acc tail true hquote hbackslash hcontrol

end Characters

theorem stringFrom_flatMap
    (content acc rest : List Char) :
    stringFrom true acc (content.flatMap escapedChar ++ '"' :: rest) =
      .ok (acc.reverse ++ content, rest) := by
  induction content generalizing acc with
  | nil => simp [stringFrom]
  | cons c content ih =>
      rw [List.flatMap_cons, List.append_assoc, stringFrom_escapedChar, ih, List.reverse_cons,
        List.append_assoc, List.singleton_append]

/-- A string is read back from behind its opening quote. -/
theorem readString_flatMap
    (s : String) (rest : List Char) :
    readString (s.toList.flatMap escapedChar ++ '"' :: rest) = .ok (s, rest) := by
  rw [readString, stringFrom_flatMap, ok_bind, List.reverse_nil, List.nil_append]
  exact congrArg (fun content => Except.ok (content, rest)) String.ofList_toList

end Json
end FlagStack
