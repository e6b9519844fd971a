import FlagStack.Proofs.ConfigRoundTrip
import FlagStack.Proofs.ShownProperties
import FlagStack.Proofs.TemplateAccess

/-!
# Variations with the type written beside the value

Which values fit which type is said without the reader: a boolean, a string, an integer
of 64 bits with a sign, and for a double any number.  How a value of each type may have
been written is a relation, in which one double is written as a number or as an integer
that it is nearest to.

A variation that is accepted has its value under the key of its type and under no other,
and written back it is as it was written, but that a double is a number and not an
integer.

**Results.**
* `Value.ofJson?_eq_some_iff`: what a value is read from.
* `ValueType.accepts_iff`: what is accepted for a type.
* `Variation.member?_key`: what a variation has under the key of a type.
* `Variation.ofUntyped_agrees`: reading, rendering and writing of variations agree.
-/

namespace FlagStack

open Json

/-- A value as it may be written. -/
inductive Value.WrittenAs : Value → Json → Prop
  | boolean (b : Bool) : WrittenAs (.boolean b) (.bool b)
  | integer (n : Int) : WrittenAs (.double (Binary64.ofInt n)) (.integer n)
  | float (x : Binary64) : WrittenAs (.double x) (.float x)
  | long (n : Int64) : WrittenAs (.long n) (.integer n.toInt)
  | string (s : String) : WrittenAs (.string s) (.string s)

namespace ValueType

/-- The values that fit a type. -/
inductive Accepts : ValueType → Json → Prop
  | boolean (b : Bool) : Accepts .boolean (.bool b)
  | integer (n : Int) : Accepts .double (.integer n)
  | float (x : Binary64) : Accepts .double (.float x)
  | long {n : Int} (least : -2 ^ 63 ≤ n) (greatest : n < 2 ^ 63) : Accepts .long (.integer n)
  | string (s : String) : Accepts .string (.string s)

/-- A value as it is written for a type: a double is no integer. -/
def normal : ValueType → Json → Json
  | .double, .integer n => .float (Binary64.ofInt n)
  | _, v => v

end ValueType

theorem Value.isNonFinite_eq_false_iff
    {value : Value} :
    value.isNonFinite = false ↔ ∀ x, value = .double x → x.isFinite := by
  cases value <;> simp [isNonFinite]

section Reading

theorem Value.writtenAs_of_range
    {n : Int} (least : -2 ^ 63 ≤ n) (greatest : n < 2 ^ 63) :
    (Value.long (Int64.ofInt n)).WrittenAs (.integer n) := by
  have hwritten := WrittenAs.long (Int64.ofInt n)
  rwa [Int64.toInt_ofInt_of_le least greatest] at hwritten

/-- A value is read from what it may be written as, for its own type. -/
theorem Value.ofJson?_eq_some_iff
    {t : ValueType} {v : Json} {value : Value} :
    Value.ofJson? t v = some value ↔ value.valueType = t ∧ value.WrittenAs v := by
  constructor
  · intro h
    rw [Value.ofJson?.eq_def] at h
    split at h
    · cases h
      exact ⟨rfl, .boolean _⟩
    · cases h
      exact ⟨rfl, .integer _⟩
    · cases h
      exact ⟨rfl, .float _⟩
    · next n =>
        split at h
        · next hrange =>
            cases h
            rw [twoPow_eq] at hrange
            exact ⟨rfl, writtenAs_of_range hrange.1 hrange.2⟩
        · cases h
    · cases h
      exact ⟨rfl, .string _⟩
    · cases h
  · rintro ⟨rfl, h⟩
    cases h with
    | boolean | integer | float | string => rfl
    | long n =>
        rw [valueType, ofJson?, twoPow_eq, if_pos ⟨n.le_toInt, n.toInt_lt⟩, n.ofInt_toInt]

theorem ValueType.accepts_iff
    {t : ValueType} {v : Json} :
    t.Accepts v ↔ ∃ value, Value.ofJson? t v = some value := by
  simp only [Value.ofJson?_eq_some_iff]
  constructor
  · intro h
    cases h with
    | boolean b => exact ⟨_, rfl, .boolean b⟩
    | integer n => exact ⟨_, rfl, .integer n⟩
    | float x => exact ⟨_, rfl, .float x⟩
    | long least greatest => exact ⟨_, rfl, Value.writtenAs_of_range least greatest⟩
    | string s => exact ⟨_, rfl, .string s⟩
  · rintro ⟨value, rfl, h⟩
    cases h with
    | boolean b => exact .boolean b
    | integer n => exact .integer n
    | float x => exact .float x
    | long n => exact .long n.le_toInt n.toInt_lt
    | string s => exact .string s

/-- Written back a value is as it was written, up to an integer that stands for a
double. -/
theorem Value.json_of_writtenAs
    {value : Value} {v : Json} (h : value.WrittenAs v) (hfinite : value.isNonFinite = false) :
    value.json = value.valueType.normal v := by
  cases h with
  | boolean | long | string => rfl
  | integer n | float x => exact if_pos (by simpa [isNonFinite] using hfinite)

end Reading

namespace Variation

section Showing

/-- A variation has its value under the key of its type, and nothing under the others. -/
theorem member?_key
    (w : Variation) (t : ValueType) :
    w.properties.member? t.key = if w.valueType = t then some w.value.json else none := by
  obtain ⟨label, value⟩ := w
  cases value <;> cases t <;> simp [properties, member?, ValueType.key, Value.valueType, valueType]

theorem member?_label
    (w : Variation) :
    w.properties.member? "VariationName" = w.label.map .string := by
  rw [properties_eq]
  simp [ValueType.key]

end Showing

section Accepting

theorem exists_ofUntyped_iff
    {v : UntypedVariation} :
    (∃ w, ofUntyped v = .ok w) ↔ v.valueType.Accepts v.value := by
  simp only [ofUntyped_eq_ok_iff, ValueType.accepts_iff]
  constructor
  · rintro ⟨w, hvalue, -⟩
    exact ⟨w.value, hvalue⟩
  · rintro ⟨value, hvalue⟩
    exact ⟨⟨v.label, value⟩, hvalue, rfl⟩

/-- What is read is written as it has been, since numbers that are kept are finite. -/
theorem toUntyped_of_ofUntyped
    {v : UntypedVariation} {w : Variation} {room : Nat}
    (hkept : v.value.Kept room) (h : ofUntyped v = .ok w) :
    w.toUntyped = ⟨v.label, v.valueType, v.valueType.normal v.value⟩ := by
  obtain ⟨hvalue, hlabel⟩ := ofUntyped_eq_ok_iff.1 h
  obtain ⟨htype, hwritten⟩ := Value.ofJson?_eq_some_iff.1 hvalue
  have hfinite : w.value.isNonFinite = false := Value.isNonFinite_eq_false_iff.2 fun x hx =>
    Value.finite_of_ofJson? hkept (hvalue.trans (congrArg some hx))
  rw [toUntyped, valueType, Value.json_of_writtenAs hwritten hfinite, htype, hlabel]

theorem ofUntyped_toUntyped
    {w : Variation} (h : w.value.isNonFinite = false) :
    ofUntyped w.toUntyped = .ok w := by
  obtain ⟨-, hagain⟩ := Value.kept_json 0 w.value (Value.isNonFinite_eq_false_iff.1 h)
  exact ofUntyped_eq_ok_iff.2 ⟨hagain, rfl⟩

/-- A variation is accepted just if its value fits its type.  What is accepted shows the
name and the value that are given, the value under the key of its type and of no other,
and it is written as it has been, but for an integer that stands for a double.  Whatever
is written is accepted again, unless it is a number without a JSON form. -/
theorem ofUntyped_agrees :
    (∀ v : UntypedVariation, (∃ w, ofUntyped v = .ok w) ↔ v.valueType.Accepts v.value) ∧
      (∀ (v : UntypedVariation) (w : Variation) (room : Nat), v.value.Kept room →
        ofUntyped v = .ok w →
          (∀ t : ValueType, w.properties.member? t.key =
            if t = v.valueType then some (t.normal v.value) else none) ∧
          w.properties.member? "VariationName" = v.label.map .string ∧
          w.toUntyped = ⟨v.label, v.valueType, v.valueType.normal v.value⟩) ∧
      ∀ w : Variation, w.value.isNonFinite = false → ofUntyped w.toUntyped = .ok w := by
  refine ⟨fun v => exists_ofUntyped_iff, fun v w room hkept hw => ?_,
    fun w => ofUntyped_toUntyped⟩
  have hagain := toUntyped_of_ofUntyped hkept hw
  obtain ⟨hlabel, htype, hjson⟩ := UntypedVariation.mk.inj hagain
  refine ⟨fun t => ?_, by rw [member?_label, hlabel], hagain⟩
  rw [member?_key, htype, hjson]
  by_cases h : t = v.valueType
  · rw [if_pos h, if_pos h.symm, h]
  · rw [if_neg h, if_neg (Ne.symm h)]

/-- A double with an empty name, written as an integer. -/
def whole : UntypedVariation :=
  ⟨some "", .double, .integer 1⟩

/-- The variation that it is read as. -/
def one : Variation :=
  ⟨some "", .double (Binary64.ofInt 1)⟩

theorem whole_typed :
    whole.value.Kept 0 ∧ ofUntyped whole = .ok one ∧
      (∀ t : ValueType, one.properties.member? t.key =
        if t = .double then some (.float (Binary64.ofInt 1)) else none) ∧
      one.properties.member? "VariationName" = some (.string "") ∧
      one.toUntyped = ⟨some "", .double, .float (Binary64.ofInt 1)⟩ ∧
      one.value.isNonFinite = false ∧ ofUntyped one.toUntyped = .ok one := by
  have hkept : whole.value.Kept 0 := .number (.integer (by decide) (by decide))
  have hone : one.value.isNonFinite = false := by
    have hfinite : (Binary64.ofInt 1).isFinite := Binary64.isFinite_ofInt (by decide)
    simpa [one, Value.isNonFinite] using hfinite
  obtain ⟨hvalue, hlabel, hagain⟩ := ofUntyped_agrees.2.1 whole one 0 hkept rfl
  exact ⟨hkept, rfl, fun t => (hvalue t).trans (by cases t <;> rfl), hlabel, hagain, hone,
    ofUntyped_agrees.2.2 one hone⟩

end Accepting
end Variation
end FlagStack
