import FlagStack.Json.Skip
import FlagStack.Proofs.PrintedValues

/-!
# Spellings of values

A value can be spelled in many ways: with blanks between the tokens, with escapes in
strings, with its members in any order.  A spelling is a value together with all this.
Its parts carry the conditions under which they are grammatical, so that a spelling is
a text of the grammar, and every text of the grammar has one.

**Results.**
* `exists_head`: the first character of a spelling tells what kind of value it is.
* `endsNumber_itemsText`, `endsNumber_membersText`: what stands behind an item or a
  member ends a number.
* `length_itemsText`, `length_membersText`: a container is longer than its parts.
-/

namespace FlagStack

open Json

section Tokens

/-- Blanks between tokens. -/
structure Blanks where
  text : List Char
  blank : ∀ c ∈ text, isBlank c

def Blanks.empty : Blanks where
  text := []
  blank := nofun

@[simp] theorem Blanks.text_empty :
    Blanks.empty.text = [] := by
  rfl

def Blanks.append (gap gap' : Blanks) : Blanks where
  text := gap.text ++ gap'.text
  blank := fun c hc => (List.mem_append.1 hc).elim (gap.blank c) (gap'.blank c)

/-- A character or an escape between the quotes of a string. -/
inductive Piece where
  | plain (c : Char) (hquote : c ≠ '"') (hbackslash : c ≠ '\\') (hcontrol : ¬ c.toNat < 0x20)
  | short (letter c : Char) (h : shortEscape? letter = some c)
  | unit (a b c d : Char) (n : Nat) (h : unit? a b c d = some n)

def Piece.text : Piece → List Char
  | .plain c _ _ _ => [c]
  | .short letter _ _ => ['\\', letter]
  | .unit a b c d _ _ => ['\\', 'u', a, b, c, d]

/-- What stands between the quotes of a string. -/
def contentText (content : List Piece) : List Char :=
  content.flatMap Piece.text

/-- A digit or more. -/
structure Digits where
  text : List Char
  nonempty : text ≠ []
  digits : ∀ c ∈ text, c.isDigit

structure ExponentSpelling where
  capital : Bool
  /-- The sign, if there is one, with `true` for a minus. -/
  sign : Option Bool
  digits : Digits

def signText : Option Bool → List Char
  | none => []
  | some false => ['+']
  | some true => ['-']

def ExponentSpelling.text (e : ExponentSpelling) : List Char :=
  (if e.capital then 'E' else 'e') :: (signText e.sign ++ e.digits.text)

structure NumberSpelling where
  negative : Bool
  whole : Digits
  /-- No zero stands before another digit. -/
  leading : whole.text.head? = some '0' → whole.text = ['0']
  fraction : Option Digits
  exponent : Option ExponentSpelling

def fractionText : Option Digits → List Char
  | none => []
  | some digits => '.' :: digits.text

def exponentText : Option ExponentSpelling → List Char
  | none => []
  | some e => e.text

def NumberSpelling.text (n : NumberSpelling) : List Char :=
  (if n.negative then ['-'] else []) ++
    (n.whole.text ++ (fractionText n.fraction ++ exponentText n.exponent))

inductive Literal where
  | null
  | bool (b : Bool)

def Literal.text : Literal → List Char
  | .null => ['n', 'u', 'l', 'l']
  | .bool true => ['t', 'r', 'u', 'e']
  | .bool false => ['f', 'a', 'l', 's', 'e']

/-- The blanks around a value. -/
structure Gaps where
  before : Blanks
  after : Blanks

/-- The key of a member, with the blanks around it. -/
structure Label where
  before : Blanks
  key : List Piece
  after : Blanks

end Tokens

/-- A value as it is spelled in a text. -/
inductive Spelling where
  | literal (l : Literal)
  | number (n : NumberSpelling)
  | string (content : List Piece)
  | array (items : List (Gaps × Spelling)) (inner : Blanks)
  | object (members : List (Label × Gaps × Spelling)) (inner : Blanks)

/-- What separates an item or a member from the one before it. -/
def separator (first : Bool) : List Char :=
  if first then [] else [',']

mutual

/-- The text of a spelling. -/
def Spelling.text : Spelling → List Char
  | .literal l => l.text
  | .number n => n.text
  | .string content => '"' :: (contentText content ++ ['"'])
  | .array items inner => '[' :: itemsText inner true items
  | .object members inner => '\x7b' :: membersText inner true members

/-- Items and the closing bracket. -/
def itemsText (inner : Blanks) : Bool → List (Gaps × Spelling) → List Char
  | _, [] => inner.text ++ [']']
  | first, (gaps, v) :: rest =>
      separator first ++
        (gaps.before.text ++ (v.text ++ (gaps.after.text ++ itemsText inner false rest)))

/-- Members and the closing brace. -/
def membersText (inner : Blanks) : Bool → List (Label × Gaps × Spelling) → List Char
  | _, [] => inner.text ++ ['\x7d']
  | first, (label, gaps, v) :: rest =>
      separator first ++
        (label.before.text ++ '"' :: (contentText label.key ++ '"' :: (label.after.text ++ ':' ::
          (gaps.before.text ++ (v.text ++ (gaps.after.text ++ membersText inner false rest))))))

end

/-- The text of a value that has blanks around it. -/
def Spelling.document (lead : Blanks) (v : Spelling) (trail : Blanks) : String :=
  String.ofList (lead.text ++ (v.text ++ trail.text))

section Heads

/-- What the first character of a spelling tells of the value. -/
structure Spelling.HeadedBy (v : Spelling) (c : Char) : Prop where
  blank : isBlank c = false
  close : c ≠ ']'
  null : c = 'n' → v = .literal .null
  quote : c = '"' → ∃ content, v = .string content
  bracket : c = '[' → ∃ items inner, v = .array items inner
  brace : c = '\x7b' → ∃ members inner, v = .object members inner
  number : c = '-' ∨ c.isDigit → ∃ n, v = .number n

theorem NumberSpelling.exists_head
    (n : NumberSpelling) :
    ∃ c s, n.text = c :: s ∧ (c = '-' ∨ c.isDigit) := by
  obtain ⟨c, s, hwhole⟩ := List.exists_cons_of_ne_nil n.whole.nonempty
  have hc : c.isDigit := n.whole.digits c (hwhole ▸ List.mem_cons_self)
  rw [NumberSpelling.text, hwhole]
  cases n.negative with
  | true => exact ⟨'-', _, rfl, .inl rfl⟩
  | false => exact ⟨c, _, rfl, .inr hc⟩

theorem Spelling.exists_head
    (v : Spelling) :
    ∃ c s, v.text = c :: s ∧ v.HeadedBy c := by
  cases v with
  | literal l =>
      rcases l with _ | _ | _
      · exact ⟨'n', _, rfl, by constructor <;> first | decide | simp⟩
      · exact ⟨'f', _, rfl, by constructor <;> first | decide | simp⟩
      · exact ⟨'t', _, rfl, by constructor <;> first | decide | simp⟩
  | number n =>
      obtain ⟨c, s, hs, hc⟩ := n.exists_head
      obtain ⟨hblank, hlist, hobject, hn, -, -, hquote, hclose⟩ := head_number hc
      refine ⟨c, s, by rw [text, hs], ?_⟩
      constructor <;> simp_all
  | string content =>
      refine ⟨'"', _, by rw [text], ?_⟩
      constructor <;> first | decide | simp
  | array items inner =>
      refine ⟨'[', _, by rw [text], ?_⟩
      constructor <;> first | decide | simp
  | object members inner =>
      refine ⟨'\x7b', _, by rw [text], ?_⟩
      constructor <;> first | decide | simp

end Heads

section Blanks

theorem skipBlanks_append
    (gap : Blanks) (s : List Char) :
    skipBlanks (gap.text ++ s) = skipBlanks s := by
  rw [skipBlanks, List.dropWhile_append_of_pos gap.blank]
  rfl

/-- Blanks before a spelling are passed over, and no more. -/
theorem skipBlanks_gap
    (gap : Blanks) (v : Spelling) (s : List Char) :
    skipBlanks (gap.text ++ (v.text ++ s)) = v.text ++ s := by
  obtain ⟨c, t, htext, hhead⟩ := v.exists_head
  rw [skipBlanks_append, htext, List.cons_append, skipBlanks_of_head hhead.blank]

theorem skipBlanks_gap_cons
    (gap : Blanks) {c : Char} (h : isBlank c = false) (s : List Char) :
    skipBlanks (gap.text ++ c :: s) = c :: s := by
  rw [skipBlanks_append, skipBlanks_of_head h]

theorem colon_gap
    (gap : Blanks) (s : List Char) :
    colon (gap.text ++ ':' :: s) = .ok ((), s) := by
  rw [colon, skipBlanks_gap_cons gap rfl]
  rfl

theorem endsNumber_gap
    (gap : Blanks) {s : List Char} (h : EndsNumber s) :
    EndsNumber (gap.text ++ s) := by
  have hall : [' ', '\n', '\t', '\r'].all fun c =>
      c.isDigit = false ∧ c ≠ '.' ∧ c ≠ 'e' ∧ c ≠ 'E' := by decide
  cases htext : gap.text with
  | nil => exact h
  | cons c t =>
      have hblank := gap.blank c (htext ▸ List.mem_cons_self)
      have hmem : c ∈ [' ', '\n', '\t', '\r'] := by
        simpa [isBlank, or_assoc] using hblank
      intro d hd
      cases hd
      simpa using List.all_eq_true.1 hall c hmem

theorem endsNumber_itemsText
    (inner : Blanks) (items : List (Gaps × Spelling)) (rest : List Char) :
    EndsNumber (itemsText inner false items ++ rest) := by
  cases items with
  | nil =>
      rw [itemsText, List.append_assoc]
      exact endsNumber_gap inner (endsNumber_of_delimiter (by simp) _)
  | cons x items => exact endsNumber_of_delimiter (by simp) _

theorem endsNumber_membersText
    (inner : Blanks) (members : List (Label × Gaps × Spelling)) (rest : List Char) :
    EndsNumber (membersText inner false members ++ rest) := by
  cases members with
  | nil =>
      rw [membersText, List.append_assoc]
      exact endsNumber_gap inner (endsNumber_of_delimiter (by simp) _)
  | cons x members => exact endsNumber_of_delimiter (by simp) _

end Blanks

section Induction

variable {P : Spelling → Prop}

mutual

/-- What holds of a value if it holds of its items and members holds of all. -/
theorem Spelling.induction
    (literal : ∀ l, P (.literal l)) (number : ∀ n, P (.number n))
    (string : ∀ content, P (.string content))
    (array : ∀ items inner, (∀ x ∈ items, P x.2) → P (.array items inner))
    (object : ∀ members inner, (∀ m ∈ members, P m.2.2) → P (.object members inner)) :
    (v : Spelling) → P v
  | .literal l => literal l
  | .number n => number n
  | .string content => string content
  | .array items inner =>
      array items inner (induction_items literal number string array object items)
  | .object members inner =>
      object members inner (induction_members literal number string array object members)

theorem induction_items
    (literal : ∀ l, P (.literal l)) (number : ∀ n, P (.number n))
    (string : ∀ content, P (.string content))
    (array : ∀ items inner, (∀ x ∈ items, P x.2) → P (.array items inner))
    (object : ∀ members inner, (∀ m ∈ members, P m.2.2) → P (.object members inner)) :
    (items : List (Gaps × Spelling)) → ∀ x ∈ items, P x.2
  | [] => nofun
  | (_, v) :: rest =>
      List.forall_mem_cons.2
        ⟨Spelling.induction literal number string array object v,
          induction_items literal number string array object rest⟩

theorem induction_members
    (literal : ∀ l, P (.literal l)) (number : ∀ n, P (.number n))
    (string : ∀ content, P (.string content))
    (array : ∀ items inner, (∀ x ∈ items, P x.2) → P (.array items inner))
    (object : ∀ members inner, (∀ m ∈ members, P m.2.2) → P (.object members inner)) :
    (members : List (Label × Gaps × Spelling)) → ∀ m ∈ members, P m.2.2
  | [] => nofun
  | (_, _, v) :: rest =>
      List.forall_mem_cons.2
        ⟨Spelling.induction literal number string array object v,
          induction_members literal number string array object rest⟩

end

end Induction

section Lengths

theorem length_itemsText
    (inner : Blanks) (items : List (Gaps × Spelling)) :
    items.length ≤ (itemsText inner true items).length ∧
      ∀ x ∈ items, x.2.text.length ≤ (itemsText inner true items).length := by
  refine length_inside (itemsText inner false) (fun x => x.2.text) ?_ ?_ ?_ items
  · simp [itemsText]
  · rintro ⟨gaps, v⟩ items
    simp only [itemsText, separator, Bool.false_eq_true, if_false, List.length_append,
      List.length_cons]
    omega
  · rintro ⟨gaps, v⟩ items
    simp only [itemsText, separator, if_true, List.length_append]
    omega

theorem length_membersText
    (inner : Blanks) (members : List (Label × Gaps × Spelling)) :
    members.length ≤ (membersText inner true members).length ∧
      ∀ m ∈ members, m.2.2.text.length ≤ (membersText inner true members).length := by
  refine length_inside (membersText inner false) (fun m => m.2.2.text) ?_ ?_ ?_ members
  · simp [membersText]
  · rintro ⟨label, gaps, v⟩ members
    simp only [membersText, separator, Bool.false_eq_true, if_false, List.length_append,
      List.length_cons]
    omega
  · rintro ⟨label, gaps, v⟩ members
    simp only [membersText, separator, if_true, List.length_append, List.length_cons]
    omega

end Lengths
end FlagStack
