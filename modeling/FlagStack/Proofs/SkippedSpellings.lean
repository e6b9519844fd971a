import FlagStack.Proofs.SpelledScalars

/-!
# Values passed over

A value that is passed over is passed over to its end, whatever it is and however deep
its containers are nested.  The containers that are open around it stay open.

**Results.**
* `skipScalar_text`: literals, numbers and strings.
* `exists_skipFrom_eq`: a value inside of open containers, by induction on the value.
* `skipValue_text`: a value.
-/

namespace FlagStack

open Json

/-- What is done behind a value inside of open containers. -/
def skipBehind (bound : Nat) (outer : List Container) (s : List Char) :
    Except Error (List Char) := do
  let (outer, rest) ← skipBetween outer s
  if outer.isEmpty then return rest else skipFrom bound outer rest

section Scalars

variable {rest : List Char}

/-- The value is no container. -/
def Spelling.isScalar : Spelling → Bool
  | .array .. | .object .. => false
  | _ => true

theorem skipScalar_text
    {v : Spelling} (hv : v.isScalar) (hrest : EndsNumber rest) :
    skipScalar (v.text ++ rest) = .ok rest := by
  cases v with
  | literal l => rcases l with _ | _ | _ <;> rfl
  | number n =>
      obtain ⟨c, s, htext, hc⟩ := n.exists_head
      have hscan := scan_text .invalidNumber n hrest
      have hquote : c ≠ '"' := (head_number hc).2.2.2.2.2.2.1
      rw [htext, List.cons_append] at hscan
      rw [Spelling.text, htext, List.cons_append, skipScalar, if_neg hquote, if_pos hc, hscan]
      rfl
  | string content =>
      simp only [Spelling.text, List.cons_append, List.append_assoc, List.nil_append, skipScalar,
        if_true]
      exact skipString_contentText content rest
  | array items inner => cases hv
  | object members inner => cases hv

theorem opening?_of_isScalar
    {v : Spelling} (hv : v.isScalar) {c : Char} {s : List Char} (htext : v.text = c :: s) :
    Container.opening? c = none := by
  have hhead : v.HeadedBy c := by
    obtain ⟨d, t, htext', hhead⟩ := v.exists_head
    cases htext.symm.trans htext'
    exact hhead
  rw [Container.opening?, if_neg, if_neg]
  · intro hc
    obtain ⟨members, inner, rfl⟩ := hhead.brace hc
    cases hv
  · intro hc
    obtain ⟨items, inner, rfl⟩ := hhead.bracket hc
    cases hv

theorem skipFrom_scalar
    {v : Spelling} (hv : v.isScalar) (bound : Nat) (outer : List Container) (gap : Blanks)
    (hrest : EndsNumber rest) :
    skipFrom (bound + 1) outer (gap.text ++ (v.text ++ rest)) = skipBehind bound outer rest := by
  obtain ⟨c, s, htext, -⟩ := v.exists_head
  have hopening : (v.text ++ rest).head?.bind Container.opening? = none := by
    rw [htext]
    exact opening?_of_isScalar hv htext
  simp only [skipFrom, skipStep, skipBlanks_gap, hopening, skipScalar_text hv hrest, ok_bind]
  rfl

end Scalars

section Containers

variable (outer : List Container)

/-- The value is passed over in some steps, not more than it has characters. -/
def Spelling.Passed (v : Spelling) : Prop :=
  ∃ steps ≤ v.text.length, ∀ bound outer gap rest, EndsNumber rest →
    skipFrom (steps + bound) outer (Blanks.text gap ++ (v.text ++ rest)) =
      skipBehind bound outer rest

/-- Behind a comma, or behind the bracket that has been passed. -/
theorem skipLabel_label
    (label : Label) (s : List Char) :
    Container.skipLabel .object
        (label.before.text ++ '"' :: (contentText label.key ++ '"' ::
          (label.after.text ++ ':' :: s))) =
      .ok s := by
  simp only [Container.skipLabel, skipBlanks_gap_cons label.before (c := '"') rfl,
    skipString_contentText, ok_bind, colon_gap]
  rfl

theorem skipBetween_close
    (c : Container) (gap : Blanks) (rest : List Char) :
    skipBetween (c :: outer) (gap.text ++ c.closing :: rest) = skipBetween outer rest := by
  have hblank : isBlank c.closing = false := by cases c <;> rfl
  have hcomma : c.closing ≠ ',' := by cases c <;> decide
  rw [skipBetween, skipBlanks_gap_cons gap hblank]
  simp [hcomma]

theorem skipBehind_close
    (bound : Nat) (c : Container) (gap : Blanks) (rest : List Char) :
    skipBehind bound (c :: outer) (gap.text ++ c.closing :: rest) =
      skipBehind bound outer rest := by
  rw [skipBehind, skipBehind, skipBetween_close outer]

/-- Behind a value the next one in the same container is passed over. -/
theorem skipBehind_comma
    (bound : Nat) (c : Container) (gap : Blanks) {s next : List Char}
    (h : c.skipLabel s = .ok next) :
    skipBehind bound (c :: outer) (gap.text ++ ',' :: s) = skipFrom bound (c :: outer) next := by
  have hblank : isBlank ',' = false := rfl
  simp only [skipBehind, skipBetween, skipBlanks_gap_cons gap hblank, if_true, h, ok_bind]
  rfl

/-- The items behind those that have been passed over, and the end of their list. -/
theorem exists_skipBehind_items
    {items : List (Gaps × Spelling)} (h : ∀ x ∈ items, x.2.Passed) (inner : Blanks) :
    ∃ steps ≤ (itemsText inner false items).length, ∀ bound outer gap rest,
      skipBehind (steps + bound) (.list :: outer)
          (Blanks.text gap ++ (itemsText inner false items ++ rest)) =
        skipBehind bound outer rest := by
  induction items with
  | nil =>
      refine ⟨0, Nat.zero_le _, fun bound outer gap rest => ?_⟩
      have hclose := skipBehind_close outer bound .list (gap.append inner) rest
      simpa [itemsText, Blanks.append, Container.closing] using hclose
  | cons x items ih =>
      obtain ⟨gaps, v⟩ := x
      obtain ⟨steps, hsteps, hv⟩ : v.Passed := h _ List.mem_cons_self
      obtain ⟨steps', hsteps', hitems⟩ := ih fun x hx => h x (List.mem_cons_of_mem _ hx)
      refine ⟨steps + steps', ?_, fun bound outer gap rest => ?_⟩
      · simp only [itemsText, List.length_append]
        omega
      · have hnext := endsNumber_gap gaps.after (endsNumber_itemsText inner items rest)
        simp only [itemsText, separator, Bool.false_eq_true, if_false, List.cons_append,
          List.nil_append, List.append_assoc]
        rw [skipBehind_comma _ _ .list gap rfl, Nat.add_assoc, hv _ _ _ _ hnext, hitems]

/-- The members behind those that have been passed over, and the end of their
object. -/
theorem exists_skipBehind_members
    {members : List (Label × Gaps × Spelling)} (h : ∀ m ∈ members, m.2.2.Passed)
    (inner : Blanks) :
    ∃ steps ≤ (membersText inner false members).length, ∀ bound outer gap rest,
      skipBehind (steps + bound) (.object :: outer)
          (Blanks.text gap ++ (membersText inner false members ++ rest)) =
        skipBehind bound outer rest := by
  induction members with
  | nil =>
      refine ⟨0, Nat.zero_le _, fun bound outer gap rest => ?_⟩
      have hclose := skipBehind_close outer bound .object (gap.append inner) rest
      simpa [membersText, Blanks.append, Container.closing] using hclose
  | cons m members ih =>
      obtain ⟨label, gaps, v⟩ := m
      obtain ⟨steps, hsteps, hv⟩ : v.Passed := h _ List.mem_cons_self
      obtain ⟨steps', hsteps', hmembers⟩ := ih fun m hm => h m (List.mem_cons_of_mem _ hm)
      refine ⟨steps + steps', ?_, fun bound outer gap rest => ?_⟩
      · simp only [membersText, List.length_append, List.length_cons]
        omega
      · have hnext := endsNumber_gap gaps.after (endsNumber_membersText inner members rest)
        simp only [membersText, separator, Bool.false_eq_true, if_false, List.cons_append,
          List.nil_append, List.append_assoc]
        rw [skipBehind_comma _ _ .object gap (skipLabel_label label _), Nat.add_assoc,
          hv _ _ _ _ hnext, hmembers]

theorem passed_of_isScalar
    {v : Spelling} (hv : v.isScalar) :
    v.Passed := by
  obtain ⟨c, s, htext, -⟩ := v.exists_head
  refine ⟨1, by simp [htext], fun bound outer gap rest hrest => ?_⟩
  rw [Nat.add_comm]
  exact skipFrom_scalar hv bound outer gap hrest

/-- A container that is empty is passed over in one step. -/
theorem skipFrom_empty
    (bound : Nat) (c : Container) (gap inner : Blanks) (opening : Char)
    (hopening : Container.opening? opening = some c) (hblank : isBlank opening = false)
    (rest : List Char) :
    skipFrom (bound + 1) outer
        (gap.text ++ opening :: (inner.text ++ c.closing :: rest)) =
      skipBehind bound outer rest := by
  have hclosing : isBlank c.closing = false := by cases c <;> rfl
  simp only [skipFrom, skipStep, skipBlanks_gap_cons gap hblank, List.head?_cons, Option.bind_some,
    hopening, List.tail_cons, skipBlanks_gap_cons inner hclosing, if_true]
  rfl

/-- The bracket of a container is passed over, with the label of the first value. -/
theorem skipFrom_opening
    (bound : Nat) (c : Container) (gap before : Blanks) (opening : Char) {d : Char}
    (hopening : Container.opening? opening = some c) (hblank : isBlank opening = false)
    (hd : isBlank d = false) (hclosing : d ≠ c.closing) {s next : List Char}
    (hlabel : c.skipLabel (d :: s) = .ok next) :
    skipFrom (bound + 1) outer (gap.text ++ opening :: (before.text ++ d :: s)) =
      skipFrom bound (c :: outer) next := by
  simp only [skipFrom, skipStep, skipBlanks_gap_cons gap hblank, List.head?_cons, Option.bind_some,
    hopening, List.tail_cons, skipBlanks_gap_cons before hd, if_neg hclosing, hlabel, ok_bind]
  rfl

theorem skipFrom_list
    (bound : Nat) (gap before : Blanks) (v : Spelling) (s : List Char) :
    skipFrom (bound + 1) outer (gap.text ++ '[' :: (before.text ++ (v.text ++ s))) =
      skipFrom bound (.list :: outer) (v.text ++ s) := by
  obtain ⟨c, t, htext, hhead⟩ := v.exists_head
  rw [htext, List.cons_append]
  exact skipFrom_opening outer bound .list gap before '[' rfl rfl hhead.blank hhead.close rfl

theorem skipFrom_object
    (bound : Nat) (gap : Blanks) (label : Label) (s : List Char) :
    skipFrom (bound + 1) outer
        (gap.text ++ '\x7b' :: (label.before.text ++ '"' :: (contentText label.key ++ '"' ::
          (label.after.text ++ ':' :: s)))) =
      skipFrom bound (.object :: outer) s := by
  refine skipFrom_opening outer bound .object gap label.before '\x7b' rfl rfl rfl (by decide) ?_
  exact skipLabel_label ⟨.empty, label.key, label.after⟩ s

end Containers

/-- Every value is passed over. -/
theorem Spelling.passed
    (v : Spelling) :
    v.Passed := by
  induction v using Spelling.induction with
  | literal l => exact passed_of_isScalar rfl
  | number n => exact passed_of_isScalar rfl
  | string content => exact passed_of_isScalar rfl
  | array items inner ih =>
      cases items with
      | nil =>
          refine ⟨1, by simp [text], fun bound outer gap rest _ => ?_⟩
          have hempty := skipFrom_empty outer bound .list gap inner '[' rfl rfl rest
          rw [Nat.add_comm]
          simpa [text, itemsText, Container.closing] using hempty
      | cons x items =>
          obtain ⟨gaps, v⟩ := x
          obtain ⟨steps, hsteps, hv⟩ : v.Passed := ih _ List.mem_cons_self
          obtain ⟨steps', hsteps', hitems⟩ :=
            exists_skipBehind_items (fun x hx => ih x (List.mem_cons_of_mem _ hx)) inner
          refine ⟨1 + (steps + steps'), ?_, fun bound outer gap rest _ => ?_⟩
          · simp only [text, itemsText, List.length_append, List.length_cons]
            omega
          · have hnext := endsNumber_gap gaps.after (endsNumber_itemsText inner items rest)
            simp only [text, itemsText, separator, if_true, List.cons_append, List.nil_append,
              List.append_assoc]
            have hcount : 1 + (steps + steps') + bound = steps + (steps' + bound) + 1 := by omega
            have hvalue := hv (steps' + bound) (.list :: outer) .empty _ hnext
            rw [hcount, skipFrom_list]
            exact hvalue.trans (hitems bound outer gaps.after rest)
  | object members inner ih =>
      cases members with
      | nil =>
          refine ⟨1, by simp [text], fun bound outer gap rest _ => ?_⟩
          have hempty := skipFrom_empty outer bound .object gap inner '\x7b' rfl rfl rest
          rw [Nat.add_comm]
          simpa [text, membersText, Container.closing] using hempty
      | cons m members =>
          obtain ⟨label, gaps, v⟩ := m
          obtain ⟨steps, hsteps, hv⟩ : v.Passed := ih _ List.mem_cons_self
          obtain ⟨steps', hsteps', hmembers⟩ :=
            exists_skipBehind_members (fun m hm => ih m (List.mem_cons_of_mem _ hm)) inner
          refine ⟨1 + (steps + steps'), ?_, fun bound outer gap rest _ => ?_⟩
          · simp only [text, membersText, List.length_append, List.length_cons]
            omega
          · have hnext := endsNumber_gap gaps.after (endsNumber_membersText inner members rest)
            simp only [text, membersText, separator, if_true, List.cons_append, List.nil_append,
              List.append_assoc]
            have hcount : 1 + (steps + steps') + bound = steps + (steps' + bound) + 1 := by omega
            rw [hcount, skipFrom_object, hv _ _ _ _ hnext, hmembers]

/-- A value is passed over, and nothing behind it. -/
theorem skipValue_text
    (v : Spelling) {bound : Nat} (hbound : v.text.length ≤ bound) (gap : Blanks)
    {rest : List Char} (hrest : EndsNumber rest) :
    skipValue bound (gap.text ++ (v.text ++ rest)) = .ok ((), rest) := by
  obtain ⟨steps, hsteps, hpassed⟩ := v.passed
  obtain ⟨more, rfl⟩ := Nat.exists_eq_add_of_le (hsteps.trans hbound)
  rw [skipValue, hpassed more [] gap rest hrest]
  rfl

end FlagStack
