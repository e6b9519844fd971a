import FlagStack.Proofs.Decoding
import FlagStack.Proofs.PrintedValues
import FlagStack.Shape.Writer

/-!
# Shapes read what they write

Reader and writer of a shape are computed from the shape, so that what is written is
read again follows from conditions on the shape alone: a name is found again in its
list, no field answers to the name of a later one, what a shape accepts it accepts
again.

**Results.**
* `Shape.reads_write`: a value that was read is written as a text that is read as this
  value.
* `Shape.decode_encode`: the same for whole texts.
-/

namespace FlagStack

open Json

section Readers

variable {α β σ τ : Type}

theorem reads_readText
    (expected s : String) :
    (Shape.readText expected).Reads (writeString s) s := by
  intro rest _
  obtain ⟨text, htext, hread⟩ := readString_writeString s rest
  rw [htext]
  exact hread

theorem reads_readCount
    (n : UInt32) :
    Shape.readCount.Reads (writeInteger n.toNat) n := by
  intro rest hends
  have hscan := (Numeral.isLocal_scan _ _ _
    (Numeral.scan_writeInteger .endInValue n.toNat)).2 rest hends
  have hlt : n.toNat < 2 ^ 32 := n.toNat_lt
  have hvalue := Numeral.value_writeInteger (n := n.toNat) (by omega) (by omega)
  obtain ⟨c, s, hn, hc⟩ := Numeral.exists_head_writeInteger n.toNat
  have hblank := (head_number hc).1
  rw [hn, List.cons_append] at hscan ⊢
  rw [Shape.readCount, skipBlanks_of_head hblank]
  simp only [List.head?_cons, Option.any_some, decide_eq_true_eq, hc, if_true]
  rw [hscan, ok_bind]
  simp only [hvalue, ok_bind]
  have hrange : (0 : Int) ≤ n.toNat ∧ (n.toNat : Int) < twoPow 32 :=
    ⟨by omega, by exact_mod_cast hlt⟩
  rw [if_pos hrange, Int.toNat_natCast, UInt32.ofNat_toNat, List.nil_append]
  rfl

/-- `null` is read as no value. -/
theorem reads_readOption_none
    (reader : Reader α) :
    (Shape.readOption reader).Reads (Json.compactChars .null) none := by
  intro rest _
  rfl

/-- Where a reader reads a value that is not `null`, so does the option. -/
theorem reads_readOption_some
    {reader : Reader α} {v : Json} {a : α} (hnull : v ≠ .null) (hfloats : v.FloatsReadBack)
    (h : reader.Reads v.compactChars a) :
    (Shape.readOption reader).Reads v.compactChars (some a) := by
  intro rest hends
  obtain ⟨c, s, hc, hblank, -, hletter⟩ := exists_head hfloats
  have hread := h rest hends
  rw [hc, List.cons_append] at hread ⊢
  rw [Shape.readOption, skipBlanks_of_head hblank]
  split
  · next heq =>
      cases heq
      exact absurd (hletter rfl) hnull
  · rw [hread]
    rfl

/-- A container is read by what reads its inside. -/
theorem readContainer_cons
    {bracket : Char} (hblank : isBlank bracket = false) (expected : String) (room : Nat)
    (inside : Nat → Reader α) (s : List Char) :
    Shape.readContainer bracket expected (room + 1) inside (bracket :: s) = inside room s := by
  rw [Shape.readContainer, skipBlanks_of_head hblank]
  simp [nested]

theorem reads_list
    {item : Nat → Reader α} {write : α → Json} {as : List α} {room bound : Nat}
    (hfloats : (Json.array (as.map write)).FloatsReadBack)
    (hbound : (Json.array (as.map write)).compactChars.length ≤ bound)
    (hitem : ∀ a ∈ as, (write a).FloatsReadBack → (write a).compactChars.length ≤ bound →
      (item room).Reads (write a).compactChars a) :
    (Shape.readContainer '[' "a sequence" (room + 1) fun room => items (item room) bound []).Reads
      (Json.array (as.map write)).compactChars as := by
  obtain ⟨hlength, hitems⟩ := length_listInside (as.map write)
  rw [compactChars_array, List.length_cons] at hbound
  rw [List.length_map] at hlength
  have hhead : ∀ a ∈ as, (write a).FloatsReadBack := fun a ha =>
    hfloats.item (List.mem_map_of_mem ha)
  have hread : ∀ a ∈ as, (item room).Reads (write a).compactChars a := fun a ha =>
    hitem a ha (hhead a ha) ((hitems _ (List.mem_map_of_mem ha)).trans (by omega))
  have hcount : as.length < bound := by omega
  intro rest _
  rw [compactChars_array, List.cons_append, readContainer_cons rfl]
  exact items_listInside hhead hread hcount rest

/-- The entries of a table are put one behind the other. -/
theorem takes_readEntry
    {t last : Table String} {entries : List (String × String)}
    (h : last.entries = t.entries ++ entries) :
    Takes Shape.readEntry (entries.map fun e => (e.1, Json.string e.2)) t last := by
  induction entries generalizing t with
  | nil =>
      rw [List.append_nil] at h
      have heq : last = t := by
        cases last
        cases t
        simp_all
      rw [heq]
      exact .nil
  | cons e entries ih =>
      obtain ⟨key, value⟩ := e
      have hincreasing := h ▸ last.increasing
      have hlast : ∀ e ∈ t.entries, e.1 < key := fun e he =>
        (List.pairwise_append.1 hincreasing).2.2 e he _ List.mem_cons_self
      have hput : (t.put key value).entries = t.entries ++ [(key, value)] :=
        insertEntry_of_lt hlast value
      have hbehind : last.entries = (t.put key value).entries ++ entries := by
        rw [hput, h, List.append_assoc]
        rfl
      refine .cons ?_ (ih hbehind)
      intro rest hends
      have hread := reads_readText "a string" value rest hends
      rw [List.cons_append, Shape.readEntry, bind_of_ok (colon_cons _), compactChars,
        bind_of_ok hread]
      rfl

theorem reads_textTable
    {t : Table String} {room bound : Nat}
    (hbound : (Json.ofTextTable t).compactChars.length ≤ bound) :
    (Shape.readContainer '\x7b' "a map" (room + 1) fun _ =>
      members Shape.readEntry bound true Table.empty).Reads (Json.ofTextTable t).compactChars t := by
  have hform : Json.ofTextTable t = .object (t.entries.map fun e => (e.1, Json.string e.2)) := rfl
  have htakes : Takes Shape.readEntry (t.entries.map fun e => (e.1, Json.string e.2))
      Table.empty t :=
    takes_readEntry rfl
  have hlength := (length_objectInside (t.entries.map fun e => (e.1, Json.string e.2))).1
  rw [hform, compactChars_object, List.length_cons] at hbound
  intro rest _
  rw [hform, compactChars_object, List.cons_append, readContainer_cons rfl]
  exact members_objectInside htakes (by omega) rest

section Alternatives

variable {names : List (String × α)} {name : String} {a : α}

theorem pick_of_lookup
    (h : names.lookup name = some a) (s : List Char) :
    (liftM (Shape.pick names name) : Reader α) s = .ok (a, s) := by
  rw [Shape.pick, h]
  rfl

theorem readAlternative_writeString
    (bare tagged : Reader α) (s : String) (rest : List Char) :
    Shape.readAlternative bare tagged (writeString s ++ rest) = bare (writeString s ++ rest) := by
  obtain ⟨text, htext, -⟩ := readString_writeString s rest
  rw [htext]
  rfl

/-- A bare name is read as what it stands for. -/
theorem reads_readChoice
    (h : names.lookup name = some a) (room : Nat) :
    (Shape.readChoice names room).Reads (writeString name) a := by
  intro rest hends
  have hread := reads_readText "a string" name rest hends
  rw [Shape.readChoice, readAlternative_writeString, bind_of_ok hread]
  exact pick_of_lookup h rest

/-- The key of an object with one member tells which alternative it is. -/
theorem alternative_writeString
    (h : names.lookup name = some a) (rest : List Char) :
    Shape.alternative names (writeString name ++ ':' :: rest) = .ok (a, rest) := by
  obtain ⟨text, htext, hread⟩ := readString_writeString name (':' :: rest)
  have hkey : Shape.soleKey (writeString name ++ ':' :: rest) = .ok (name, ':' :: rest) := by
    rw [htext]
    exact hread
  rw [Shape.alternative, bind_of_ok hkey, bind_of_ok (pick_of_lookup h _),
    bind_of_ok (colon_cons rest)]
  rfl

/-- An object with one member is read by what reads key and value. -/
theorem reads_tagged
    {bare : Reader β} {inside : Nat → Reader β} {room : Nat} {v : Json} {b : β}
    (h : ∀ rest,
      inside room (writeString name ++ ':' :: (v.compactChars ++ '\x7d' :: rest)) = .ok (b, rest)) :
    (Shape.readAlternative bare (nested (room + 1) inside)).Reads
      (Json.object [(name, v)]).compactChars b := by
  intro rest _
  have htext : (Json.object [(name, v)]).compactChars ++ rest =
      '\x7b' :: (writeString name ++ ':' :: (v.compactChars ++ '\x7d' :: rest)) := by
    simp [compactChars, compactMembers]
  rw [htext]
  exact h rest

end Alternatives

end Readers

namespace Fields

/-- The slots in which a value of each field stands. -/
def filled : {σ τ : Type} → Fields σ τ → σ → τ
  | _, _, .nil, _ => ()
  | _, _, .cons _ _ rest, (a, values) => (some a, rest.filled values)

/-- The names under which the fields are written. -/
def names : {σ τ : Type} → Fields σ τ → List String
  | _, _, .nil => []
  | _, _, .cons field _ rest => field.name :: rest.names

/-- No field answers to the name of a later one. -/
def apart : {σ τ : Type} → Fields σ τ → Bool
  | _, _, .nil => true
  | _, _, .cons field _ rest => rest.names.all (fun name => !field.answers name) && rest.apart

theorem map_fst_write :
    {σ τ : Type} → (fields : Fields σ τ) → (values : σ) →
      (fields.write values).map Prod.fst = fields.names
  | _, _, .nil, _ => rfl
  | _, _, .cons field shape rest, (a, values) => by
      rw [Fields.write, List.map_cons, map_fst_write rest values, names]

theorem collect_filled :
    {σ τ : Type} → (fields : Fields σ τ) → (values : σ) → (s : List Char) →
      fields.collect (fields.filled values) s = .ok (values, s)
  | _, _, .nil, _, _ => rfl
  | _, _, .cons field shape rest, (a, values), s => by
      have hrest := collect_filled rest values s
      rw [filled, Fields.collect]
      have hfirst : (pure a : Reader _) s = .ok (a, s) := rfl
      exact (bind_of_ok hfirst).trans (bind_of_ok hrest)

/-- Members that a field does not answer to are left to the fields behind it. -/
theorem takes_cons_of_not_answers
    {bound room : Nat} {α σ τ : Type} {field : Field α} {shape : Shape α} {rest : Fields σ τ}
    {members : List (String × Json)} {slots last : τ}
    (h : Takes (rest.readMember bound room) members slots last)
    (hother : ∀ m ∈ members, field.answers m.1 = false) (slot : Option α) :
    Takes ((Fields.cons field shape rest).readMember bound room) members (slot, slots)
      (slot, last) := by
  induction h with
  | nil => exact .nil
  | @cons key v members slots next last head tail ih =>
      refine .cons ?_ (ih fun m hm => hother m (List.mem_cons_of_mem _ hm))
      intro s hends
      have hread := head s hends
      have hkey := hother (key, v) List.mem_cons_self
      rw [Fields.readMember, if_neg (by simp [hkey]), bind_of_ok hread]
      rfl

end Fields

section Conditions

mutual

/-- The number of containers that a shape may put inside of each other, those of
arbitrary values apart. -/
def Shape.depth : {α : Type} → Shape α → Nat
  | _, .text .. => 0
  | _, .count => 0
  | _, .anything => 0
  | _, .choice .. => 0
  | _, .option shape => shape.depth
  | _, .list shape => shape.depth + 1
  | _, .textTable => 1
  | _, .either _ leftShape _ rightShape => max leftShape.depth rightShape.depth + 1
  | _, .record _ fields _ _ => fields.depth + 1
  | _, .checked shape _ _ => shape.depth
  | _, .named _ _ shape => shape.depth

def Fields.depth : {σ τ : Type} → Fields σ τ → Nat
  | _, _, .nil => 0
  | _, _, .cons _ shape rest => max shape.depth rest.depth

end

mutual

/-- The conditions under which a shape reads what it writes. -/
def Shape.Faithful : {α : Type} → Shape α → Prop
  | _, .text _ _ accept write =>
      ∀ s a, accept s = .ok a → ∃ w, write a = .string w ∧ accept w = .ok a
  | _, .count => True
  | _, .anything => True
  | _, .choice names nameOf => ∀ name a, (name, a) ∈ names → names.lookup (nameOf a) = some a
  | _, .option shape => shape.Faithful ∧ ∀ a, shape.write a ≠ .null
  | _, .list shape => shape.Faithful
  | _, .textTable => True
  | _, .either left leftShape right rightShape =>
      left.name ≠ right.name ∧ leftShape.Faithful ∧ rightShape.Faithful
  | _, .record _ fields build parts =>
      fields.Faithful ∧ fields.apart ∧ ∀ values, parts (build values) = values
  | _, .checked shape accept forget =>
      shape.Faithful ∧ ∀ room a b, shape.Yields room a → accept a = .ok b →
        shape.Yields room (forget b) ∧ accept (forget b) = .ok b
  | _, .named _ _ shape => shape.Faithful

/-- The same for the fields of a record: what stands for an absent field can also be
given. -/
def Fields.Faithful : {σ τ : Type} → Fields σ τ → Prop
  | _, _, .nil => True
  | _, _, .cons field shape rest =>
      shape.Faithful ∧ (∀ room a, field.absence.Allows a → shape.Yields room a) ∧ rest.Faithful

end

end Conditions

section Reading

mutual

/-- A value that was read is written as a text that is read as this value. -/
theorem Shape.reads_write
    (bound : Nat) :
    {α : Type} → (shape : Shape α) → shape.Faithful → (room : Nat) → shape.depth ≤ room →
      (a : α) → shape.Yields room a → (shape.write a).FloatsReadBack →
      (shape.write a).compactChars.length ≤ bound →
      (shape.read bound room).Reads (shape.write a).compactChars a
  | _, .text expected _ accept write, h, room, _, a, hyields, _, _ => by
      obtain ⟨s, hs⟩ := hyields
      obtain ⟨w, hw, haccept⟩ := h s a hs
      intro rest hends
      have hread := reads_readText expected w rest hends
      rw [Shape.write, hw, Json.compactChars, Shape.read, bind_of_ok hread, haccept]
      rfl
  | _, .count, _, room, _, n, _, _, _ => by
      rw [Shape.read]
      exact reads_readCount n
  | _, .anything, _, room, _, v, hyields, hfloats, hbound => by
      rw [Shape.read]
      exact reads_readValue hyields hfloats hbound
  | _, .choice names nameOf, h, room, _, a, hyields, _, _ => by
      obtain ⟨name, hname⟩ := hyields
      rw [Shape.read]
      exact reads_readChoice (h name a hname) room
  | _, .option shape, h, room, hroom, o, hyields, hfloats, hbound => by
      obtain ⟨hshape, hnull⟩ := h
      rw [Shape.read]
      cases o with
      | none => exact reads_readOption_none _
      | some a =>
          rw [Shape.write] at hfloats hbound ⊢
          exact reads_readOption_some (hnull a) hfloats
            (shape.reads_write bound hshape room hroom a (hyields a rfl) hfloats hbound)
  | _, .list shape, h, room, hroom, as, hyields, hfloats, hbound => by
      rw [Shape.depth] at hroom
      obtain ⟨room, rfl⟩ := Nat.exists_eq_add_one_of_ne_zero (Nat.ne_zero_of_lt hroom)
      rw [Shape.write] at hfloats hbound ⊢
      rw [Shape.read]
      refine reads_list hfloats hbound fun a ha hfloats hbound => ?_
      exact shape.reads_write bound h room (Nat.le_of_succ_le_succ hroom) a (hyields a ha) hfloats
        hbound
  | _, .textTable, _, room, hroom, t, _, _, hbound => by
      rw [Shape.depth] at hroom
      obtain ⟨room, rfl⟩ := Nat.exists_eq_add_one_of_ne_zero (Nat.ne_zero_of_lt hroom)
      rw [Shape.read]
      exact reads_textTable hbound
  | _, .either left leftShape right rightShape, h, room, hroom, c, hyields, hfloats, hbound => by
      obtain ⟨hnames, hleft, hright⟩ := h
      rw [Shape.depth] at hroom
      obtain ⟨room, rfl⟩ := Nat.exists_eq_add_one_of_ne_zero (Nat.ne_zero_of_lt hroom)
      have hroom := Nat.max_le.1 (Nat.le_of_succ_le_succ hroom)
      rw [Shape.read]
      cases c with
      | inl a =>
          rw [Shape.write] at hfloats hbound ⊢
          have hlookup : [(left.name, true), (right.name, false)].lookup left.name = some true := by
            simp
          rw [compactChars_object, List.length_cons] at hbound
          have hlength : (leftShape.write a).compactChars.length ≤ bound :=
            ((length_objectInside [(left.name, leftShape.write a)]).2 _ List.mem_cons_self).trans
              (by omega)
          refine reads_tagged fun rest => ?_
          have hread := leftShape.reads_write bound hleft room hroom.1 a (hyields.1 a rfl)
            (hfloats.member List.mem_cons_self) hlength ('\x7d' :: rest)
            (endsNumber_of_delimiter (by simp) rest)
          rw [bind_of_ok (alternative_writeString hlookup _), if_pos rfl,
            bind_of_ok (map_of_ok hread)]
          rfl
      | inr b =>
          rw [Shape.write] at hfloats hbound ⊢
          have hlookup :
              [(left.name, true), (right.name, false)].lookup right.name = some false := by
            simp [List.lookup_cons, beq_eq_false_iff_ne.2 hnames.symm]
          rw [compactChars_object, List.length_cons] at hbound
          have hlength : (rightShape.write b).compactChars.length ≤ bound :=
            ((length_objectInside [(right.name, rightShape.write b)]).2 _ List.mem_cons_self).trans
              (by omega)
          refine reads_tagged fun rest => ?_
          have hread := rightShape.reads_write bound hright room hroom.2 b (hyields.2 b rfl)
            (hfloats.member List.mem_cons_self) hlength ('\x7d' :: rest)
            (endsNumber_of_delimiter (by simp) rest)
          rw [bind_of_ok (alternative_writeString hlookup _), if_neg Bool.false_ne_true,
            bind_of_ok (map_of_ok hread)]
          rfl
  | _, .record name fields build parts, h, room, hroom, a, hyields, hfloats, hbound => by
      obtain ⟨hfields, hapart, hparts⟩ := h
      obtain ⟨values, hvalues, rfl⟩ := hyields
      rw [Shape.depth] at hroom
      obtain ⟨room, rfl⟩ := Nat.exists_eq_add_one_of_ne_zero (Nat.ne_zero_of_lt hroom)
      rw [Shape.write, hparts] at hfloats hbound ⊢
      obtain ⟨hlength, hmembers⟩ := length_objectInside (fields.write values)
      rw [compactChars_object, List.length_cons] at hbound
      -- Members are taken into slots by name; only then are the slots collected in order.
      have htakes := fields.takes_write bound hfields hapart room (Nat.le_of_succ_le_succ hroom)
        values hvalues fun m hm => ⟨hfloats.member hm, (hmembers m hm).trans (by omega)⟩
      have hcount : (fields.write values).length < bound := by omega
      intro rest _
      have hread := members_objectInside htakes hcount rest
      have hcollect := fields.collect_filled values rest
      have hinside : (do
          let slots ← members (fields.readMember bound room) bound true fields.unfilled
          return build (← fields.collect slots) : Reader _)
            (objectInside (fields.write values) ++ rest) = .ok (build values, rest) := by
        rw [bind_of_ok hread, bind_of_ok hcollect]
        rfl
      rw [compactChars_object, List.cons_append, Shape.read]
      exact hinside
  | _, .checked shape accept forget, h, room, hroom, b, hyields, hfloats, hbound => by
      obtain ⟨hshape, hagain⟩ := h
      obtain ⟨a, ha, haccept⟩ := hyields
      obtain ⟨hforget, haccept'⟩ := hagain room a b ha haccept
      rw [Shape.write] at hfloats hbound ⊢
      intro rest hends
      have hread := shape.reads_write bound hshape room hroom (forget b) hforget hfloats hbound
        rest hends
      rw [Shape.read, bind_of_ok hread, haccept']
      rfl
  | _, .named _ _ shape, h, room, hroom, a, hyields, hfloats, hbound => by
      rw [Shape.write] at hfloats hbound ⊢
      rw [Shape.read]
      exact shape.reads_write bound h room hroom a hyields hfloats hbound

/-- The members of a record that has been written fill the slots of its fields. -/
theorem Fields.takes_write
    (bound : Nat) :
    {σ τ : Type} → (fields : Fields σ τ) → fields.Faithful → fields.apart → (room : Nat) →
      fields.depth ≤ room → (values : σ) → fields.Yields room values →
      (∀ m ∈ fields.write values, m.2.FloatsReadBack ∧ m.2.compactChars.length ≤ bound) →
      Takes (fields.readMember bound room) (fields.write values) fields.unfilled
        (fields.filled values)
  | _, _, .nil, _, _, room, _, _, _, _ => .nil
  | _, _, .cons field shape rest, h, hapart, room, hroom, (a, values), hyields, hmembers => by
      obtain ⟨hshape, habsent, hrest⟩ := h
      obtain ⟨hnames, hapart⟩ := Bool.and_eq_true_iff.1 hapart
      obtain ⟨ha, hvalues⟩ := hyields
      -- What stood for an absent field is written like any other value.
      have ha : shape.Yields room a := ha.elim id (habsent room a)
      rw [Fields.depth] at hroom
      obtain ⟨hroomShape, hroomRest⟩ := Nat.max_le.1 hroom
      rw [Fields.write] at hmembers ⊢
      obtain ⟨hfloats, hbound⟩ := hmembers _ List.mem_cons_self
      have htail := rest.takes_write bound hrest hapart room hroomRest values hvalues fun m hm =>
        hmembers m (List.mem_cons_of_mem _ hm)
      have hother : ∀ m ∈ rest.write values, field.answers m.1 = false := by
        intro m hm
        have hname : m.1 ∈ rest.names :=
          rest.map_fst_write values ▸ List.mem_map_of_mem hm
        simpa using List.all_eq_true.1 hnames m.1 hname
      refine .cons ?_ (Fields.takes_cons_of_not_answers htail hother (some a))
      intro s hends
      have hread := shape.reads_write bound hshape room hroomShape a ha hfloats hbound s hends
      have hname : field.answers field.name := by simp [Field.answers]
      rw [List.cons_append, Fields.unfilled, Fields.readMember, if_pos hname]
      exact (bind_of_ok (colon_cons _)).trans (bind_of_ok hread)

end

/-- What is decoded of a text, however it is spelled there, is decoded again of the text
that is written of it. -/
theorem Shape.decode_encode
    {α : Type} {shape : Shape α} (h : shape.Faithful) (hdepth : shape.depth ≤ greatestDepth)
    {text : String} {a : α} (hread : shape.decode text = .ok a)
    (hfloats : (shape.write a).FloatsReadBack) :
    shape.decode (shape.encode a) = .ok a := by
  have hreads := shape.reads_write ((shape.write a).compactChars.length + 1) h greatestDepth
    hdepth a (Shape.yields_of_decode hread) hfloats (Nat.le_succ _) [] nofun
  rw [List.append_nil] at hreads
  rw [Shape.decode, readAll, Shape.encode, Json.compact, String.toList_ofList, hreads]
  rfl

end Reading

end FlagStack
