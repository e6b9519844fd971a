import FlagStack.Proofs.SessionHandles

/-!
# The order of steps

A step that registers looks at one key of one table and leaves all else as it is, so
that steps with different keys commute.  In a run in which every step registers and
succeeds all keys differ; such a run can be put in any order.

**Results.**
* `on_eq_of_registration`: what a step that registers does on any stack.
* `commute_of_place_ne`: steps that register at different places commute.
* `succeeding_of_perm`, `stack_run_of_perm`: a run in which every step registers and
  succeeds, put in another order.
-/

namespace FlagStack

/-- Where a step registers: under a key of one of the two tables. -/
inductive Place where
  | resource (key : String)
  | output (key : String)
deriving DecidableEq

/-- What a step registers, under the letters and digits of its id. -/
inductive Registration where
  | resource (key : String) (r : Resource)
  | output (key : String) (o : Output)

namespace Registration

def place : Registration → Place
  | .resource key _ => .resource key
  | .output key _ => .output key

def key : Registration → String
  | .resource key _ => key
  | .output key _ => key

/-- Something stands at the place. -/
def isTaken (g : Registration) (stack : Stack) : Bool :=
  match g with
  | .resource key _ => stack.resources.contains key
  | .output key _ => stack.outputs.contains key

def addTo (g : Registration) (stack : Stack) : Stack :=
  match g with
  | .resource key r => { stack with resources := stack.resources.put key r }
  | .output key o => { stack with outputs := stack.outputs.put key o }

section Places

variable {g g' : Registration}

theorem isTaken_addTo_of_ne
    (h : g.place ≠ g'.place) (stack : Stack) :
    g.isTaken (g'.addTo stack) = g.isTaken stack := by
  cases g with
  | resource key r =>
      cases g' with
      | resource key' r' =>
          have hkey : key ≠ key' := fun heq => h (congrArg Place.resource heq)
          simp only [isTaken, addTo, Table.contains, Table.get?_put_of_ne _ _ hkey]
      | output key' o' => rfl
  | output key o =>
      cases g' with
      | resource key' r' => rfl
      | output key' o' =>
          have hkey : key ≠ key' := fun heq => h (congrArg Place.output heq)
          simp only [isTaken, addTo, Table.contains, Table.get?_put_of_ne _ _ hkey]

theorem isTaken_addTo_of_eq
    (h : g.place = g'.place) (stack : Stack) :
    g.isTaken (g'.addTo stack) := by
  cases g <;> cases g' <;> cases h <;> simp [isTaken, addTo, Table.contains]

theorem addTo_comm
    (h : g.place ≠ g'.place) (stack : Stack) :
    g.addTo (g'.addTo stack) = g'.addTo (g.addTo stack) := by
  cases g with
  | resource key r =>
      cases g' with
      | resource key' r' =>
          have hkey : key' ≠ key := fun heq => h (congrArg Place.resource heq.symm)
          simp only [addTo, Table.put_comm _ r' r hkey]
      | output key' o' => rfl
  | output key o =>
      cases g' with
      | resource key' r' => rfl
      | output key' o' =>
          have hkey : key' ≠ key := fun heq => h (congrArg Place.output heq.symm)
          simp only [addTo, Table.put_comm _ o' o hkey]

end Places
end Registration

namespace Step

/-- What a step registers if it succeeds: nothing, unless it creates or adds an
output. -/
def registration? (s : Step) : Option Registration :=
  match s.creation?, s.output? with
  | some (id, r), _ => some (.resource (keptOf id) r)
  | none, some (id, o) => some (.output (keptOf id) o)
  | none, none => none

def place? (s : Step) : Option Place :=
  s.registration?.map Registration.place

/-- The handle that a creation gives if it succeeds. -/
def handle? (s : Step) : Option AnyHandle :=
  s.creation?.map fun (id, r) => r.handle (keptOf id)

section Registering

variable {s : Step} {g : Registration}

/-- A step that registers is refused on every stack, or else it succeeds just where
its place is free. -/
theorem on_eq_of_registration
    (hs : s.registration? = some g) :
    (∃ e, ∀ stack, s.action.on stack = (.error e, stack)) ∨
      ∀ stack, s.action.on stack =
        if g.isTaken stack then (.error (.duplicateId g.key), stack)
        else (.ok s.handle?, g.addTo stack) := by
  rcases s.sorts with ⟨id, r, hcreation, houtput⟩ | ⟨id, o, houtput, hcreation⟩ |
    ⟨-, hcreation, houtput⟩ | ⟨account, region, rfl⟩
  · rw [registration?, hcreation] at hs
    cases hs
    rw [handle?, hcreation]
    simp only [action_of_creation hcreation, Stack.Action.on_bind, Stack.on_create]
    cases r.check with
    | error e => exact .inl ⟨e, fun _ => rfl⟩
    | ok u =>
        simp only [Stack.on_register]
        by_cases hid : keptOf id = ""
        · simp only [if_pos hid]
          exact .inl ⟨_, fun _ => rfl⟩
        · simp only [if_neg hid]
          refine .inr fun stack => ?_
          by_cases htaken : stack.resources.contains (keptOf id)
          · simp [Registration.isTaken, Registration.key, htaken]
          · simp [Registration.isTaken, Registration.addTo, htaken]
  · rw [registration?, hcreation, houtput] at hs
    cases hs
    obtain ⟨source, description, rfl, rfl⟩ :
        ∃ source description, s = .expose id source description ∧
          o = ⟨source.value, description⟩ := by
      cases s <;> cases houtput
      exact ⟨_, _, rfl, rfl⟩
    simp only [action, Stack.Action.on_bind, Stack.on_expose]
    by_cases hid : keptOf id = ""
    · simp only [if_pos hid]
      exact .inl ⟨_, fun _ => rfl⟩
    · simp only [if_neg hid]
      refine .inr fun stack => ?_
      by_cases htaken : stack.outputs.contains (keptOf id)
      · simp [Registration.isTaken, Registration.key, htaken]
      · simp [Registration.isTaken, Registration.addTo, handle?, creation?, htaken]
  · rw [registration?, hcreation, houtput] at hs
    cases hs
  · cases hs

end Registering
end Step

namespace Session

/-- What comes of a step. -/
def outcome (se : Session) (s : Step) : Except Error (Option AnyHandle) :=
  (s.action.on se.stack).1

/-- Two steps give the same and leave the same stack in either order. -/
structure Commute (se : Session) (x y : Step) : Prop where
  first : (se.next y).outcome x = se.outcome x
  second : (se.next x).outcome y = se.outcome y
  stack : ((se.next x).next y).stack = ((se.next y).next x).stack

/-- Steps that register at different places commute. -/
theorem commute_of_place_ne
    {x y : Step} {p q : Place} (hx : x.place? = some p) (hy : y.place? = some q) (h : p ≠ q)
    (se : Session) :
    se.Commute x y := by
  obtain ⟨g, hg, rfl⟩ := Option.map_eq_some_iff.1 hx
  obtain ⟨g', hg', rfl⟩ := Option.map_eq_some_iff.1 hy
  suffices hcomm :
      (x.action.on (y.action.on se.stack).2).1 = (x.action.on se.stack).1 ∧
      (y.action.on (x.action.on se.stack).2).1 = (y.action.on se.stack).1 ∧
      (y.action.on (x.action.on se.stack).2).2 = (x.action.on (y.action.on se.stack).2).2 by
    obtain ⟨hfirst, hsecond, hstack⟩ := hcomm
    constructor <;> simpa only [outcome, stack_next]
  rcases Step.on_eq_of_registration hg with ⟨e, hon⟩ | hon
  · simp only [hon, and_self]
  · rcases Step.on_eq_of_registration hg' with ⟨e', hon'⟩ | hon'
    · simp only [hon', and_self]
    · have hfree := g.isTaken_addTo_of_ne h se.stack
      have hfree' := g'.isTaken_addTo_of_ne (Ne.symm h) se.stack
      have hcomm := g'.addTo_comm (Ne.symm h) se.stack
      simp only [hon, hon']
      by_cases htaken : g.isTaken se.stack <;> by_cases htaken' : g'.isTaken se.stack <;>
        simp [htaken, htaken', hfree, hfree', hcomm]

section Reordering

variable {se se' : Session} {s : Step} {steps steps' rest : List Step}

theorem run_cons
    (se : Session) (s : Step) (rest : List Step) :
    se.run (s :: rest) = (se.next s).run rest := by
  rfl

/-- What a run does to the stack does not depend on the handles. -/
theorem stack_run_congr
    (h : se.stack = se'.stack) (steps : List Step) :
    (se.run steps).stack = (se'.run steps).stack := by
  induction steps generalizing se se' with
  | nil => exact h
  | cons s rest ih =>
      rw [run_cons, run_cons]
      exact ih (by rw [stack_next, stack_next, h])

theorem succeeding_cons_eq_self_iff :
    se.succeeding (s :: rest) = s :: rest ↔
      (∃ h?, se.outcome s = .ok h?) ∧ (se.next s).succeeding rest = rest := by
  rw [succeeding]
  cases hstep : se.step s with
  | ok result =>
      obtain ⟨h?, se'⟩ := result
      obtain ⟨hok, -⟩ := step_eq_ok_iff.1 hstep
      have houtcome : ∃ h?, se.outcome s = .ok h? := ⟨h?, hok⟩
      simp [houtcome]
  | error e =>
      have herror : se.outcome s = .error e := step_eq_error_iff.1 hstep
      constructor
      · intro hall
        have hshort := (succeeding_sublist (se.next s) rest).length_le
        have hlength : ((se.next s).succeeding rest).length = rest.length + 1 :=
          congrArg List.length hall
        omega
      · rintro ⟨⟨h?, hok⟩, -⟩
        cases herror.symm.trans hok

theorem succeeding_congr
    (h : se.stack = se'.stack) (hall : se.succeeding steps = steps) :
    se'.succeeding steps = steps := by
  induction steps generalizing se se' with
  | nil => rfl
  | cons s rest ih =>
      obtain ⟨⟨h?, hok⟩, hrest⟩ := succeeding_cons_eq_self_iff.1 hall
      refine succeeding_cons_eq_self_iff.2 ⟨⟨h?, ?_⟩, ih ?_ hrest⟩
      · rwa [outcome, ← h]
      · rw [stack_next, stack_next, h]

/-- A step that registers and succeeds finds its place free, and takes it. -/
theorem on_eq_of_ok
    {g : Registration} (hs : s.registration? = some g)
    {h? : Option AnyHandle} (hok : se.outcome s = .ok h?) :
    ¬ g.isTaken se.stack ∧ h? = s.handle? ∧ (se.next s).stack = g.addTo se.stack := by
  rw [outcome] at hok
  rw [stack_next]
  rcases Step.on_eq_of_registration hs with ⟨e, hon⟩ | hon
  · rw [hon] at hok
    cases hok
  · rw [hon] at hok ⊢
    by_cases htaken : g.isTaken se.stack
    · rw [if_pos htaken] at hok
      cases hok
    · rw [if_neg htaken] at hok ⊢
      cases hok
      exact ⟨htaken, rfl, rfl⟩

/-- Of two steps that succeed one after the other the second has another place. -/
theorem place_ne_of_ok
    {x y : Step} {p q : Place} (hx : x.place? = some p) (hy : y.place? = some q)
    {h? h?' : Option AnyHandle} (hok : se.outcome x = .ok h?)
    (hok' : (se.next x).outcome y = .ok h?') :
    p ≠ q := by
  obtain ⟨g, hg, rfl⟩ := Option.map_eq_some_iff.1 hx
  obtain ⟨g', hg', rfl⟩ := Option.map_eq_some_iff.1 hy
  intro heq
  obtain ⟨-, -, hstack⟩ := on_eq_of_ok hg hok
  obtain ⟨hfree, -⟩ := on_eq_of_ok hg' hok'
  rw [hstack] at hfree
  exact hfree (Registration.isTaken_addTo_of_eq heq.symm se.stack)

/-- A run in which every step registers and succeeds does so in any order, and leaves
the same stack. -/
theorem succeeding_of_perm
    (hperm : steps.Perm steps') (hplaces : ∀ s ∈ steps, s.place?.isSome)
    (hall : se.succeeding steps = steps) :
    se.succeeding steps' = steps' ∧ (se.run steps').stack = (se.run steps).stack := by
  induction hperm generalizing se with
  | nil => exact ⟨rfl, rfl⟩
  | cons s _ ih =>
      obtain ⟨hok, hrest⟩ := succeeding_cons_eq_self_iff.1 hall
      obtain ⟨hrest', hstack⟩ := ih (fun s' hs' => hplaces s' (List.mem_cons_of_mem s hs')) hrest
      exact ⟨succeeding_cons_eq_self_iff.2 ⟨hok, hrest'⟩, hstack⟩
  | swap x y l =>
      obtain ⟨p, hx⟩ := Option.isSome_iff_exists.1 (hplaces x (by simp))
      obtain ⟨q, hy⟩ := Option.isSome_iff_exists.1 (hplaces y (by simp))
      obtain ⟨⟨h?, hok⟩, hrest⟩ := succeeding_cons_eq_self_iff.1 hall
      obtain ⟨⟨h?', hok'⟩, hrest⟩ := succeeding_cons_eq_self_iff.1 hrest
      have hcomm := commute_of_place_ne hy hx (place_ne_of_ok hy hx hok hok') se
      constructor
      · refine succeeding_cons_eq_self_iff.2 ⟨⟨h?', ?_⟩, ?_⟩
        · rw [← hcomm.second]
          exact hok'
        · refine succeeding_cons_eq_self_iff.2 ⟨⟨h?, ?_⟩, ?_⟩
          · rw [hcomm.first]
            exact hok
          · exact succeeding_congr hcomm.stack hrest
      · simp only [run_cons]
        exact stack_run_congr hcomm.stack.symm l
  | trans hperm _ ih ih' =>
      obtain ⟨hall', hstack⟩ := ih hplaces hall
      obtain ⟨hall'', hstack'⟩ := ih' (fun s hs => hplaces s (hperm.mem_iff.2 hs)) hall'
      exact ⟨hall'', hstack'.trans hstack⟩

/-- In a run in which every step registers and succeeds the handles do not depend on
the order. -/
theorem obtained_eq_filterMap
    (hplaces : ∀ s ∈ steps, s.place?.isSome) (hall : se.succeeding steps = steps) :
    se.obtained steps = steps.filterMap fun s => s.handle?.map (Prod.mk s) := by
  induction steps generalizing se with
  | nil => rfl
  | cons s rest ih =>
      obtain ⟨⟨h?, hok⟩, hrest⟩ := succeeding_cons_eq_self_iff.1 hall
      obtain ⟨p, hp⟩ := Option.isSome_iff_exists.1 (hplaces s (by simp))
      obtain ⟨g, hg, -⟩ := Option.map_eq_some_iff.1 hp
      obtain ⟨-, rfl, -⟩ := on_eq_of_ok hg hok
      have hlater := ih (fun s' hs' => hplaces s' (List.mem_cons_of_mem s hs')) hrest
      rw [obtained_cons_of_ok (step_eq_ok_iff.2 ⟨hok, rfl⟩), hlater, List.filterMap_cons]
      cases s.handle? <;> rfl

theorem disciplined_of_forall
    (h : ∀ before s after, steps = before ++ s :: after →
      ∀ h ∈ s.uses, h ∈ (se.run before).handles) :
    se.Disciplined steps := by
  induction steps generalizing se with
  | nil => trivial
  | cons s rest ih =>
      refine ⟨h [] s rest rfl, ih ?_⟩
      rintro before s' after rfl
      exact h (s :: before) s' after rfl

theorem succeeding_of_append
    {before after : List Step} (hall : se.succeeding (before ++ after) = before ++ after) :
    se.succeeding before = before := by
  induction before generalizing se with
  | nil => rfl
  | cons s before ih =>
      obtain ⟨hok, hrest⟩ := succeeding_cons_eq_self_iff.1 hall
      exact succeeding_cons_eq_self_iff.2 ⟨hok, ih hrest⟩

/-- Every step comes behind the steps of the run that give the handles that it uses. -/
def KeepsOrder (se : Session) (steps steps' : List Step) : Prop :=
  ∀ before s after, steps' = before ++ s :: after →
    ∀ h ∈ s.uses, h ∈ se.handles ∨ ∃ s' ∈ before, (s', h) ∈ se.obtained steps

theorem KeepsOrder.disciplined
    (horder : se.KeepsOrder steps steps') (hperm : steps.Perm steps')
    (hplaces : ∀ s ∈ steps, s.place?.isSome) (hall : se.succeeding steps = steps)
    (hall' : se.succeeding steps' = steps') :
    se.Disciplined steps' := by
  refine disciplined_of_forall ?_
  rintro before s after rfl h hh
  rw [handles_run, List.mem_append]
  rcases horder before s after rfl h hh with hgiven | ⟨s', hs', hobtained⟩
  · exact .inl hgiven
  · have hplaces' : ∀ s ∈ before, s.place?.isSome := fun s hs =>
      hplaces s (hperm.mem_iff.2 (List.mem_append_left _ hs))
    rw [obtained_eq_filterMap hplaces hall, List.mem_filterMap] at hobtained
    obtain ⟨s'', -, hhandle⟩ := hobtained
    obtain ⟨h', hh', heq⟩ := Option.map_eq_some_iff.1 hhandle
    cases heq
    refine .inr (List.mem_map.2 ⟨(s', h), ?_, rfl⟩)
    rw [obtained_eq_filterMap hplaces' (succeeding_of_append hall'), List.mem_filterMap]
    exact ⟨s', hs', hhandle⟩

/-- Steps that register under different keys or in different tables give the same and
leave the same stack in either order, on success and on failure.  A run in which every
step registers and succeeds can be put in any order that gives handles before they
are used: every step succeeds again with the same handle, and the template is the
same. -/
theorem commute_and_reorder
    (se : Session) :
    (∀ x y p q, x.place? = some p → y.place? = some q → p ≠ q → se.Commute x y) ∧
      ∀ steps steps', (∀ s ∈ steps, s.place?.isSome) → se.succeeding steps = steps →
        steps.Perm steps' → se.KeepsOrder steps steps' →
        se.succeeding steps' = steps' ∧ se.Disciplined steps' ∧
          (se.obtained steps').Perm (se.obtained steps) ∧
          (se.run steps').stack = (se.run steps).stack ∧
          (se.run steps').stack.templateText = (se.run steps).stack.templateText := by
  constructor
  · intro x y p q hx hy hne
    exact commute_of_place_ne hx hy hne se
  · intro steps steps' hplaces hall hperm horder
    obtain ⟨hall', hstack⟩ := succeeding_of_perm hperm hplaces hall
    have hplaces' : ∀ s ∈ steps', s.place?.isSome := fun s hs => hplaces s (hperm.mem_iff.2 hs)
    refine ⟨hall', horder.disciplined hperm hplaces hall hall', ?_, hstack, ?_⟩
    · rw [obtained_eq_filterMap hplaces' hall', obtained_eq_filterMap hplaces hall]
      exact hperm.symm.filterMap _
    · rw [hstack]

/-- A project, a feature of it, and an output under the same letters as the
project. -/
def given : List Step :=
  [.createProject "p" ⟨"p", none, none, Table.empty⟩,
    .createFeature "f" (.handle ⟨"p", .arnOf "p", some "p"⟩)
      ⟨"f", .literal "", [⟨none, .boolean true⟩], [], none, none, none, Table.empty⟩,
    .expose "p-" (.token (.literal "v")) none]

/-- The same with the output first. -/
def regiven : List Step :=
  [.expose "p-" (.token (.literal "v")) none,
    .createProject "p" ⟨"p", none, none, Table.empty⟩,
    .createFeature "f" (.handle ⟨"p", .arnOf "p", some "p"⟩)
      ⟨"f", .literal "", [⟨none, .boolean true⟩], [], none, none, none, Table.empty⟩]

theorem regiven_keepsOrder :
    (empty "s").KeepsOrder given regiven := by
  have hproject : (empty "s").obtained given =
      [(.createProject "p" ⟨"p", none, none, Table.empty⟩,
          .project ⟨"p", .arnOf "p", some "p"⟩),
        (.createFeature "f" (.handle ⟨"p", .arnOf "p", some "p"⟩)
            ⟨"f", .literal "", [⟨none, .boolean true⟩], [], none, none, none, Table.empty⟩,
          .feature ⟨"f", .arnOf "f", some (.arnOf "p"), [⟨none, .boolean true⟩], some "f"⟩)] := by
    decide
  intro before s after heq h hh
  rw [hproject]
  rcases before with _ | ⟨_, _ | ⟨_, _ | ⟨_, before⟩⟩⟩
  · cases heq
    cases hh
  · cases heq
    cases hh
  · cases heq
    cases List.mem_singleton.1 hh
    simp
  · simp [regiven] at heq

theorem given_reordered :
    ((empty "s").Commute
        (.createProject "p" ⟨"p", none, none, Table.empty⟩)
        (.expose "p-" (.token (.literal "v")) none)) ∧
      (empty "s").succeeding regiven = regiven ∧
      ((empty "s").run regiven).stack.templateText =
        ((empty "s").run given).stack.templateText := by
  obtain ⟨hcommute, hreorder⟩ := commute_and_reorder (empty "s")
  obtain ⟨hall, -, -, -, htemplate⟩ :=
    hreorder given regiven (by decide) (by decide) (by decide) regiven_keepsOrder
  exact ⟨hcommute _ _ _ _ rfl rfl (by decide), hall, htemplate⟩

end Reordering

end Session
end FlagStack
