import RuleScript.Proofs.Document.Copying
import RuleScript.Proofs.Decimal.Literal
import RuleScript.Proofs.Value.Sending

/-! Asking the value and asking the view.

A script may read a node and ask the value that it gets, or it may ask the view of the node. The value is a copy in new
arrays, the view looks into the document, and both say the same.
-/

set_option autoImplicit false

namespace RuleScript

/-- A name leads to a step from a node to one below it: to a member of that name, or to the item of an array at a
position that the name writes. -/
inductive Json.Leads (name : String) : Json → Step → Json → Prop where
  | member {members : List (String × Json)} {below : Json} (holds : Fields.get? members name = some below) :
    Leads name (.object members) (.key name) below
  | item {items : List Json} {position : Nat} {below : Json} (writes : Decimal.WritesIndex name.toList position)
      (there : items[position]? = some below) : Leads name (.array items) (.index position) below

variable {view : View} {name : String} {node below : Json} {step : Step} {value : Value} {memory : Memory}

theorem Json.Leads.child? (leads : node.Leads name step below) : node.child? step = some below := by
  cases leads with
  | member holds => exact holds
  | item _ there => exact there

theorem View.stepTo?_eq_some_iff : stepTo? name node = some step ↔ ∃ below, node.Leads name step below := by
  constructor
  · intro means
    cases node with
    | object members =>
      rw [stepTo?, Fields.contains_eq_isSome] at means
      split at means
      · next held =>
        obtain ⟨below, holds⟩ := Option.isSome_iff_exists.mp held
        cases means
        exact ⟨below, .member holds⟩
      · cases means
    | array items =>
      rw [stepTo?] at means
      split at means
      · next position writes =>
        split at means
        · next inside =>
          cases means
          exact ⟨items[position], .item (Decimal.readIndex?_eq_some_iff.mp writes) (List.getElem?_eq_getElem inside)⟩
        · cases means
      · cases means
    | _ => cases means
  · rintro ⟨below, leads⟩
    cases leads with
    | member holds => simp [stepTo?, Fields.contains_eq_isSome, holds]
    | item writes there =>
      obtain ⟨inside, -⟩ := List.getElem?_eq_some_iff.mp there
      simp [stepTo?, Decimal.readIndex?_eq_some_iff.mpr writes, inside]

namespace View

def settled (view : View) (memory : Memory) : Json :=
  ((view.node? memory).map Json.settled).getD .null

/-- A value tells what the view does: its host form is what the node comes back as, it says whether it is empty as the
view says it, and the documents are as they were. -/
structure Tells (view : View) (memory : Memory) (read : Value × Memory) : Prop where
  keeps : memory.Extends read.2
  native : read.1.native read.2 = view.settled memory
  isEmpty : ∀ arguments, read.1.send .isEmpty arguments read.2 = (.ok (.bool (view.isEmpty memory)), read.2)

theorem isEmpty_extends (view : View) {later : Memory} (more : memory.Extends later) :
    view.isEmpty later = view.isEmpty memory := by
  rw [isEmpty, view.node?_extends more, isEmpty]

theorem isEmpty_of_copies {made : Nat → Prop} (copies : Copies memory made view node value)
    (found : view.node? memory = some node) (arguments : List Value) :
    value.send .isEmpty arguments memory = (.ok (.bool (view.isEmpty memory)), memory) := by
  cases copies with
  | object => rfl
  | @array _ items _ values _ holds size =>
    have copied := Cell.items.inj (Memory.items_of_cell holds)
    change (Except.ok (Value.bool (memory.items _).isEmpty), memory) = _
    have same : values.isEmpty = items.isEmpty := by
      rw [Bool.eq_iff_iff, List.isEmpty_iff_length_eq_zero, List.isEmpty_iff_length_eq_zero, size]
    rw [isEmpty, found, ← copied, List.isEmpty_toArray, same]
  | text _ filled =>
    rw [isEmpty, found]
    rfl
  | _ =>
    rw [isEmpty, found]
    rfl

theorem tells_project (view : View) (memory : Memory) : view.Tells memory (view.project memory) := by
  cases found : view.node? memory with
  | none =>
    rw [project_apply, found]
    exact ⟨⟨.refl memory, rfl⟩, by simp [settled, found], fun _ => by rw [isEmpty, found]; rfl⟩
  | some node =>
    have copies := project_copies found
    rw [project_apply, found] at copies ⊢
    obtain ⟨keeps, unfolds⟩ := Json.project_unfolds view node memory found
    refine ⟨keeps, ?_, fun arguments => ?_⟩
    -- The reading only makes new arrays, and the view finds the node that it found before.
    · rw [Value.native_of_unfolds unfolds, settled, found]
      rfl
    · rw [isEmpty_of_copies copies ((view.node?_extends keeps).trans found), view.isEmpty_extends keeps]

theorem get_of_leads (found : view.node? memory = some node) (leads : node.Leads name step below) :
    (view.child step).node? memory = some below ∧ view.get name memory = (view.child step).project memory := by
  refine ⟨(node?_child found step).trans leads.child?, ?_⟩
  rw [get_apply, found, Option.bind_some, stepTo?_eq_some_iff.mpr ⟨below, leads⟩]

theorem get_of_nowhere (nowhere : ∀ node step below, view.node? memory = some node → ¬ node.Leads name step below) :
    view.get name memory = (.empty, memory) := by
  have none : (view.node? memory).bind (stepTo? name) = none :=
    Option.bind_eq_none_iff.mpr fun node found => Option.eq_none_iff_forall_ne_some.mpr fun step means => by
      obtain ⟨below, leads⟩ := stepTo?_eq_some_iff.mp means
      exact nowhere node step below found leads
  rw [get_apply, none]

/-- A node is read as a value whose host form is the node with missing data as `null`, its numbers in cents and its
objects as they are, and that is empty when the view is; a name is read in the same way from the node that it leads to,
and is missing data where it leads nowhere: at an object without it, and at an array in which it is no position. -/
theorem projections_tell (view : View) (memory : Memory) :
    view.Tells memory (view.project memory) ∧
    ∀ name,
      (∀ node step below, view.node? memory = some node → node.Leads name step below →
        (view.child step).node? memory = some below ∧ (view.child step).Tells memory (view.get name memory)) ∧
      ((∀ node step below, view.node? memory = some node → ¬ node.Leads name step below) →
        view.get name memory = (.empty, memory)) ∧
      (∀ members, view.node? memory = some (.object members) → Fields.get? members name = none →
        view.get name memory = (.empty, memory)) ∧
      ∀ items, view.node? memory = some (.array items) →
        (∀ position, Decimal.WritesIndex name.toList position → items.length ≤ position) →
        view.get name memory = (.empty, memory) := by
  refine ⟨view.tells_project memory, fun name => ⟨fun node step below found leads => ?_, get_of_nowhere,
    fun members found missing => get_of_nowhere fun node step below there leads => ?_,
    fun items found outside => get_of_nowhere fun node step below there leads => ?_⟩⟩
  · obtain ⟨reached, reads⟩ := get_of_leads found leads
    exact ⟨reached, reads ▸ (view.child step).tells_project memory⟩
  · cases found.symm.trans there
    cases leads with
    | member holds => cases missing.symm.trans holds
  · cases found.symm.trans there
    cases leads with
    | item writes there =>
      -- A position that leads somewhere is one of an item.
      obtain ⟨inside, -⟩ := List.getElem?_eq_some_iff.mp there
      exact absurd inside (Nat.not_lt.mpr (outside _ writes))

/-- A list is copied with the list in it and with an object that stays as it is; what is past its end is missing. -/
theorem projections_tell_nested :
    let view : View := ⟨0, [.key "list"]⟩
    let list : Json := .array [.string "", .array [.null, .string "x"], .object [("k", .string "")]]
    let memory : Memory := .ofDocument (.object [("list", list)])
    (view.project memory).1.native (view.project memory).2 =
      .array [.null, .array [.null, .string "x"], .object [("k", .string "")]] ∧
    (view.child (.index 1)).Tells memory (view.get "1" memory) ∧
    view.get "3" memory = (.empty, memory) := by
  intro view list memory
  obtain ⟨tells, names⟩ := projections_tell view memory
  have found : view.node? memory = some list := rfl
  refine ⟨tells.native.trans rfl, ?_, (names "3").2.2.2 _ found fun position writes => ?_⟩
  · have second : Decimal.WritesIndex "1".toList 1 := Decimal.readIndex?_eq_some_iff.mp (by decide)
    exact ((names "1").1 _ _ _ found (.item second rfl)).2
  · have third : Decimal.readIndex? "3" = some 3 := by decide
    cases third.symm.trans (Decimal.readIndex?_eq_some_iff.mpr writes)
    exact le_rfl

end View

end RuleScript
