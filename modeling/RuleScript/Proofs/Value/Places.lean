import Mathlib.Data.List.Forall2
import RuleScript.Library.Basic

/-! Memory as cells at places.

Arrays, objects and documents are cells of one memory here. All that a step does to memory is to write one cell, at a
place that is new or was there before.
-/

set_option autoImplicit false

namespace RuleScript

inductive Place where
  | array (index : Nat)
  | object (index : Nat)
  | document (index : Nat)
  deriving DecidableEq

inductive Cell where
  | items (items : Array Value)
  | members (members : Fields Value)
  | node (node : Json)

namespace Memory

def cell? (memory : Memory) : Place → Option Cell
  | .array index => memory.arrays[index]?.map .items
  | .object index => memory.objects[index]?.map .members
  | .document index => memory.documents[index]?.map .node

def Puts (memory : Memory) (place : Place) (cell : Cell) (later : Memory) : Prop :=
  ∀ other, later.cell? other = if other = place then some cell else memory.cell? other

def Grows (memory later : Memory) : Prop :=
  ∀ place cell, memory.cell? place = some cell → later.cell? place = some cell

variable {memory later last : Memory} {place : Place} {cell : Cell} {index : Nat}

theorem Grows.refl (memory : Memory) : memory.Grows memory :=
  fun _ _ => id

theorem Grows.trans (first : memory.Grows later) (second : later.Grows last) : memory.Grows last :=
  fun place cell holds => second place cell (first place cell holds)

theorem Grows.none (grows : memory.Grows later) (absent : later.cell? place = .none) : memory.cell? place = .none := by
  cases holds : memory.cell? place with
  | none => rfl
  | some cell =>
    rw [grows place cell holds] at absent
    cases absent

theorem Puts.grows (puts : memory.Puts place cell later) (new : memory.cell? place = none) :
    memory.Grows later := by
  intro other old holds
  rw [puts, if_neg, holds]
  rintro rfl
  rw [new] at holds
  cases holds

theorem Puts.keeps {other : Place} (puts : memory.Puts place cell later) (none : later.cell? other = .none) :
    memory.cell? other = .none := by
  rw [puts] at none
  split at none
  · cases none
  · exact none

theorem Puts.only {other : Place} (puts : memory.Puts place cell later) (none : memory.cell? other = .none)
    (there : later.cell? other ≠ .none) : other = place := by
  rw [puts] at there
  split at there
  · assumption
  · exact absurd none there

theorem items_of_cell (holds : memory.cell? (.array index) = some cell) : cell = .items (memory.items index) := by
  obtain ⟨items, found, rfl⟩ := Option.map_eq_some_iff.mp holds
  rw [Memory.items, Array.getD_eq_getD_getElem?, found, Option.getD_some]

theorem members_of_cell (holds : memory.cell? (.object index) = some cell) :
    cell = .members (memory.members index) := by
  obtain ⟨members, found, rfl⟩ := Option.map_eq_some_iff.mp holds
  rw [Memory.members, Array.getD_eq_getD_getElem?, found, Option.getD_some]

theorem node_of_cell (holds : memory.cell? (.document index) = some cell) : cell = .node (memory.document index) := by
  obtain ⟨node, found, rfl⟩ := Option.map_eq_some_iff.mp holds
  rw [Memory.document, Array.getD_eq_getD_getElem?, found, Option.getD_some]

theorem array_lt_of_cell (holds : memory.cell? (.array index) = some cell) : index < memory.arrays.size := by
  obtain ⟨_, found, -⟩ := Option.map_eq_some_iff.mp holds
  exact (Array.getElem?_eq_some_iff.mp found).1

theorem object_lt_of_cell (holds : memory.cell? (.object index) = some cell) : index < memory.objects.size := by
  obtain ⟨_, found, -⟩ := Option.map_eq_some_iff.mp holds
  exact (Array.getElem?_eq_some_iff.mp found).1

theorem document_lt_of_cell (holds : memory.cell? (.document index) = some cell) :
    index < memory.documents.size := by
  obtain ⟨_, found, -⟩ := Option.map_eq_some_iff.mp holds
  exact (Array.getElem?_eq_some_iff.mp found).1

theorem cell?_new_array : memory.cell? (.array memory.arrays.size) = none := by
  simp [cell?]

theorem cell?_new_object : memory.cell? (.object memory.objects.size) = none := by
  simp [cell?]

theorem cell?_new_document : memory.cell? (.document memory.documents.size) = none := by
  simp [cell?]

theorem puts_addArray (memory : Memory) (items : Array Value) :
    memory.Puts (.array memory.arrays.size) (.items items) (memory.addArray items).2 := by
  intro other
  cases other with
  | array index => by_cases here : index = memory.arrays.size <;> simp [cell?, addArray, Array.getElem?_push, here]
  | object | document => simp [cell?, addArray]

theorem puts_addObject (memory : Memory) (members : Fields Value) :
    memory.Puts (.object memory.objects.size) (.members members) (memory.addObject members).2 := by
  intro other
  cases other with
  | object index => by_cases here : index = memory.objects.size <;> simp [cell?, addObject, Array.getElem?_push, here]
  | array | document => simp [cell?, addObject]

theorem puts_addDocument (memory : Memory) (node : Json) :
    memory.Puts (.document memory.documents.size) (.node node) (memory.addDocument node).2 := by
  intro other
  cases other with
  | document index =>
    by_cases here : index = memory.documents.size <;> simp [cell?, addDocument, Array.getElem?_push, here]
  | array | object => simp [cell?, addDocument]

theorem puts_arrays (f : Array Value → Array Value) (inside : index < memory.arrays.size) :
    memory.Puts (.array index) (.items (f (memory.items index)))
      { memory with arrays := memory.arrays.modify index f } := by
  intro other
  cases other with
  | array other =>
    by_cases here : other = index
    · subst here
      simp [cell?, Memory.items, Array.getElem_modify, Array.getD_eq_getD_getElem?, inside]
    · simp [cell?, Array.getElem?_modify, here, Ne.symm here]
  | object | document => simp [cell?]

theorem puts_objects (f : Fields Value → Fields Value) (inside : index < memory.objects.size) :
    memory.Puts (.object index) (.members (f (memory.members index)))
      { memory with objects := memory.objects.modify index f } := by
  intro other
  cases other with
  | object other =>
    by_cases here : other = index
    · subst here
      simp [cell?, Memory.members, Array.getElem_modify, Array.getD_eq_getD_getElem?, inside]
    · simp [cell?, Array.getElem?_modify, here, Ne.symm here]
  | array | document => simp [cell?]

theorem puts_documents (node : Json) (inside : index < memory.documents.size) :
    memory.Puts (.document index) (.node node)
      { memory with documents := memory.documents.setIfInBounds index node } := by
  intro other
  cases other with
  | document other =>
    by_cases here : other = index
    · subst here
      simp [cell?, inside]
    · simp [cell?, here, Ne.symm here]
  | array | object => simp [cell?]

end Memory

end RuleScript
