import RuleScript.Proofs.Library.Alike

/-! Memory that is closed.

A value that calls nothing stands in memory if the array, object or document that it refers to is there, and a memory is
closed if all values in it do. So a memory is closed if it is like itself, each place standing for itself, and what is
known of two memories that are alike is known of one that is closed: every answer of a message or of a library stands in
the memory that it leaves, and a rendering has room for all that it opens.
-/

set_option autoImplicit false

namespace RuleScript

def Value.Stands (memory : Memory) (value : Value) : Prop :=
  value.Alike (fun _ => False) memory.places value

/-- A memory whose values call nothing and refer to what is in it. -/
def Memory.Closed (memory : Memory) : Prop :=
  memory.Alike (fun _ => False) memory.places memory

def Memory.Reaches (memory later : Memory) : Prop :=
  ∀ place, memory.cell? place ≠ none → later.cell? place ≠ none

namespace Memory

variable {memory later last : Memory}

theorem Reaches.refl (memory : Memory) : memory.Reaches memory :=
  fun _ => id

theorem Reaches.trans (first : memory.Reaches later) (second : later.Reaches last) : memory.Reaches last :=
  fun place there => second place (first place there)

theorem Reaches.places (reaches : memory.Reaches later) :
    ∀ place other, memory.places place other → later.places place other :=
  fun place _ pair => ⟨pair.1, reaches place pair.2⟩

theorem Closed.all (closed : memory.Closed) : memory.All (Value.Stands memory) where
  items index value member := by
    by_cases there : memory.cell? (.array index) = none
    · have none : memory.arrays[index]? = .none := by simpa [cell?] using there
      simp [Memory.items, Array.getD_eq_getD_getElem?, none] at member
    · exact List.forall₂_same.mp (closed.items ⟨rfl, there⟩) value (Array.mem_toList_iff.mpr member)
  members index pair member := by
    by_cases there : memory.cell? (.object index) = none
    · have none : memory.objects[index]? = .none := by simpa [cell?] using there
      simp [Memory.members, Array.getD_eq_getD_getElem?, none] at member
    · exact (List.forall₂_same.mp (closed.members ⟨rfl, there⟩) pair member).2

theorem closed_ofDocument (document : Json) : (ofDocument document).Closed :=
  alike_self (.ofDocument document)

end Memory

namespace Value.Stands

variable {memory later : Memory} {value : Value}

theorem mono (stands : value.Stands memory) (reaches : memory.Reaches later) : value.Stands later :=
  Alike.mono reaches.places stands

theorem not_closure (stands : value.Stands memory) (closure : Closure) : value ≠ .closure closure := by
  rintro rfl
  cases stands with
  | closure fit => exact fit

theorem headD {values : List Value} (all : ∀ value ∈ values, value.Stands memory) :
    (values.headD .empty).Stands memory := by
  cases values with
  | nil => exact .empty
  | cons first rest => exact all first List.mem_cons_self

/-- A value that stands in closed memory has one host form, however much more room there is. -/
theorem native_of_room (stands : value.Stands memory) (closed : memory.Closed) {room : Nat}
    (enough : memory.room ≤ room) : nativeWithin memory room [] value = value.native memory :=
  nativeWithin_alike closed room memory.room .nil List.nodup_nil (by simpa using enough) (by simp) stands

end Value.Stands

def Action.Stands (memory : Memory) (act : Action Value) : Prop :=
  ∀ later : Memory, later.Closed → memory.Reaches later →
    (act later).2.Closed ∧ later.Reaches (act later).2 ∧ ∀ value, (act later).1 = .ok value → value.Stands (act later).2

theorem Onward.places {writes : Prop} {memory later : Memory} {wider : Pairing} {fits : Closure → Prop}
    (onward : Onward writes memory.places memory memory wider later later) (alike : later.Alike fits wider later) :
    wider.right = later.places := by
  funext place other
  refine propext (and_congr_right fun _ => ⟨?_, fun there => ?_⟩)
  · rintro ⟨left, pair⟩
    obtain ⟨_, cell, -, holds, -⟩ := alike.cells left place pair
    simp [holds]
  · by_cases new : memory.cell? place = none
    · exact onward.covers place new there
    · exact ⟨place, onward.widens place place ⟨rfl, new⟩⟩

theorem Action.stands_of_alike {memory : Memory} {act : Action Value}
    (alike : ∀ paired, (∀ place other, memory.places place other → paired place other) →
      act.AnswersAlike (fun _ => False) True paired act) : act.Stands memory := by
  intro later closed reaches
  obtain ⟨wider, onward, memories, results⟩ := alike later.places reaches.places later later closed
  have same := onward.places memories
  refine ⟨?_, fun place there none => there (onward.keepsRight place none), fun value answered => ?_⟩
  · have right := memories.right
    rwa [same] at right
  · rw [answered] at results
    cases results with
    | ok alike =>
      have right := alike.right
      rwa [same] at right

theorem forall₂_stands {memory : Memory} {values : List Value} (all : ∀ value ∈ values, value.Stands memory) :
    List.Forall₂ (Value.Alike (fun _ => False) memory.places) values values :=
  List.forall₂_same.mpr all

namespace Action

variable {memory : Memory}

theorem stands_send {receiver : Value} (message : Message) {arguments : List Value} (target : receiver.Stands memory)
    (all : ∀ value ∈ arguments, value.Stands memory) : (receiver.send message arguments).Stands memory :=
  stands_of_alike fun _ widens => Value.send_alike (Value.Alike.mono widens target) message (fun _ => trivial)
    (Value.Alike.mono_list widens (forall₂_stands all))

theorem stands_answer (clock : Clock) (function : String) {arguments : List Value}
    (all : ∀ value ∈ arguments, value.Stands memory) :
    (Library.standard.answer clock function arguments).Stands memory :=
  stands_of_alike fun _ widens => Library.answer_alike clock .standard function
    (Value.Alike.mono_list widens (forall₂_stands all))

theorem stands_newArray {values : List Value} (all : ∀ value ∈ values, value.Stands memory) :
    (newArray values.toArray).Stands memory :=
  stands_of_alike fun _ widens => newArray_alike (Value.Alike.mono_list widens (forall₂_stands all))

theorem stands_newObject (names : List String) {values : List Value} (all : ∀ value ∈ values, value.Stands memory) :
    (newObject (Fields.ofList (names.zip values))).Stands memory :=
  stands_of_alike fun _ widens => newObject_alike
    (.ofList (.zip names (Value.Alike.mono_list widens (forall₂_stands all))))

theorem stands_comparison {left right : Value} (operator : String) (first : left.Stands memory)
    (second : right.Stands memory) :
    Stands memory (do let order ← left.compare right; return .bool (← Action.ofExcept (relate operator order))) :=
  stands_of_alike fun _ widens =>
    comparison_alike (Value.Alike.mono widens first) (Value.Alike.mono widens second) operator

theorem stands_range {first last : Value} (left : first.Stands memory) (right : last.Stands memory) :
    Stands memory (do newArray (← ofExcept (rangeOf first last))) :=
  stands_of_alike fun _ widens => range_alike (Value.Alike.mono widens left) (Value.Alike.mono widens right)

theorem stands_date (result : Except Failure Date) : Stands memory (do return .date (← ofExcept result)) :=
  stands_of_alike fun _ _ => Value.date_alike result

theorem stands_dateTime (result : Except Failure DateTime) :
    Stands memory (do return .dateTime (← ofExcept result)) :=
  stands_of_alike fun _ _ => Value.dateTime_alike result

theorem stands_get {view : View} (name : String) (there : memory.cell? (.document view.document) ≠ none) :
    Stands memory (ExceptT.lift (view.get name)) :=
  stands_of_alike fun _ widens => .lift fun _ _ memories =>
    View.get_alike view.path name (widens _ _ ⟨rfl, there⟩) memories

theorem stands_set {view : View} (name : String) {value : Value} (there : memory.cell? (.document view.document) ≠ none)
    (new : value.Stands memory) : Stands memory (ExceptT.lift (view.set name value)) :=
  stands_of_alike fun _ widens => .lift fun _ _ memories =>
    View.set_alike view.path trivial name (Value.Alike.mono widens new) (widens _ _ ⟨rfl, there⟩) memories

end Action

end RuleScript
