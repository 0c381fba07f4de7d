import Mathlib.Data.List.Nodup
import Mathlib.Data.List.Perm.Subperm
import RuleScript.Proofs.Value.Alike

/-! Host forms and texts of values that are alike.

A rendering opens containers inside of each other, never the same one twice, so it opens no more than there are. Alike
values open containers that stand for each other, and the room of either memory is enough for its own.
-/

set_option autoImplicit false

namespace RuleScript

def Container.place : Container → Place
  | array place => .array place
  | object place => .object place

def Memory.room (memory : Memory) : Nat :=
  memory.arrays.size + memory.objects.size

def Container.number (memory : Memory) : Container → Nat
  | array place => place
  | object place => memory.arrays.size + place

theorem Container.number_lt {memory : Memory} {container : Container} {cell : Cell}
    (holds : memory.cell? container.place = some cell) : container.number memory < memory.room := by
  cases container with
  | array place =>
    have inside := Memory.array_lt_of_cell holds
    simp only [number, Memory.room]
    omega
  | object place =>
    have inside := Memory.object_lt_of_cell holds
    simp only [number, Memory.room]
    omega

theorem Memory.length_le_room {memory : Memory} {opened : List Container} (nodup : opened.Nodup)
    (held : ∀ container ∈ opened, ∃ cell, memory.cell? container.place = some cell) :
    opened.length ≤ memory.room := by
  have numbers : (opened.map (Container.number memory)).Nodup := by
    refine List.Nodup.map_on (fun first inside second other same => ?_) nodup
    obtain ⟨_, here⟩ := held first inside
    obtain ⟨_, there⟩ := held second other
    cases first <;> cases second <;> simp only [Container.number] at same
    · rw [same]
    · have := Memory.array_lt_of_cell here
      omega
    · have := Memory.array_lt_of_cell there
      omega
    · rw [Nat.add_left_cancel same]
  have bounded : opened.map (Container.number memory) ⊆ List.range memory.room := by
    intro number member
    obtain ⟨container, inside, rfl⟩ := List.mem_map.mp member
    obtain ⟨_, holds⟩ := held container inside
    exact List.mem_range.mpr (Container.number_lt holds)
  simpa using (List.subperm_of_subset numbers bounded).length_le

variable {fits : Closure → Prop} {paired : Pairing} {memory other : Memory}

namespace View

variable {document twin : Nat} (path : Path)

theorem node?_alike (alike : memory.Alike fits paired other) (pair : paired (.document document) (.document twin)) :
    node? ⟨document, path⟩ memory = node? ⟨twin, path⟩ other := by
  rw [node?, node?, alike.document pair]

theorem isNull_alike (alike : memory.Alike fits paired other)
    (pair : paired (.document document) (.document twin)) :
    isNull ⟨document, path⟩ memory = isNull ⟨twin, path⟩ other := by
  rw [isNull, isNull, node?_alike path alike pair]

theorem has_alike (alike : memory.Alike fits paired other) (pair : paired (.document document) (.document twin))
    (name : String) : has ⟨document, path⟩ name memory = has ⟨twin, path⟩ name other := by
  rw [has, has, node?_alike path alike pair]

theorem isEmpty_alike (alike : memory.Alike fits paired other)
    (pair : paired (.document document) (.document twin)) :
    isEmpty ⟨document, path⟩ memory = isEmpty ⟨twin, path⟩ other := by
  rw [isEmpty, isEmpty, node?_alike path alike pair]

theorem native_alike (alike : memory.Alike fits paired other)
    (pair : paired (.document document) (.document twin)) :
    native ⟨document, path⟩ memory = native ⟨twin, path⟩ other := by
  rw [native, native, node?_alike path alike pair]

end View

theorem map_eq_of_forall₂ {α β γ : Type} {f : α → γ} {g : β → γ} {first : List α} {second : List β}
    (all : List.Forall₂ (fun a b => f a = g b) first second) : first.map f = second.map g := by
  induction all with
  | nil => rfl
  | cons head _ ih => rw [List.map_cons, List.map_cons, head, ih]

abbrev Opened (paired : Pairing) : List Container → List Container → Prop :=
  List.Forall₂ fun container like => paired container.place like.place

namespace Opened

variable {opened others : List Container}

theorem mem_iff (all : Opened paired opened others) (alike : memory.Alike fits paired other)
    {container like : Container} (pair : paired container.place like.place) :
    container ∈ opened ↔ like ∈ others := by
  have same : ∀ {first second : Container}, first.place = second.place → first = second := by
    intro first second
    cases first <;> cases second <;> simp [Container.place]
  induction all with
  | nil => simp
  | @cons first second _ _ head rest ih =>
    have heads : container = first ↔ like = second :=
      ⟨fun here => same (alike.right_unique _ _ _ (here ▸ pair) head),
        fun here => same (alike.left_unique _ _ _ (here ▸ pair) head)⟩
    exact List.mem_cons.trans ((or_congr heads ih).trans List.mem_cons.symm)

theorem nodup (all : Opened paired opened others) (alike : memory.Alike fits paired other)
    (nodup : opened.Nodup) : others.Nodup := by
  induction all with
  | nil => exact List.nodup_nil
  | cons head rest ih =>
    obtain ⟨fresh, nodup⟩ := List.nodup_cons.mp nodup
    exact List.nodup_cons.mpr ⟨fun member => fresh ((mem_iff rest alike head).mpr member), ih nodup⟩

theorem held (all : Opened paired opened others) (alike : memory.Alike fits paired other) :
    (∀ container ∈ opened, ∃ cell, memory.cell? container.place = some cell) ∧
      ∀ container ∈ others, ∃ cell, other.cell? container.place = some cell := by
  induction all with
  | nil => exact ⟨List.forall_mem_nil _, List.forall_mem_nil _⟩
  | cons head _ ih =>
    obtain ⟨cell, copy, left, right, -⟩ := alike.cells _ _ head
    exact ⟨List.forall_mem_cons.mpr ⟨⟨cell, left⟩, ih.1⟩, List.forall_mem_cons.mpr ⟨⟨copy, right⟩, ih.2⟩⟩

theorem open_one (all : Opened paired opened others) (alike : memory.Alike fits paired other)
    (nodup : opened.Nodup) {room roomOther : Nat} (enough : memory.room ≤ room + opened.length)
    (enoughOther : other.room ≤ roomOther + others.length) {container like : Container}
    (pair : paired container.place like.place) (new : container ∉ opened) :
    (container :: opened).Nodup ∧ Opened paired (container :: opened) (like :: others) ∧
      0 < room ∧ 0 < roomOther := by
  have more : Opened paired (container :: opened) (like :: others) := .cons pair all
  have distinct := List.nodup_cons.mpr ⟨new, nodup⟩
  have left := Memory.length_le_room distinct (more.held alike).1
  have right := Memory.length_le_room (more.nodup alike distinct) (more.held alike).2
  simp only [List.length_cons] at left right
  exact ⟨distinct, more, by omega, by omega⟩

end Opened

namespace Value

theorem nativeWithin_array (memory : Memory) (room : Nat) (opened : List Container) (place : Nat) :
    nativeWithin memory (room + 1) opened (.array place) =
      if .array place ∈ opened then .null
      else .array ((memory.items place).toList.map (nativeWithin memory room (.array place :: opened))) := by
  rw [nativeWithin]

theorem nativeWithin_object (memory : Memory) (room : Nat) (opened : List Container) (place : Nat) :
    nativeWithin memory (room + 1) opened (.object place) =
      if .object place ∈ opened then .null
      else .object ((memory.members place).map fun (name, value) =>
        (name, nativeWithin memory room (.object place :: opened) value)) := by
  rw [nativeWithin]

theorem nativeWithin_opened {memory : Memory} {opened : List Container} (room : Nat) {place : Nat} :
    (.array place ∈ opened → nativeWithin memory room opened (.array place) = .null) ∧
      (.object place ∈ opened → nativeWithin memory room opened (.object place) = .null) := by
  refine ⟨fun inside => ?_, fun inside => ?_⟩ <;> cases room <;> simp [nativeWithin, inside]

/-- With room for all containers on either side, alike values have one host form. -/
theorem nativeWithin_alike (alike : memory.Alike fits paired other) (room roomOther : Nat)
    {opened others : List Container} (all : Opened paired opened others) (nodup : opened.Nodup)
    (enough : memory.room ≤ room + opened.length) (enoughOther : other.room ≤ roomOther + others.length)
    {value like : Value} (same : value.Alike fits paired like) :
    nativeWithin memory room opened value = nativeWithin other roomOther others like := by
  induction room using Nat.strongRecOn generalizing roomOther opened others value like with
  | ind room ih =>
  cases same with
  | @array place twin pair =>
    have both := @Opened.mem_iff _ _ _ _ _ _ all alike (.array place) (.array twin) pair
    by_cases inside : .array place ∈ opened
    · rw [(nativeWithin_opened room).1 inside, (nativeWithin_opened roomOther).1 (both.mp inside)]
    · -- A container that is not open yet is opened on both sides, and there is room left for its contents.
      obtain ⟨distinct, more, room', roomOther'⟩ :=
        @Opened.open_one _ _ _ _ _ _ all alike nodup _ _ enough enoughOther (.array place) (.array twin) pair inside
      obtain ⟨room, rfl⟩ := Nat.exists_eq_add_of_lt room'
      obtain ⟨roomOther, rfl⟩ := Nat.exists_eq_add_of_lt roomOther'
      simp only [Nat.zero_add] at *
      rw [nativeWithin_array, nativeWithin_array, if_neg inside, if_neg fun there => inside (both.mpr there)]
      refine congrArg Json.array (map_eq_of_forall₂ ((alike.items pair).imp fun value like same => ?_))
      exact ih room (Nat.lt_succ_self room) roomOther more distinct (by simp only [List.length_cons]; omega)
        (by simp only [List.length_cons]; omega) same
  | @object place twin pair =>
    have both := @Opened.mem_iff _ _ _ _ _ _ all alike (.object place) (.object twin) pair
    by_cases inside : .object place ∈ opened
    · rw [(nativeWithin_opened room).2 inside, (nativeWithin_opened roomOther).2 (both.mp inside)]
    · obtain ⟨distinct, more, room', roomOther'⟩ :=
        @Opened.open_one _ _ _ _ _ _ all alike nodup _ _ enough enoughOther (.object place) (.object twin) pair inside
      obtain ⟨room, rfl⟩ := Nat.exists_eq_add_of_lt room'
      obtain ⟨roomOther, rfl⟩ := Nat.exists_eq_add_of_lt roomOther'
      simp only [Nat.zero_add] at *
      rw [nativeWithin_object, nativeWithin_object, if_neg inside, if_neg fun there => inside (both.mpr there)]
      refine congrArg Json.object (map_eq_of_forall₂ ((alike.members pair).imp fun member like same => ?_))
      exact Prod.ext same.1 (ih room (Nat.lt_succ_self room) roomOther more distinct
        (by simp only [List.length_cons]; omega) (by simp only [List.length_cons]; omega) same.2)
  | data path pair =>
    rw [nativeWithin, nativeWithin]
    exact View.native_alike path alike pair
  | _ => simp only [nativeWithin]

theorem native_alike (alike : memory.Alike fits paired other) {value like : Value}
    (same : value.Alike fits paired like) : value.native memory = like.native other :=
  nativeWithin_alike alike memory.room other.room .nil List.nodup_nil (Nat.le_add_right _ _) (Nat.le_add_right _ _)
    same

theorem toText_alike (alike : memory.Alike fits paired other) {value like : Value}
    (same : value.Alike fits paired like) : value.toText memory = like.toText other := by
  cases same with
  | array pair => exact congrArg Json.compact (native_alike alike (.array pair))
  | object pair => exact congrArg Json.compact (native_alike alike (.object pair))
  | data path pair => exact congrArg Json.compact (native_alike alike (.data path pair))
  | _ => rfl

theorem isTruthy_alike (alike : memory.Alike fits paired other) {value like : Value}
    (same : value.Alike fits paired like) : value.isTruthy memory = like.isTruthy other := by
  cases same with
  | data path pair => exact congrArg Bool.not (View.isNull_alike path alike pair)
  | _ => rfl

end Value

end RuleScript
