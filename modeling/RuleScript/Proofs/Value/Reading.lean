import RuleScript.Proofs.Value.Rendering

/-! Objects that are read for a text.

Making the text of a value reads the members of every object that can be reached from it, although no container is
opened inside of itself: whatever is reached at all is reached on a way that passes nothing twice.
-/

set_option autoImplicit false

namespace RuleScript

namespace Memory

variable {memory : Memory} {opened : List Container} {container first last : Container}

theorem Inside.outer (inside : memory.Inside first last) : ∃ cell, memory.cell? first.place = some cell := by
  obtain ⟨value, member, -⟩ := inside
  cases first with
  | array place =>
    by_cases there : place < memory.arrays.size
    · simp [cell?, Container.place, there]
    · simp [contents, items, Array.getD, there] at member
  | object place =>
    by_cases there : place < memory.objects.size
    · simp [cell?, Container.place, there]
    · simp [contents, members, Array.getD, there] at member

/-- One container stands in another, by way of any that are not opened. -/
def Avoids (memory : Memory) (opened : List Container) : Container → Container → Prop :=
  Relation.ReflTransGen fun outer inner => memory.Inside outer inner ∧ inner ∉ opened

/-- A way out of a container need not come back to it. -/
theorem Avoids.leave (avoids : memory.Avoids opened first last) (apart : first ≠ last) :
    ∃ next, memory.Inside first next ∧ next ∉ first :: opened ∧ memory.Avoids (first :: opened) next last := by
  have leaves : ∀ {next}, memory.Inside first next ∧ next ∉ first :: opened →
      memory.Avoids (first :: opened) next last →
      ∃ next, memory.Inside first next ∧ next ∉ first :: opened ∧ memory.Avoids (first :: opened) next last :=
    fun step rest => ⟨_, step.1, step.2, rest⟩
  have departs : memory.Avoids (first :: opened) first last →
      ∃ next, memory.Inside first next ∧ next ∉ first :: opened ∧ memory.Avoids (first :: opened) next last := by
    intro clear
    obtain same | ⟨next, step, rest⟩ := clear.cases_head
    · exact absurd same apart
    · exact leaves step rest
  -- The induction is on the way, from its end: where it comes back, it is left there for the last time.
  have onWay : ∀ {container}, memory.Avoids opened container last →
      memory.Avoids (first :: opened) container last ∨
        ∃ next, memory.Inside first next ∧ next ∉ first :: opened ∧ memory.Avoids (first :: opened) next last := by
    intro container way
    induction way using Relation.ReflTransGen.head_induction_on with
    | refl => exact .inl .refl
    | @head outer inner step _ ih =>
      rcases ih with clear | left
      · by_cases back : inner = first
        · exact .inr (departs (back ▸ clear))
        · exact .inl (.head ⟨step.1, List.not_mem_cons_of_ne_of_not_mem back step.2⟩ clear)
      · exact .inr left
  exact (onWay avoids).elim departs id

end Memory

namespace Value

variable {memory : Memory} {opened : List Container} {value : Value} {container : Container} {target room : Nat}

theorem readsWithin_plain (plain : value.container? = none) (room : Nat) :
    readsWithin memory target room opened value = false := by
  cases value with
  | array | object => cases plain
  | _ => simp only [readsWithin]

theorem readsWithin_again (is : value.container? = some container) (inside : container ∈ opened) (room : Nat) :
    readsWithin memory target room opened value = false := by
  cases value with
  | array | object => cases is; cases room <;> simp [readsWithin, inside]
  | _ => cases is

theorem opens_of_readsWithin (reads : readsWithin memory target room opened value = true) :
    ∃ container, value.container? = some container ∧ container ∉ opened := by
  cases is : value.container? with
  | none =>
    rw [readsWithin_plain is] at reads
    cases reads
  | some container =>
    refine ⟨container, rfl, fun inside => ?_⟩
    rw [readsWithin_again is inside] at reads
    cases reads

theorem readsWithin_zero (is : value.container? = some container) (new : container ∉ opened) :
    readsWithin memory target 0 opened value = decide (container = .object target) := by
  cases value with
  | array | object => cases is; simp [readsWithin, new]
  | _ => cases is

theorem readsWithin_succ (is : value.container? = some container) (new : container ∉ opened) :
    readsWithin memory target (room + 1) opened value =
      (decide (container = .object target) ||
        (memory.contents container).any (readsWithin memory target room (container :: opened))) := by
  cases value with
  | array place =>
    cases is
    simp [readsWithin, new, Memory.contents]
  | object place =>
    cases is
    rw [readsWithin, if_neg new]
    by_cases same : place = target
    · simp [same]
    · simp [same, Memory.contents, List.any_map, Function.comp_def]
  | _ => cases is

theorem reaches_of_readsWithin (reads : readsWithin memory target room opened value = true) :
    value.Reaches memory (.object target) := by
  induction room generalizing opened value with
  | zero =>
    obtain ⟨container, is, new⟩ := opens_of_readsWithin reads
    rw [readsWithin_zero is new, decide_eq_true_iff] at reads
    exact reads ▸ .self is
  | succ room ih =>
    obtain ⟨container, is, new⟩ := opens_of_readsWithin reads
    rw [readsWithin_succ is new, Bool.or_eq_true, decide_eq_true_iff, List.any_eq_true] at reads
    obtain rfl | ⟨inner, member, reads⟩ := reads
    · exact .self is
    · exact .of_content is member (ih reads)

/-- With room for every container that is not open yet, whatever can be reached is read. -/
theorem readsWithin_of_avoids (nodup : opened.Nodup)
    (held : ∀ container ∈ opened, ∃ cell, memory.cell? container.place = some cell)
    (enough : memory.room ≤ room + opened.length) (is : value.container? = some container) (new : container ∉ opened)
    (avoids : memory.Avoids opened container (.object target)) :
    readsWithin memory target room opened value = true := by
  -- By induction on the room, which each container that is opened takes from.
  induction room generalizing opened value container with
  | zero =>
    rw [readsWithin_zero is new, decide_eq_true_iff]
    by_contra apart
    -- Something stands in the container, so it is one more in memory than there are.
    obtain ⟨next, inside, -⟩ := avoids.leave apart
    have distinct : (container :: opened).Nodup := List.nodup_cons.mpr ⟨new, nodup⟩
    have fits := Memory.length_le_room distinct fun other member =>
      (List.mem_cons.mp member).elim (fun same => same ▸ inside.outer) (held other)
    rw [List.length_cons] at fits
    omega
  | succ room ih =>
    rw [readsWithin_succ is new, Bool.or_eq_true, decide_eq_true_iff, List.any_eq_true]
    by_cases here : container = .object target
    · exact .inl here
    · obtain ⟨next, inside, fresh, rest⟩ := avoids.leave here
      have distinct : (container :: opened).Nodup := List.nodup_cons.mpr ⟨new, nodup⟩
      have more : ∀ other ∈ container :: opened, ∃ cell, memory.cell? other.place = some cell := fun other member =>
        (List.mem_cons.mp member).elim (fun same => same ▸ inside.outer) (held other)
      obtain ⟨inner, member, named⟩ := inside
      refine .inr ⟨inner, member, ih distinct more ?_ named fresh rest⟩
      rw [List.length_cons]
      omega

/-- The host form of a value reads an object exactly if the object can be reached from the value. -/
theorem reads_iff : value.reads memory target = true ↔ value.Reaches memory (.object target) := by
  refine ⟨reaches_of_readsWithin, fun ⟨container, is, below⟩ => ?_⟩
  have avoids : memory.Avoids [] container (.object target) :=
    Relation.ReflTransGen.mono (fun _ _ inside => ⟨inside, List.not_mem_nil⟩) _ _ below
  exact readsWithin_of_avoids List.nodup_nil (List.forall_mem_nil _) (Nat.le_refl _) is List.not_mem_nil avoids

variable {fits : Closure → Prop} {paired : Pairing} {other : Memory} {like : Value}

theorem container?_alike (same : value.Alike fits paired like) :
    (value.container? = none ∧ like.container? = none) ∨ ∃ container twin, value.container? = some container ∧
      like.container? = some twin ∧ paired container.place twin.place := by
  cases same with
  | array pair => exact .inr ⟨_, _, rfl, rfl, pair⟩
  | object pair => exact .inr ⟨_, _, rfl, rfl, pair⟩
  | _ => exact .inl ⟨rfl, rfl⟩

theorem mem_alike {values others : List Value} (all : List.Forall₂ (Value.Alike fits paired) values others) :
    (∀ value ∈ values, ∃ like ∈ others, value.Alike fits paired like) ∧
      ∀ like ∈ others, ∃ value ∈ values, value.Alike fits paired like := by
  induction all with
  | nil => simp
  | cons head _ ih =>
    constructor
    · refine List.forall_mem_cons.mpr ⟨⟨_, List.mem_cons_self, head⟩, fun value member => ?_⟩
      obtain ⟨like, inside, same⟩ := ih.1 value member
      exact ⟨like, List.mem_cons_of_mem _ inside, same⟩
    · refine List.forall_mem_cons.mpr ⟨⟨_, List.mem_cons_self, head⟩, fun like member => ?_⟩
      obtain ⟨value, inside, same⟩ := ih.2 like member
      exact ⟨value, List.mem_cons_of_mem _ inside, same⟩

theorem contents_alike (alike : memory.Alike fits paired other) {twin : Container}
    (pair : paired container.place twin.place) :
    List.Forall₂ (Value.Alike fits paired) (memory.contents container) (other.contents twin) := by
  obtain ⟨cell, copy, left, right, same⟩ := alike.cells _ _ pair
  cases container with
  | array place =>
    cases twin with
    | array there => exact alike.items pair
    | object there =>
      rw [Memory.items_of_cell left, Memory.members_of_cell right] at same
      cases same
  | object place =>
    cases twin with
    | array there =>
      rw [Memory.members_of_cell left, Memory.items_of_cell right] at same
      cases same
    | object there =>
      exact List.forall₂_map_left_iff.mpr (List.forall₂_map_right_iff.mpr
        ((alike.members pair).imp fun _ _ same => same.2))

/-- What can be reached is followed step by step, where alike containers hold alike values. -/
theorem Reaches.follow (same : Value → Value → Prop) (pairs : Container → Container → Prop)
    (containers : ∀ value like, same value like → ∀ container, value.container? = some container →
      ∃ twin, like.container? = some twin ∧ pairs container twin)
    (contents : ∀ container twin, pairs container twin → ∀ inner ∈ memory.contents container,
      ∃ copy ∈ other.contents twin, same inner copy)
    (alike : same value like) (reaches : value.Reaches memory container) :
    ∃ twin, pairs container twin ∧ like.Reaches other twin := by
  obtain ⟨first, is, below⟩ := reaches
  induction below using Relation.ReflTransGen.head_induction_on generalizing value like with
  | refl =>
    obtain ⟨twin, named, pair⟩ := containers value like alike _ is
    exact ⟨twin, pair, .self named⟩
  | head step _ ih =>
    obtain ⟨twin, named, pair⟩ := containers value like alike _ is
    obtain ⟨inner, member, inside⟩ := step
    obtain ⟨copy, there, alike⟩ := contents _ _ pair inner member
    obtain ⟨last, pair, reaches⟩ := ih alike inside
    exact ⟨last, pair, .of_content named there reaches⟩

theorem Reaches.right (alike : memory.Alike fits paired other) (same : value.Alike fits paired like)
    (reaches : value.Reaches memory container) :
    ∃ twin, paired container.place twin.place ∧ like.Reaches other twin := by
  refine Reaches.follow (Value.Alike fits paired) (fun container twin => paired container.place twin.place)
    (fun value like same container is => ?_) (fun _ _ pair => (mem_alike (contents_alike alike pair)).1) same reaches
  obtain ⟨none, -⟩ | ⟨_, twin, left, right, pair⟩ := container?_alike same
  · rw [none] at is
    cases is
  · exact ⟨twin, right, Option.some.inj (left.symm.trans is) ▸ pair⟩

theorem Reaches.left (alike : memory.Alike fits paired other) (same : value.Alike fits paired like)
    {twin : Container} (reaches : like.Reaches other twin) :
    ∃ container, paired container.place twin.place ∧ value.Reaches memory container := by
  refine Reaches.follow (fun like value => value.Alike fits paired like)
    (fun twin container => paired container.place twin.place) (fun like value same twin is => ?_)
    (fun _ _ pair => (mem_alike (contents_alike alike pair)).2) same reaches
  obtain ⟨-, none⟩ | ⟨container, _, left, right, pair⟩ := container?_alike same
  · rw [none] at is
    cases is
  · exact ⟨container, left, Option.some.inj (right.symm.trans is) ▸ pair⟩

theorem reads_alike (alike : memory.Alike fits paired other) {twin : Nat}
    (pair : paired (.object target) (.object twin)) (same : value.Alike fits paired like) :
    value.reads memory target = like.reads other twin := by
  rw [Bool.eq_iff_iff, reads_iff, reads_iff]
  constructor
  · intro reaches
    obtain ⟨container, there, reaches⟩ := Reaches.right alike same reaches
    have is := alike.right_unique _ _ _ pair there
    cases container with
    | array => cases is
    | object => cases is; exact reaches
  · intro reaches
    obtain ⟨container, there, reaches⟩ := Reaches.left alike same reaches
    have is := alike.left_unique _ _ _ pair there
    cases container with
    | array => cases is
    | object => cases is; exact reaches

end Value

end RuleScript
