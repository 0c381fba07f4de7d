import RuleScript.Proofs.Value.Handles
import RuleScript.Proofs.Value.Places

/-! Memories that hold the same at different places.

Two runs may make their arrays, objects and documents in different orders. Their values are alike if they are the same
but for the places, and some places of the one memory stand for places of the other, one to one, with cells that are
alike. No text, truth value or host form tells alike values apart, and no action leads from alike memories to others.
-/

set_option autoImplicit false

namespace RuleScript

/-- Which places of one memory stand for which places of another. -/
abbrev Pairing := Place → Place → Prop

def Pairing.insert (paired : Pairing) (place other : Place) : Pairing :=
  fun left right => paired left right ∨ left = place ∧ right = other

/-- All that is paired in some of the stages of a run. -/
def Pairing.gather (paired : Pairing) (count : Nat) (wider : Nat → Pairing) : Pairing :=
  fun left right => paired left right ∨ ∃ i, i < count ∧ wider i left right

section Alike

variable (fits : Closure → Prop) (paired : Pairing)

/-- Values that differ at most in the places that they refer to. Closures hold no place; they are as `fits` says. -/
inductive Value.Alike : Value → Value → Prop where
  | empty : Alike .empty .empty
  | number (x : Float) : Alike (.number x) (.number x)
  | text (s : String) : Alike (.text s) (.text s)
  | bool (b : Bool) : Alike (.bool b) (.bool b)
  | date (d : Date) : Alike (.date d) (.date d)
  | dateTime (t : DateTime) : Alike (.dateTime t) (.dateTime t)
  | scope (id : ScopeId) : Alike (.scope id) (.scope id)
  | closure {closure : Closure} (fit : fits closure) : Alike (.closure closure) (.closure closure)
  | array {place other : Nat} (pair : paired (.array place) (.array other)) : Alike (.array place) (.array other)
  | object {place other : Nat} (pair : paired (.object place) (.object other)) :
    Alike (.object place) (.object other)
  | data {document other : Nat} (path : Path) (pair : paired (.document document) (.document other)) :
    Alike (.data ⟨document, path⟩) (.data ⟨other, path⟩)

def MembersAlike : Fields Value → Fields Value → Prop :=
  List.Forall₂ fun pair other => pair.1 = other.1 ∧ pair.2.Alike fits paired other.2

inductive Cell.Alike : Cell → Cell → Prop where
  | items {items others : Array Value} (all : List.Forall₂ (Value.Alike fits paired) items.toList others.toList) :
    Alike (.items items) (.items others)
  | members {members others : Fields Value} (all : MembersAlike fits paired members others) :
    Alike (.members members) (.members others)
  | node (node : Json) : Alike (.node node) (.node node)

/-- Paired places hold cells that are alike, and no place is paired with two. -/
structure Memory.Alike (memory other : Memory) : Prop where
  cells : ∀ left right, paired left right → ∃ cell like, memory.cell? left = some cell ∧
    other.cell? right = some like ∧ cell.Alike fits paired like
  right_unique : ∀ left right third, paired left right → paired left third → right = third
  left_unique : ∀ left right third, paired left right → paired third right → left = third

end Alike

/-- A later pairing of later memories: it has what was paired, what else it has is new in both memories, what is new is
paired, and what was there still is. If nothing was to be written, all cells are as they were. -/
structure Onward (writes : Prop) (paired : Pairing) (memory other : Memory) (wider : Pairing) (later onward : Memory) :
    Prop where
  widens : ∀ left right, paired left right → wider left right
  fresh : ∀ left right, wider left right →
    paired left right ∨ memory.cell? left = none ∧ other.cell? right = none
  covers : ∀ right, other.cell? right = none → onward.cell? right ≠ none → ∃ left, wider left right
  keepsLeft : ∀ place, later.cell? place = none → memory.cell? place = none
  keepsRight : ∀ place, onward.cell? place = none → other.cell? place = none
  grows : ¬ writes → memory.Grows later ∧ other.Grows onward

variable {fits : Closure → Prop} {paired wider widest : Pairing} {writes : Prop}

theorem Pairing.le_insert (place other : Place) :
    ∀ left right, paired left right → paired.insert place other left right :=
  fun _ _ => .inl

theorem Pairing.le_gather {count : Nat} {wider : Nat → Pairing} (i : Nat) (bound : i < count) :
    ∀ left right, wider i left right → paired.gather count wider left right :=
  fun _ _ pair => .inr ⟨i, bound, pair⟩

section Mono

variable (widens : ∀ left right, paired left right → wider left right)

include widens

theorem Value.Alike.mono {value other : Value} (alike : value.Alike fits paired other) :
    value.Alike fits wider other := by
  cases alike with
  | array pair => exact .array (widens _ _ pair)
  | object pair => exact .object (widens _ _ pair)
  | data path pair => exact .data path (widens _ _ pair)
  | closure fit => exact .closure fit
  | _ => constructor

theorem Value.Alike.mono_list {values others : List Value}
    (alike : List.Forall₂ (Value.Alike fits paired) values others) :
    List.Forall₂ (Value.Alike fits wider) values others :=
  alike.imp fun _ _ same => same.mono widens

theorem MembersAlike.mono {members others : Fields Value} (alike : MembersAlike fits paired members others) :
    MembersAlike fits wider members others :=
  alike.imp fun _ _ same => ⟨same.1, same.2.mono widens⟩

theorem Cell.Alike.mono {cell other : Cell} (alike : cell.Alike fits paired other) :
    cell.Alike fits wider other := by
  cases alike with
  | items all => exact .items (Value.Alike.mono_list widens all)
  | members all => exact .members (all.mono widens)
  | node node => exact .node node

end Mono

namespace Onward

variable {memory other later onward last final : Memory}

theorem refl (writes : Prop) (paired : Pairing) (memory other : Memory) :
    Onward writes paired memory other paired memory other :=
  ⟨fun _ _ => id, fun _ _ => .inl, fun _ none there => absurd none there, fun _ => id, fun _ => id,
    fun _ => ⟨.refl _, .refl _⟩⟩

theorem trans (first : Onward writes paired memory other wider later onward)
    (second : Onward writes wider later onward widest last final) :
    Onward writes paired memory other widest last final where
  widens left right pair := second.widens left right (first.widens left right pair)
  fresh left right pair := by
    rcases second.fresh left right pair with before | new
    · exact first.fresh left right before
    · exact .inr ⟨first.keepsLeft left new.1, first.keepsRight right new.2⟩
  covers right none there := by
    by_cases early : onward.cell? right = .none
    · exact second.covers right early there
    · obtain ⟨left, pair⟩ := first.covers right none early
      exact ⟨left, second.widens left right pair⟩
  keepsLeft place none := first.keepsLeft place (second.keepsLeft place none)
  keepsRight place none := first.keepsRight place (second.keepsRight place none)
  grows none := ⟨(first.grows none).1.trans (second.grows none).1, (first.grows none).2.trans (second.grows none).2⟩

end Onward

namespace Memory.Alike

variable {memory other later onward : Memory} {place like : Place} {cell copy : Cell}

/-- Writing alike cells at a pair of places that are paired already, or both new. -/
theorem put (alike : memory.Alike fits paired other) (left : memory.Puts place cell later)
    (right : other.Puts like copy onward) (widens : ∀ left right, paired left right → wider left right)
    (only : ∀ left right, wider left right → paired left right ∨ left = place ∧ right = like)
    (known : paired place like ∨ memory.cell? place = none ∧ other.cell? like = none)
    (same : cell.Alike fits wider copy) : later.Alike fits wider onward := by
  -- Whatever else is paired stands at other places on both sides.
  have apart : ∀ first second, paired first second → (first = place ↔ second = like) := by
    intro first second pair
    obtain ⟨held, kept, leftHolds, rightHolds, -⟩ := alike.cells first second pair
    rcases known with old | new
    · exact ⟨fun here => alike.right_unique _ _ _ (here ▸ pair) old,
        fun here => alike.left_unique _ _ _ (here ▸ pair) old⟩
    · refine ⟨fun here => ?_, fun there => ?_⟩
      · rw [here, new.1] at leftHolds
        cases leftHolds
      · rw [there, new.2] at rightHolds
        cases rightHolds
  have agrees : ∀ first second, wider first second → (first = place ↔ second = like) := by
    intro first second pair
    rcases only first second pair with old | ⟨rfl, rfl⟩
    · exact apart first second old
    · exact ⟨fun _ => rfl, fun _ => rfl⟩
  refine ⟨fun first second pair => ?_, fun first second third pair again => ?_,
    fun first second third pair again => ?_⟩
  · rw [left, right]
    by_cases here : first = place
    · rw [if_pos here, if_pos ((agrees _ _ pair).mp here)]
      exact ⟨cell, copy, rfl, rfl, same⟩
    · have old := (only _ _ pair).resolve_right fun both => here both.1
      rw [if_neg here, if_neg fun there => here ((agrees _ _ pair).mpr there)]
      obtain ⟨held, kept, leftHolds, rightHolds, like⟩ := alike.cells first second old
      exact ⟨held, kept, leftHolds, rightHolds, like.mono widens⟩
  · by_cases here : first = place
    · rw [(agrees _ _ pair).mp here, (agrees _ _ again).mp here]
    · exact alike.right_unique first second third ((only _ _ pair).resolve_right fun both => here both.1)
        ((only _ _ again).resolve_right fun both => here both.1)
  · by_cases there : second = like
    · rw [(agrees _ _ pair).mpr there, (agrees _ _ again).mpr there]
    · exact alike.left_unique first second third ((only _ _ pair).resolve_right fun both => there both.2)
        ((only _ _ again).resolve_right fun both => there both.2)

theorem allocate (alike : memory.Alike fits paired other) (left : memory.Puts place cell later)
    (right : other.Puts like copy onward) (newLeft : memory.cell? place = none) (newRight : other.cell? like = none)
    (same : cell.Alike fits paired copy) :
    Onward writes paired memory other (paired.insert place like) later onward ∧
      later.Alike fits (paired.insert place like) onward := by
  have widens := @Pairing.le_insert paired place like
  refine ⟨⟨widens, fun first second pair => ?_, fun second none there => ?_, fun first none => ?_, fun second none => ?_,
    fun _ => ⟨left.grows newLeft, right.grows newRight⟩⟩,
    alike.put left right widens (fun _ _ => id) (.inr ⟨newLeft, newRight⟩) (same.mono widens)⟩
  · exact pair.imp_right fun both => by rw [both.1, both.2]; exact ⟨newLeft, newRight⟩
  · exact ⟨place, .inr ⟨rfl, right.only none there⟩⟩
  · exact left.keeps none
  · exact right.keeps none

theorem write (alike : memory.Alike fits paired other) (left : memory.Puts place cell later)
    (right : other.Puts like copy onward) (pair : paired place like) (same : cell.Alike fits paired copy)
    (allowed : writes) : Onward writes paired memory other paired later onward ∧ later.Alike fits paired onward := by
  refine ⟨⟨fun _ _ => id, fun _ _ => .inl, fun second none there => ?_, fun first none => ?_, fun second none => ?_,
    fun not => absurd allowed not⟩,
    alike.put left right (fun _ _ => id) (fun _ _ => .inl) (.inl pair) same⟩
  · exact ⟨place, right.only none there ▸ pair⟩
  · exact left.keeps none
  · exact right.keeps none

theorem cell_node {node copy : Json} (alike : Cell.Alike fits paired (.node node) (.node copy)) : node = copy := by
  cases alike
  rfl

theorem items {index copy : Nat} (alike : memory.Alike fits paired other)
    (pair : paired (.array index) (.array copy)) :
    List.Forall₂ (Value.Alike fits paired) (memory.items index).toList (other.items copy).toList := by
  obtain ⟨cell, like, left, right, same⟩ := alike.cells _ _ pair
  rw [items_of_cell left, items_of_cell right] at same
  cases same
  assumption

theorem members {index copy : Nat} (alike : memory.Alike fits paired other)
    (pair : paired (.object index) (.object copy)) :
    MembersAlike fits paired (memory.members index) (other.members copy) := by
  obtain ⟨cell, like, left, right, same⟩ := alike.cells _ _ pair
  rw [members_of_cell left, members_of_cell right] at same
  cases same
  assumption

theorem document {index copy : Nat} (alike : memory.Alike fits paired other)
    (pair : paired (.document index) (.document copy)) : memory.document index = other.document copy := by
  obtain ⟨cell, like, left, right, same⟩ := alike.cells _ _ pair
  rw [node_of_cell left, node_of_cell right] at same
  exact cell_node same

theorem growRight (alike : memory.Alike fits paired other) (grows : other.Grows onward) :
    memory.Alike fits paired onward where
  cells left right pair := by
    obtain ⟨cell, copy, holds, kept, same⟩ := alike.cells left right pair
    exact ⟨cell, copy, holds, grows _ _ kept, same⟩
  right_unique := alike.right_unique
  left_unique := alike.left_unique

theorem growLeft (alike : memory.Alike fits paired other) (grows : memory.Grows later) :
    later.Alike fits paired other where
  cells left right pair := by
    obtain ⟨cell, copy, holds, kept, same⟩ := alike.cells left right pair
    exact ⟨cell, copy, grows _ _ holds, kept, same⟩
  right_unique := alike.right_unique
  left_unique := alike.left_unique

/-- One memory beside the stages of another. What is paired anew in a stage was made for that stage on the left, and in
it on the right; so all pairs together are one to one. -/
theorem gather {others : Nat → Memory} {count : Nat} {wider : Nat → Pairing} {made : Nat → Place → Prop}
    (alike : memory.Alike fits paired (others 0))
    (grows : ∀ i j, i ≤ j → j ≤ count → (others i).Grows (others j))
    (widens : ∀ i, i < count → ∀ left right, paired left right → wider i left right)
    (each : ∀ i, i < count → memory.Alike fits (wider i) (others (i + 1)))
    (fresh : ∀ i, i < count → ∀ left right, wider i left right →
      paired left right ∨ made i left ∧ (others i).cell? right = none)
    (apart : ∀ i j place, made i place → made j place → i = j) :
    memory.Alike fits (paired.gather count wider) (others count) := by
  have all := @Pairing.le_gather paired count wider
  -- A place that a stage pairs anew on the right is not paired in an earlier stage.
  have later : ∀ i j left right third, i < j → j < count → wider i left right → wider j third right →
      paired third right := by
    intro i j left right third less bound early late
    refine (fresh j bound third right late).resolve_right fun new => ?_
    obtain ⟨_, copy, -, kept, -⟩ := (each i (Nat.lt_trans less bound)).cells left right early
    rw [grows (i + 1) j less (Nat.le_of_lt bound) _ _ kept] at new
    cases new.2
  have left : ∀ i j left right third, i < count → j < count → wider i left right → wider j third right →
      left = third := by
    intro i j left right third first second pair again
    rcases Nat.lt_trichotomy i j with less | rfl | more
    · exact (each i first).left_unique _ _ _ pair (widens i first _ _ (later i j _ _ _ less second pair again))
    · exact (each i first).left_unique _ _ _ pair again
    · exact (each j second).left_unique _ _ _ (widens j second _ _ (later j i _ _ _ more first again pair)) again
  have right : ∀ i j left right third, i < count → j < count → wider i left right → wider j left third →
      right = third := by
    intro i j left right third first second pair again
    rcases fresh i first left right pair with old | new
    · exact (each j second).right_unique _ _ _ (widens j second _ _ old) again
    rcases fresh j second left third again with old | newer
    · exact (each i first).right_unique _ _ _ pair (widens i first _ _ old)
    obtain rfl := apart i j left new.1 newer.1
    exact (each i first).right_unique _ _ _ pair again
  refine ⟨fun first second pair => ?_, fun first second third pair again => ?_,
    fun first second third pair again => ?_⟩
  · rcases pair with old | ⟨i, bound, pair⟩
    · obtain ⟨cell, copy, holds, kept, same⟩ := alike.cells _ _ old
      exact ⟨cell, copy, holds, grows 0 count (Nat.zero_le _) (Nat.le_refl _) _ _ kept, same.mono fun _ _ => .inl⟩
    · obtain ⟨cell, copy, holds, kept, same⟩ := (each i bound).cells _ _ pair
      exact ⟨cell, copy, holds, grows (i + 1) count bound (Nat.le_refl _) _ _ kept, same.mono (all i bound)⟩
  · rcases pair with old | ⟨i, first, pair⟩
    · rcases again with same | ⟨j, second, again⟩
      · exact alike.right_unique _ _ _ old same
      · exact (each j second).right_unique _ _ _ (widens j second _ _ old) again
    · rcases again with old | ⟨j, second, again⟩
      · exact (each i first).right_unique _ _ _ pair (widens i first _ _ old)
      · exact right i j _ _ _ first second pair again
  · rcases pair with old | ⟨i, first, pair⟩
    · rcases again with same | ⟨j, second, again⟩
      · exact alike.left_unique _ _ _ old same
      · exact (each j second).left_unique _ _ _ (widens j second _ _ old) again
    · rcases again with old | ⟨j, second, again⟩
      · exact (each i first).left_unique _ _ _ pair (widens i first _ _ old)
      · exact left i j _ _ _ first second pair again

end Memory.Alike

def Memory.places (memory : Memory) : Pairing :=
  fun place other => place = other ∧ memory.cell? place ≠ none

theorem Memory.alike_self {memory : Memory} (all : memory.All fun value => value.Alike fits memory.places value) :
    memory.Alike fits memory.places memory where
  cells := by
    rintro place _ ⟨rfl, there⟩
    obtain ⟨cell, holds⟩ := Option.ne_none_iff_exists'.mp there
    refine ⟨cell, cell, holds, holds, ?_⟩
    cases place with
    | array index =>
      obtain rfl := items_of_cell holds
      exact .items (List.forall₂_same.mpr fun value member => all.items index value (Array.mem_toList_iff.mp member))
    | object index =>
      obtain rfl := members_of_cell holds
      exact .members (List.forall₂_same.mpr fun pair member => ⟨rfl, all.members index pair member⟩)
    | document index =>
      obtain rfl := node_of_cell holds
      exact .node _
  right_unique := by
    rintro _ _ _ ⟨rfl, -⟩ ⟨rfl, -⟩
    rfl
  left_unique := by
    rintro _ _ _ ⟨rfl, -⟩ ⟨rfl, -⟩
    rfl

def Pairing.right (paired : Pairing) : Pairing :=
  fun place other => place = other ∧ ∃ left, paired left place

theorem forall₂_right {α β : Type} {R : α → β → Prop} {S : β → β → Prop} {left : List α} {right : List β}
    (alike : List.Forall₂ R left right) (each : ∀ a b, R a b → S b b) : List.Forall₂ S right right := by
  induction alike with
  | nil => exact .nil
  | cons head _ ih => exact .cons (each _ _ head) ih

theorem Value.Alike.right {value other : Value} (alike : value.Alike fits paired other) :
    other.Alike fits paired.right other := by
  cases alike with
  | array pair => exact .array ⟨rfl, _, pair⟩
  | object pair => exact .object ⟨rfl, _, pair⟩
  | data path pair => exact .data path ⟨rfl, _, pair⟩
  | closure fit => exact .closure fit
  | _ => constructor

theorem MembersAlike.right {members others : Fields Value} (alike : MembersAlike fits paired members others) :
    MembersAlike fits paired.right others others :=
  forall₂_right alike fun _ _ same => ⟨rfl, same.2.right⟩

theorem Cell.Alike.right {cell other : Cell} (alike : cell.Alike fits paired other) :
    other.Alike fits paired.right other := by
  cases alike with
  | items all => exact .items (forall₂_right all fun _ _ same => same.right)
  | members all => exact .members all.right
  | node node => exact .node node

theorem Memory.Alike.right {memory other : Memory} (alike : memory.Alike fits paired other) :
    other.Alike fits paired.right other where
  cells := by
    rintro place _ ⟨rfl, left, pair⟩
    obtain ⟨_, cell, -, holds, same⟩ := alike.cells left place pair
    exact ⟨cell, cell, holds, holds, same.right⟩
  right_unique := by
    rintro place _ _ ⟨rfl, -⟩ ⟨rfl, -⟩
    rfl
  left_unique := by
    rintro place _ _ ⟨rfl, -⟩ ⟨rfl, -⟩
    rfl

end RuleScript
