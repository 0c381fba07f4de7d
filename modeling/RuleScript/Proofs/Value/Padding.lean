import Mathlib.Logic.Function.Basic
import RuleScript.Proofs.Decimal.Exact
import RuleScript.Proofs.Decimal.Literal
import RuleScript.Proofs.Value.Sending

/-! Writing to arrays.

A key means a position if it is a whole number from 0 on or the text of one. A `set` at a position up to a gap past the end
is answered, and the array is as long as it has to be, with missing data where nothing was written. Every other key is
refused. So an array after any messages is what a row without an end is after the writes among them.
-/

set_option autoImplicit false

namespace RuleScript

inductive Value.Means : Value → Nat → Prop where
  | number {x : Float} {b : Decimal.Binary} {position : Nat} (finite : Decimal.Binary.ofFloat? x = some b)
      (whole : b.value = position) : Means (.number x) position
  | text {s : String} {position : Nat} (written : Decimal.WritesIndex s.toList position) : Means (.text s) position

namespace Value

theorem position?_number {x : Float} {b : Decimal.Binary} (finite : Decimal.Binary.ofFloat? x = some b) (n : Nat) :
    position? (.number x) = some n ↔ b.value = n := by
  have position : position? (.number x) = if 0.0 ≤ x && b.isWhole then some b.truncate.toNat else none := by
    simp only [position?, finite]
  rw [position]
  constructor
  · intro means
    split at means
    next valid =>
      rw [Bool.and_eq_true, decide_eq_true_iff, Decimal.zero_le_iff_value finite] at valid
      obtain ⟨positive, whole⟩ := valid
      have exact := Decimal.Binary.value_of_isWhole whole
      rw [exact, Int.cast_nonneg_iff] at positive
      rw [exact, ← Option.some.inj means, ← Int.cast_natCast, Int.toNat_of_nonneg positive]
    next => cases means
  · intro value
    have whole : b.isWhole = true := Decimal.Binary.isWhole_of_value (n := n) (by rw [value, Int.cast_natCast])
    have positive : (0.0 : Float) ≤ x := (Decimal.zero_le_iff_value finite).mpr (value ▸ n.cast_nonneg)
    have exact : b.truncate = n := by
      rw [Decimal.Binary.value_of_isWhole whole] at value
      exact_mod_cast value
    rw [if_pos (by simp [positive, whole]), exact, Int.toNat_natCast]

theorem position?_eq_some_iff (key : Value) (n : Nat) : position? key = some n ↔ key.Means n := by
  constructor
  · intro means
    cases key with
    | number x =>
      cases finite : Decimal.Binary.ofFloat? x with
      | none => simp [position?, finite] at means
      | some b => exact .number finite ((position?_number finite n).mp means)
    | text s => exact .text (Decimal.readIndex?_eq_some_iff.mp means)
    | _ => cases means
  · rintro (⟨finite, whole⟩ | written)
    · exact (position?_number finite n).mpr whole
    · exact Decimal.readIndex?_eq_some_iff.mpr written

end Value

theorem Value.size_writeItem (items : Array Value) (position : Nat) (value : Value) :
    (writeItem items position value).size = max items.size (position + 1) := by
  unfold writeItem
  split
  · rw [Array.size_setIfInBounds]
    omega
  · rw [Array.size_push, Array.size_append, Array.size_replicate]
    omega

theorem Value.getD_writeItem (items : Array Value) (position other : Nat) (value : Value) :
    (writeItem items position value).getD other .empty =
      if other = position then value else items.getD other .empty := by
  unfold writeItem
  simp only [Array.getD_eq_getD_getElem?]
  split
  next inside =>
    rw [Array.getElem?_setIfInBounds]
    by_cases same : other = position
    · simp [same, inside]
    · simp [same, Ne.symm same]
  next outside =>
    -- Behind the items comes the padding, and the value behind that.
    have padded : (items ++ Array.replicate (position - items.size) Value.empty).size = position := by
      rw [Array.size_append, Array.size_replicate]
      omega
    rw [Array.getElem?_push, padded, Array.getElem?_append, Array.getElem?_replicate]
    by_cases last : other = position
    · simp [last]
    · by_cases old : other < items.size
      · simp [last, old]
      · rw [if_neg last, if_neg last, if_neg old, Array.getElem?_eq_none (Nat.not_lt.mp old)]
        split <;> rfl

/-- A row of values: as long as it is, it has missing data behind its end. -/
structure Row where
  length : Nat
  item : Nat → Value

namespace Row

def of (items : Array Value) : Row :=
  ⟨items.size, fun position => items.getD position .empty⟩

def put (row : Row) (position : Nat) (value : Value) : Row :=
  ⟨max row.length (position + 1), Function.update row.item position value⟩

/-- Put a value where the key says, unless that is further than the gap past the end. -/
def set (row : Row) (key value : Value) : Row :=
  match Value.position? key with
  | some position => if position ≤ row.length + 10000 then row.put position value else row
  | none => row

/-- The row of an array after a message: what changes it is a `set` that is sent to the array. -/
def hear (place : Nat) (row : Row) : Sent → Row
  | ⟨.array index, .set, arguments⟩ =>
    if index = place then row.set (Value.argument arguments 0) (Value.argument arguments 1) else row
  | _ => row

theorem put_item_self (row : Row) (position : Nat) (value : Value) : (row.put position value).item position = value := by
  simp only [put, Function.update_self]

theorem of_writeItem (items : Array Value) (position : Nat) (value : Value) :
    of (Value.writeItem items position value) = (of items).put position value := by
  refine congrArg₂ Row.mk (Value.size_writeItem items position value) (funext fun other => ?_)
  rw [Value.getD_writeItem, Function.update_apply]
  rfl

end Row

section Memory

variable {memory : Memory} {place : Nat} {items : Array Value} {key : Value}

theorem Memory.cell?_writeItem (holds : memory.cell? (.array place) = some (.items items)) (position : Nat)
    (value : Value) :
    Memory.cell? { memory with arrays := memory.arrays.modify place (Value.writeItem · position value) } (.array place) =
      some (.items (Value.writeItem items position value)) := by
  obtain ⟨old, found, same⟩ := Option.map_eq_some_iff.mp holds
  cases same
  simp [cell?, Array.getElem?_modify, found]

theorem Memory.items_eq (holds : memory.cell? (.array place) = some (.items items)) : memory.items place = items :=
  (Cell.items.inj (Memory.items_of_cell holds)).symm

theorem Value.send_get_means {position : Nat} (means : key.Means position) (rest : List Value)
    (holds : memory.cell? (.array place) = some (.items items)) :
    (Value.array place).send .get (key :: rest) memory = (.ok ((Row.of items).item position), memory) := by
  have found : position? key = some position := (position?_eq_some_iff key position).mpr means
  change (match position? key with
    | some position => pure ((memory.items place).getD position .empty)
    | none => pure .empty : Action Value) memory = _
  rw [found, Memory.items_eq holds]
  rfl

theorem Value.send_get_no_position (none : ∀ position, ¬ key.Means position) (rest : List Value) (memory : Memory) :
    (Value.array place).send .get (key :: rest) memory = (.ok .empty, memory) := by
  have absent : position? key = .none :=
    Option.eq_none_iff_forall_not_mem.mpr fun position found => none position ((position?_eq_some_iff _ _).mp found)
  change (match position? key with
    | some position => pure ((memory.items place).getD position .empty)
    | .none => pure .empty : Action Value) memory = _
  rw [absent]
  rfl

theorem Sent.after_row (sent : Sent) (holds : memory.cell? (.array place) = some (.items items)) :
    ∃ later, (sent.after memory).cell? (.array place) = some (.items later) ∧
      Row.of later = (Row.of items).hear place sent := by
  -- A message that is no `set` to this array leaves the cell, and the row does not hear it.
  by_cases sets : sent.Sets (.array place)
  · obtain ⟨receiver, message, arguments⟩ := sent
    obtain ⟨rfl, same⟩ := sets
    cases receiver with
    | array index =>
      obtain rfl : index = place := same
      have size := congrArg Array.size (Memory.items_eq holds)
      obtain ⟨position, means, near⟩ | far := Value.near_or_far index (Value.argument arguments 0) memory
      · refine ⟨_, ?_, Row.of_writeItem items position (Value.argument arguments 1) |>.trans ?_⟩
        · rw [after, Value.send_set_near means near]
          exact Memory.cell?_writeItem holds position _
        · rw [size] at near
          simp only [Row.hear, Row.set, means, if_true]
          exact (if_pos near).symm
      · refine ⟨items, ?_, ?_⟩
        · rw [after, Value.send_set_far far]
          exact holds
        · simp only [Row.hear, Row.set, if_true]
          split
          next position means =>
            have beyond := far position means
            rw [size] at beyond
            exact (if_neg (Nat.not_le.mpr beyond)).symm
          next => rfl
    | _ => exact same.elim
  · refine ⟨items, sent.after_cell sets holds, ?_⟩
    unfold Row.hear
    split
    next index arguments => exact (if_neg fun same => sets ⟨rfl, same⟩).symm
    next => rfl

theorem Memory.afterAll_row (messages : List Sent) (holds : memory.cell? (.array place) = some (.items items)) :
    ∃ later, (memory.afterAll messages).cell? (.array place) = some (.items later) ∧
      Row.of later = messages.foldl (Row.hear place) (Row.of items) := by
  induction messages generalizing memory items with
  | nil => exact ⟨items, holds, rfl⟩
  | cons sent rest ih =>
    obtain ⟨next, holds, row⟩ := sent.after_row holds
    obtain ⟨later, holds, rows⟩ := ih holds
    exact ⟨later, holds, rows.trans (congrArg (rest.foldl (Row.hear place)) row)⟩

/-- An array is a row that is written with a bounded gap. A `set` whose key means a position up to 10000 past the end is
answered with the value, changes nothing but the array, and a `get` with the same key answers the value from then on. Every
other `set` is refused and changes nothing. A `get` answers the item at the position that its key means, and `Empty` if
there is none.

So after any messages, whoever they were sent to, the array is the row that has heard them, and answers as that. -/
theorem Value.set_pads_array (holds : memory.cell? (.array place) = some (.items items)) :
    (∀ key position, position? key = some position ↔ key.Means position) ∧
    (∀ key value rest,
      (∀ position, key.Means position → position ≤ items.size + 10000 →
        ∃ later written, (Value.array place).send .set (key :: value :: rest) memory = (.ok value, later) ∧
          memory.AgreesBut later (.array place) ∧
          later.cell? (.array place) = some (.items written) ∧
          Row.of written = (Row.of items).put position value ∧
          ∀ rest, (Value.array place).send .get (key :: rest) later = (.ok value, later)) ∧
      ((∀ position, key.Means position → items.size + 10000 < position) →
        (Value.array place).send .set (key :: value :: rest) memory =
          (.error (.typeMismatch .index .array key.variant), memory))) ∧
    (∀ key rest, (∀ position, key.Means position → items.size ≤ position) →
      (Value.array place).send .get (key :: rest) memory = (.ok .empty, memory)) ∧
    ∀ messages : List Sent,
      (∃ later, (memory.afterAll messages).cell? (.array place) = some (.items later) ∧
        Row.of later = messages.foldl (Row.hear place) (Row.of items)) ∧
      ∀ key position rest, key.Means position →
        (Value.array place).send .get (key :: rest) (memory.afterAll messages) =
          (.ok ((messages.foldl (Row.hear place) (Row.of items)).item position), memory.afterAll messages) := by
  have size := congrArg Array.size (Memory.items_eq holds)
  refine ⟨position?_eq_some_iff, fun key value rest => ⟨fun position means near => ?_, fun far => ?_⟩,
    fun key rest beyond => ?_, fun messages => ?_⟩
  · have found : position? (argument (key :: value :: rest) 0) = some position :=
      (position?_eq_some_iff key position).mpr means
    -- A key that means a position near enough: the `set` writes the row there, and the `get` reads the written row.
    have written := Memory.cell?_writeItem holds position value
    refine ⟨_, _, send_set_near found (by rw [size]; exact near), Memory.agreesBut_arrays _ _, written,
      Row.of_writeItem items position value, fun rest => ?_⟩
    refine (send_get_means means rest written).trans ?_
    rw [Row.of_writeItem, Row.put_item_self]
    rfl
  · refine @send_set_far (key :: value :: rest) memory place fun position found => ?_
    rw [size]
    exact far position ((position?_eq_some_iff key position).mp found)
  · -- A position past the end holds missing data, and a key that means none is answered with it.
    by_cases means : ∃ position, key.Means position
    · obtain ⟨position, means⟩ := means
      rw [send_get_means means rest holds]
      simp [Row.of, beyond position means]
    · exact send_get_no_position (not_exists.mp means) rest memory
  · obtain ⟨later, after, row⟩ := Memory.afterAll_row messages holds
    refine ⟨⟨later, after, row⟩, fun key position rest means => ?_⟩
    rw [send_get_means means rest after, row]

end Memory

/-- An array of one item is written at the position 2 and, as far as may be, at 10003; a set beyond that is refused. -/
theorem Value.set_pads_array_of_one :
    let memory : Memory := { arrays := #[#[.bool true]], objects := #[], documents := #[] }
    let sets : List Sent :=
      [⟨.array 0, .set, [.text "2", .text "c"]⟩, ⟨.array 0, .set, [.number 10003.0, .text "z"]⟩,
        ⟨.array 0, .set, [.number 0.5, .text "d"]⟩, ⟨.array 1, .set, [.number 0.0, .text "e"]⟩]
    memory.cell? (.array 0) = some (.items #[.bool true]) ∧
    Means (.text "+02") 2 ∧ Means (.number (-0.0)) 0 ∧
    (∃ later written, (Value.array 0).send .set [.text "2", .text "c"] memory = (.ok (.text "c"), later) ∧
      later.cell? (.array 0) = some (.items written) ∧ Row.of written = (Row.of #[.bool true]).put 2 (.text "c")) ∧
    (Value.array 0).send .set [.number 10002.0, .text "z"] memory =
      (.error (.typeMismatch .index .array .number), memory) ∧
    (Value.array 0).send .get [.number 1.0] memory = (.ok .empty, memory) ∧
    (∃ later, (memory.afterAll sets).cell? (.array 0) = some (.items later) ∧
      Row.of later = ((Row.of #[.bool true]).put 2 (.text "c")).put 10003 (.text "z")) ∧
    ((Value.array 0).send .get [.text "3"] (memory.afterAll sets)).1 = .ok .empty := by
  intro memory sets
  have holds : memory.cell? (.array 0) = some (.items #[.bool true]) := rfl
  obtain ⟨means, writes, reads, runs⟩ := set_pads_array holds
  have second : Means (.text "2") 2 := (means _ 2).mp (by decide)
  have third : Means (.text "3") 3 := (means _ 3).mp (by decide)
  obtain ⟨later, written, answered, -, after, row, -⟩ := (writes (.text "2") (.text "c") []).1 2 second (by decide)
  have far : ∀ position, Means (.number 10002.0) position → 1 + 10000 < position := by
    intro position found
    have read : position? (.number 10002.0) = some 10002 := by decide
    cases read.symm.trans ((means _ position).mpr found)
    decide
  have beyond : ∀ position, Means (.number 1.0) position → 1 ≤ position := by
    intro position found
    have read : position? (.number 1.0) = some 1 := by decide
    cases read.symm.trans ((means _ position).mpr found)
    decide
  have row_sets : sets.foldl (Row.hear 0) (Row.of #[.bool true]) =
      ((Row.of #[.bool true]).put 2 (.text "c")).put 10003 (.text "z") := rfl
  have zero : Means (.number (-0.0)) 0 :=
    .number (b := ⟨true, 0, -1074⟩) (by decide) (by simp [Decimal.Binary.value, Decimal.Binary.signed])
  refine ⟨holds, (means _ 2).mp (by decide), zero, ⟨later, written, answered, after, row⟩,
    (writes _ (.text "z") []).2 far, reads _ [] beyond, ?_, ?_⟩
  · rw [← row_sets]
    exact (runs sets).1
  · rw [(runs sets).2 _ 3 [] third, row_sets]
    rfl

end RuleScript
