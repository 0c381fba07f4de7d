import Mathlib
import RuleScript.Library.Standard
import RuleScript.Proofs.Value.Handles

/-! Joining the texts of items.

`CONCAT` starts from its first item as `STRING` gives it and adds the others. What is added to a text is added as text,
whatever it is. A first item of no text counts as missing data, and then so does the answer: nothing can be added to missing
data.
-/

set_option autoImplicit false

namespace RuleScript

namespace Standard

def textsOf (memory : Memory) (items : List Value) : String :=
  String.join (items.map (Value.toText memory))

def StartsBlank (memory : Memory) (items : List Value) : Prop :=
  ∃ head, items.head? = some head ∧ head.toText memory = ""

instance (memory : Memory) (items : List Value) : Decidable (StartsBlank memory items) :=
  match items with
  | [] => .isFalse (by simp [StartsBlank])
  | head :: _ => decidable_of_iff (head.toText memory = "") (by simp [StartsBlank])

variable {memory : Memory} {head : Value} {items rest first second : List Value}

theorem startsBlank_cons : StartsBlank memory (head :: rest) ↔ head.toText memory = "" := by
  simp [StartsBlank]

theorem not_startsBlank_nil : ¬ StartsBlank memory [] := by
  simp [StartsBlank]

@[simp]
theorem textsOf_nil : textsOf memory [] = "" :=
  rfl

@[simp]
theorem textsOf_cons : textsOf memory (head :: rest) = head.toText memory ++ textsOf memory rest := by
  simp [textsOf]

@[simp]
theorem textsOf_append : textsOf memory (first ++ second) = textsOf memory first ++ textsOf memory second := by
  simp [textsOf]

theorem add_text (s : String) (value : Value) (memory : Memory) :
    (Value.text s).add value memory = (.ok (.text (s ++ value.toText memory)), memory) :=
  rfl

theorem addAll_text (s : String) (items : List Value) (memory : Memory) :
    addAll (.text s) items memory = (.ok (.text (s ++ textsOf memory items)), memory) := by
  induction items generalizing s with
  | nil =>
    rw [textsOf_nil, String.append_empty]
    rfl
  | cons next rest ih => rw [addAll, Action.bind_apply, add_text, textsOf_cons, ← String.append_assoc, ← ih]

theorem addAll_empty (items : List Value) (memory : Memory) :
    addAll .empty items memory = (.ok .empty, memory) := by
  induction items with
  | nil => rfl
  | cons next rest ih => exact ih

/-- The texts of items as one text, but missing data if the first item has no text. -/
def joined (memory : Memory) (items : List Value) : Value :=
  if StartsBlank memory items then .empty else .text (textsOf memory items)

theorem joined_toText :
    (joined memory items).toText memory = if StartsBlank memory items then "" else textsOf memory items := by
  rw [joined]
  split <;> rfl

theorem addAll_toString (head : Value) (rest : List Value) (memory : Memory) :
    addAll (toString memory head) rest memory = (.ok (joined memory (head :: rest)), memory) := by
  by_cases blank : head.toText memory = ""
  · have starts : StartsBlank memory (head :: rest) := startsBlank_cons.mpr blank
    rw [joined, if_pos starts, toString, blank]
    exact addAll_empty rest memory
  · have starts : ¬ StartsBlank memory (head :: rest) := mt startsBlank_cons.mp blank
    have text : toString memory head = .text (head.toText memory) := by simp [toString, blank]
    rw [joined, if_neg starts, text, addAll_text, textsOf_cons]

theorem call_concat (clock : Clock) (memory : Memory) (place : Nat) (others : List Value) :
    call clock .concat (.array place :: others) memory = (.ok (joined memory (memory.items place).toList), memory) := by
  change (match (memory.items place).toList with
    | [] => (pure (.text "") : Action Value)
    | head :: rest => addAll (toString memory head) rest) memory = _
  cases (memory.items place).toList with
  | nil => rw [joined, if_neg not_startsBlank_nil]; rfl
  | cons head rest => exact addAll_toString head rest memory

/-- Two lists in one have the two texts in one, unless one list alone loses its texts. -/
theorem joined_append_toText_iff :
    (joined memory (first ++ second)).toText memory =
        (joined memory first).toText memory ++ (joined memory second).toText memory ↔
      first = [] ∨ textsOf memory second = "" ∨ (StartsBlank memory first ↔ StartsBlank memory second) := by
  cases first with
  | nil => simp [joined_toText, not_startsBlank_nil]
  | cons head rest =>
    simp only [joined_toText, List.cons_append, startsBlank_cons, textsOf_cons, textsOf_append]
    by_cases left : head.toText memory = ""
    · -- The whole has no text, so the second list may have none on its own.
      by_cases right : StartsBlank memory second <;> simp [left, right, @eq_comm _ ""]
    · by_cases right : StartsBlank memory second
      · -- On its own the second list has no text, so it may have none in the whole.
        simp [left, right, ← String.append_assoc]
      · simp [left, right, String.append_assoc]

/-- `CONCAT` joins the texts of all items of an array in order, whatever they are, and no item at all gives the empty text.
If the first item has no text, it answers with missing data instead.

So the items of two arrays one after another have the texts of the two arrays one after another exactly if the first array
has no items, the second has no text at all, or both or neither of them start with an item of no text. -/
theorem concat_joins_texts (clock : Clock) (memory : Memory) (place : Nat) (others : List Value) :
    call clock .concat (.array place :: others) memory =
      (.ok (if StartsBlank memory (memory.items place).toList then .empty
        else .text (textsOf memory (memory.items place).toList)), memory) ∧
    ∀ first second, (memory.items place).toList = (memory.items first).toList ++ (memory.items second).toList →
      ∃ whole left right, call clock .concat [.array place] memory = (.ok whole, memory) ∧
        call clock .concat [.array first] memory = (.ok left, memory) ∧
        call clock .concat [.array second] memory = (.ok right, memory) ∧
        (whole.toText memory = left.toText memory ++ right.toText memory ↔
          (memory.items first).toList = [] ∨ textsOf memory (memory.items second).toList = "" ∨
            (StartsBlank memory (memory.items first).toList ↔ StartsBlank memory (memory.items second).toList)) := by
  refine ⟨call_concat clock memory place others, fun first second split => ?_⟩
  refine ⟨_, _, _, call_concat clock memory place [], call_concat clock memory first [],
    call_concat clock memory second [], ?_⟩
  rw [split]
  exact joined_append_toText_iff

/-- A text and an array that holds itself, joined and split in two. -/
theorem concat_joins_texts_in_circles :
    let memory : Memory := ⟨#[#[.text "a", .empty, .array 0], #[.text "a"], #[.empty, .array 0]], #[], #[]⟩
    let clock : Clock := ⟨"2024-01-01", none⟩
    call clock .concat [.array 0] memory = (.ok (.text "a[\"a\",null,null]"), memory) ∧
    ∃ whole left right, call clock .concat [.array 0] memory = (.ok whole, memory) ∧
      call clock .concat [.array 1] memory = (.ok left, memory) ∧
      call clock .concat [.array 2] memory = (.ok right, memory) ∧
      whole.toText memory ≠ left.toText memory ++ right.toText memory := by
  intro memory clock
  obtain ⟨answer, parts⟩ := concat_joins_texts clock memory 0 []
  obtain ⟨whole, left, right, first, second, third, texts⟩ := parts 1 2 rfl
  refine ⟨answer.trans ?_, whole, left, right, first, second, third, fun same => ?_⟩
  · cbv
  · have := texts.mp same
    revert this
    decide

/-- An item of no text in front hides the texts behind it; the same items in another order are joined. -/
theorem concat_hides_texts :
    let memory : Memory := ⟨#[#[.text "", .text "a"], #[.text "a", .text ""], #[.empty]], #[], #[]⟩
    let clock : Clock := ⟨"2024-01-01", none⟩
    call clock .concat [.array 0] memory = (.ok .empty, memory) ∧
    call clock .concat [.array 1] memory = (.ok (.text "a"), memory) ∧
    call clock .concat [.array 2] memory = (.ok .empty, memory) :=
  ⟨rfl, rfl, rfl⟩

end Standard

end RuleScript
