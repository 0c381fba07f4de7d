import RuleScript.Instruction.Size

/-! The parts of an instruction, and what stands anywhere in it. -/

set_option autoImplicit false

namespace RuleScript.Instruction

/-- The instructions that stand directly in an instruction, in the order in which they are written. -/
def parts : Instruction → List Instruction
  | block items | array items | access _ items => items
  | nest value | negation value | declaration _ value | assignment _ value => [value]
  | choice test ok fail => [test, ok, fail]
  | branch test ok fail => test :: ok :: fail.toList
  | fold _ first operands => first :: operands.map Prod.snd
  | compare left right _ => [left, right]
  | result value | translate _ value => value.toList
  | object members => members.map Prod.snd
  | loop _ list body => [list, body]
  | range first last => [first, last]
  | function _ _ body | each _ body => [body]
  | number _ | text _ | truth _ | date _ | dateTime _ | stop | scope => []

theorem sizeOf_lt_of_mem_pairs {pairs : List (String × Instruction)} {part : Instruction}
    (member : part ∈ pairs.map Prod.snd) : sizeOf part < sizeOf pairs := by
  obtain ⟨pair, inside, rfl⟩ := List.mem_map.mp member
  calc sizeOf pair.2 < sizeOf pair := by cases pair; simp only [Prod.mk.sizeOf_spec]; omega
    _ < sizeOf pairs := List.sizeOf_lt_of_mem inside

theorem sizeOf_part {instruction part : Instruction} (member : part ∈ instruction.parts) :
    sizeOf part < sizeOf instruction := by
  cases instruction with
  | block items | array items | access _ items =>
    have inside : part ∈ items := member
    have := List.sizeOf_lt_of_mem inside
    simp only [block.sizeOf_spec, array.sizeOf_spec, access.sizeOf_spec]
    omega
  | object members =>
    have := sizeOf_lt_of_mem_pairs member
    simp only [object.sizeOf_spec]
    omega
  | fold kind first operands =>
    simp only [fold.sizeOf_spec]
    rcases List.mem_cons.mp member with rfl | inside
    · omega
    · have := sizeOf_lt_of_mem_pairs inside
      omega
  | branch _ _ part | result part | translate _ part => cases part <;> grind [parts]
  | _ => grind [parts]

@[elab_as_elim]
theorem parts_induction {motive : Instruction → Prop}
    (step : ∀ instruction, (∀ part ∈ instruction.parts, motive part) → motive instruction)
    (instruction : Instruction) : motive instruction :=
  step instruction fun part _ => parts_induction step part
termination_by sizeOf instruction
decreasing_by exact sizeOf_part ‹_›

inductive Contains : Instruction → Instruction → Prop where
  | self {instruction : Instruction} : Contains instruction instruction
  | part {instruction part inner : Instruction} (member : part ∈ instruction.parts)
      (inside : Contains part inner) : Contains instruction inner

theorem Contains.cases_parts {instruction inner : Instruction} (inside : instruction.Contains inner) :
    inner = instruction ∨ ∃ part ∈ instruction.parts, part.Contains inner := by
  cases inside with
  | self => exact .inl rfl
  | part member inside => exact .inr ⟨_, member, inside⟩

end RuleScript.Instruction
