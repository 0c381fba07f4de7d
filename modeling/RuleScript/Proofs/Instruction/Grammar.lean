import RuleScript.Proofs.Decimal.Literal
import RuleScript.Proofs.Instruction.Building

/-! The trees that are programs.

The grammar speaks about host data only. It says which objects are instructions of a kind, and a tree is a
program when its root has the form of one and every object with a type, however deep, is well formed.
-/

set_option autoImplicit false

namespace RuleScript

/-- The names of a kind in a tree: its own name, or that with one suffix. -/
def Kind.IsWritten (kind : Kind) (written : String) : Prop :=
  written = kind.name ∨ written = kind.name ++ "Instruction"

namespace Json

def IsTyped (tree : Json) : Prop :=
  ∃ members type, tree = .object members ∧ Fields.get? members "type" = some type

def IsListOf (Item : Json → Prop) (tree : Json) : Prop :=
  ∃ items, tree = .array items ∧ ∀ item ∈ items, Item item

def IsText (tree : Json) : Prop :=
  ∃ text, tree = .string text

def IsNumeric (tree : Json) : Prop :=
  (∃ value, tree.number? = some value) ∨ ∃ text, tree = .string text ∧
    (Decimal.IsLiteral (Text.trim text.toList) ∨ Decimal.IsWord (Text.trim text.toList))

/-- An untyped object with a text under `label` and a typed object under `value`. -/
def IsPair (label : String) (tree : Json) : Prop :=
  ∃ members, tree = .object members ∧ Fields.get? members "type" = none ∧
    (∃ name, Fields.get? members label = some name ∧ name.IsText) ∧
    ∃ value, Fields.get? members "value" = some value ∧ value.IsTyped

/-- The trees in a tree, itself among them. The content of a `type` key is a name and no tree. -/
inductive Inside (part : Json) : Json → Prop where
  | self : Inside part part
  | item {item : Json} {items : List Json} (listed : item ∈ items) (inside : Inside part item) :
      Inside part (.array items)
  | member {member : String × Json} {members : List (String × Json)} (listed : member ∈ members)
      (key : member.1 ≠ "type") (inside : Inside part member.2) : Inside part (.object members)

end Json

def Shape.Accepts : Shape → Json → Prop
  | .instruction => Json.IsTyped
  | .optionalInstruction => Json.IsTyped
  | .instructions => Json.IsListOf Json.IsTyped
  | .number => Json.IsNumeric
  | .text => Json.IsText
  | .textOr _ => Json.IsText
  | .names => Json.IsListOf Json.IsText
  | .pairs label => Json.IsListOf (Json.IsPair label)

def Shape.Required (shape : Shape) : Prop :=
  shape = .instruction ∨ shape = .number ∨ shape = .text

structure Kind.Describes (kind : Kind) (members : List (String × Json)) : Prop where
  named : ∃ written, Fields.get? members "type" = some (.string written) ∧ kind.IsWritten written
  declared : ∀ member ∈ members, member.1 = "type" ∨ ∃ field ∈ kind.fields, field.name = member.1
  present : ∀ field ∈ kind.fields, field.shape.Required →
    ∃ value, Fields.get? members field.name = some value ∧ value ≠ .null
  shaped : ∀ field ∈ kind.fields, ∀ value, Fields.get? members field.name = some value →
    value ≠ .null → field.shape.Accepts value

/-- Every typed object in a tree is an instruction of some kind. -/
def Json.IsWellFormed (tree : Json) : Prop :=
  ∀ members type, (Json.object members).Inside tree → Fields.get? members "type" = some type →
    ∃ kind : Kind, kind.Describes members

/-- A typed object or a list of typed objects. -/
def Json.IsRoot (tree : Json) : Prop :=
  tree.IsTyped ∨ tree.IsListOf Json.IsTyped

namespace Kind

theorem mem_all (kind : Kind) : kind ∈ all := by
  cases kind <;> decide

theorem name_injective {kind other : Kind} (same : kind.name = other.name) : kind = other := by
  have distinct : ∀ first ∈ all, ∀ second ∈ all, first.name = second.name → first = second := by
    decide +kernel
  exact distinct kind kind.mem_all other other.mem_all same

theorem name_plain (kind : Kind) : suffix.isSuffixOf kind.name.toList = false := by
  have plain : ∀ kind ∈ all, suffix.isSuffixOf kind.name.toList = false := by decide +kernel
  exact plain kind kind.mem_all

theorem field_ne_type {kind : Kind} {field : Field} (of : field ∈ kind.fields) :
    field.name ≠ "type" := by
  have apart : ∀ kind ∈ all, ∀ field ∈ kind.fields, field.name ≠ "type" := by decide +kernel
  exact apart kind kind.mem_all field of

theorem bareName_of_plain {written : String}
    (plain : suffix.isSuffixOf written.toList = false) : bareName written = written := by
  simp [bareName, plain]

theorem toList_suffixed (name : String) :
    (name ++ "Instruction").toList = name.toList ++ suffix :=
  String.toList_append

theorem bareName_append (name : String) : bareName (name ++ "Instruction") = name := by
  have ends : suffix.isSuffixOf (name.toList ++ suffix) = true :=
    List.isSuffixOf_iff_suffix.mpr (List.suffix_append _ _)
  rw [bareName, toList_suffixed, if_pos ends, List.length_append, Nat.add_sub_cancel,
    List.take_left, String.ofList_toList]

theorem eq_bareName (written : String) :
    written = bareName written ∨ written = bareName written ++ "Instruction" := by
  cases ends : suffix.isSuffixOf written.toList with
  | false => exact .inl (bareName_of_plain ends).symm
  | true =>
    obtain ⟨front, same⟩ := List.isSuffixOf_iff_suffix.mp ends
    have suffixed : written = String.ofList front ++ "Instruction" := by
      rw [String.ext_iff, toList_suffixed, String.toList_ofList, same]
    exact .inr (by rw [suffixed, bareName_append])

theorem ofName?_eq_some {written : String} {kind : Kind} :
    ofName? written = some kind ↔ kind.IsWritten written := by
  have bare : ofName? written = some kind ↔ kind.name = bareName written := by
    constructor
    · intro found
      simpa using List.find?_some found
    · intro same
      cases found : ofName? written with
      | none => exact absurd same (by simpa using List.find?_eq_none.mp found kind kind.mem_all)
      | some other =>
        have named : other.name = bareName written := by simpa using List.find?_some found
        rw [name_injective (named.trans same.symm)]
  -- A kind's own name never ends in the suffix, so both ways of writing it come down to the bare name.
  rw [bare]
  constructor
  · intro same
    rw [IsWritten, same]
    exact eq_bareName written
  · rintro (rfl | rfl)
    · exact (bareName_of_plain kind.name_plain).symm
    · exact (bareName_append kind.name).symm

end Kind

namespace Node

theorem instruction?_isSome {tree : Json} {node : Node} (built : Builds tree node) :
    node.instruction?.isSome ↔ tree.IsTyped := by
  cases built with
  | instruction typed => simp [instruction?, Json.IsTyped, typed]
  | record untyped => simp [instruction?, Json.IsTyped, untyped]
  | _ => simp [instruction?, Json.IsTyped]

theorem text?_isSome {tree : Json} {node : Node} (built : Builds tree node) :
    node.text?.isSome ↔ tree.IsText := by
  cases built <;> simp [text?, Json.IsText]

theorem number?_isSome {tree : Json} {node : Node} (built : Builds tree node) :
    node.number?.isSome ↔ tree.IsNumeric := by
  cases built with
  | string value => simp [number?, Json.IsNumeric, Json.number?, Decimal.readFloat?_isSome]
  | _ => simp [number?, Json.IsNumeric, Json.number?]

theorem eq_null_iff {tree : Json} {node : Node} (built : Builds tree node) :
    node = .null ↔ tree = .null := by
  cases built <;> simp

theorem mapM_isSome {α β : Type} (item? : α → Option β) (items : List α) :
    (items.mapM item?).isSome ↔ ∀ item ∈ items, (item? item).isSome := by
  induction items with
  | nil => simp
  | cons item rest ih =>
    rw [List.mapM_cons, List.forall_mem_cons, ← ih]
    cases item? item <;> cases rest.mapM item? <;> simp

theorem mapM_isSome_of_built {α : Type} {item? : Node → Option α} {Item : Json → Prop}
    (each : ∀ {tree node}, Builds tree node → ((item? node).isSome ↔ Item tree))
    {items : List Json} {nodes : List Node}
    (built : List.Forall₂ (fun item node => build item = .ok node) items nodes) :
    (nodes.mapM item?).isSome ↔ ∀ item ∈ items, Item item := by
  rw [mapM_isSome]
  induction built with
  | nil => simp
  | cons first _ ih => simp [each (build_ok.mp first), ih]

theorem listOf?_isSome {α : Type} {item? : Node → Option α} {Item : Json → Prop}
    (each : ∀ {tree node}, Builds tree node → ((item? node).isSome ↔ Item tree))
    {tree : Json} {node : Node} (built : Builds tree node) :
    (node.listOf? item?).isSome ↔ tree.IsListOf Item := by
  cases built with
  | array built => simp [listOf?, Json.IsListOf, mapM_isSome_of_built each built]
  | _ => simp [listOf?, Json.IsListOf]

theorem Built.get? {members : List (String × Json)} {nodes : List (String × Node)}
    (built : Built members nodes) (key : String) :
    Option.Rel (fun value node => build value = .ok node) (Fields.get? members key)
      (Fields.get? nodes key) := by
  induction built with
  | nil => exact .none
  | @cons member node _ _ first _ ih =>
    obtain ⟨name, value⟩ := member
    obtain ⟨_, node⟩ := node
    obtain ⟨rfl, first⟩ := first
    by_cases same : name = key
    · simpa [Fields.get?, same] using Option.Rel.some first
    · simpa [Fields.get?, same] using ih

theorem Built.bind_isSome {α : Type} {item? : Node → Option α} {Item : Json → Prop}
    (each : ∀ {tree node}, Builds tree node → ((item? node).isSome ↔ Item tree))
    {members : List (String × Json)} {nodes : List (String × Node)}
    (built : Built members nodes) (key : String) :
    ((Fields.get? nodes key).bind item?).isSome ↔
      ∃ value, Fields.get? members key = some value ∧ Item value := by
  have same := built.get? key
  generalize Fields.get? members key = value at same ⊢
  generalize Fields.get? nodes key = node at same ⊢
  cases same with
  | none => simp
  | some built => simp [each (build_ok.mp built)]

theorem pair?_record_isSome (label : String) (nodes : List (String × Node)) :
    ((record nodes).pair? label).isSome ↔ ((Fields.get? nodes label).bind text?).isSome ∧
      ((Fields.get? nodes "value").bind instruction?).isSome := by
  simp only [pair?]
  cases (Fields.get? nodes label).bind text? <;>
    cases (Fields.get? nodes "value").bind instruction? <;> simp

theorem pair?_isSome (label : String) {tree : Json} {node : Node} (built : Builds tree node) :
    (node.pair? label).isSome ↔ tree.IsPair label := by
  cases built with
  | record untyped built =>
    have text := built.bind_isSome text?_isSome label
    have value := built.bind_isSome instruction?_isSome "value"
    simp [pair?_record_isSome, text, value, Json.IsPair, untyped]
  | instruction typed => simp [pair?, Json.IsPair, typed]
  | _ => simp [pair?, Json.IsPair]

end Node

/-- A field takes a node exactly if its shape accepts the tree that the node is built from. -/
theorem Shape.content?_isSome (shape : Shape) {tree : Json} {node : Node}
    (built : Node.Builds tree node) : (shape.content? node).isSome ↔ shape.Accepts tree := by
  cases shape with
  | instruction => exact Node.instruction?_isSome built
  | optionalInstruction =>
    change (node.instruction?.map (some : Instruction → Option Instruction)).isSome ↔ _
    rw [Option.isSome_map]
    exact Node.instruction?_isSome built
  | instructions => exact Node.listOf?_isSome Node.instruction?_isSome built
  | number => exact Node.number?_isSome built
  | text => exact Node.text?_isSome built
  | textOr default => exact Node.text?_isSome built
  | names => exact Node.listOf?_isSome Node.text?_isSome built
  | pairs label => exact Node.listOf?_isSome (Node.pair?_isSome label) built

theorem Shape.absent?_isSome (shape : Shape) : shape.absent?.isSome ↔ ¬shape.Required := by
  cases shape <;> simp [absent?, Required] <;> rfl

theorem Field.read_ok (instruction : String) (values : Fields Node) (field : Field) :
    (∃ content, field.read instruction values = .ok content) ↔
      match present? (Fields.get? values field.name) with
      | none => ¬field.shape.Required
      | some node => (field.shape.content? node).isSome := by
  unfold Field.read
  cases present? (Fields.get? values field.name) with
  | none =>
    rw [← Shape.absent?_isSome]
    cases field.shape.absent? <;> simp
  | some node =>
    simp only
    cases field.shape.content? node <;> simp

/-- A field of an instruction can be read exactly if it is there where it must be, and has its shape. -/
theorem Field.read_ok_of_built (instruction : String) {members : List (String × Json)}
    {values : List (String × Node)} (built : Node.Built (Node.fieldMembers members) values)
    {field : Field} (plain : field.name ≠ "type") :
    (∃ content, field.read instruction values = .ok content) ↔
      (field.shape.Required →
        ∃ value, Fields.get? members field.name = some value ∧ value ≠ .null) ∧
      ∀ value, Fields.get? members field.name = some value → value ≠ .null →
        field.shape.Accepts value := by
  have same := built.get? field.name
  rw [Node.fieldMembers, Fields.get?_filter_of_keeps (by simp [plain])] at same
  rw [Field.read_ok]
  generalize Fields.get? members field.name = value at same ⊢
  generalize Fields.get? values field.name = node at same ⊢
  cases same with
  | none => simp [present?]
  | @some value node built =>
    -- A null builds the null node and nothing else does, so both sides take it for absent.
    have builds := Node.build_ok.mp built
    by_cases null : value = .null
    · obtain rfl := (Node.eq_null_iff builds).mpr null
      simp [present?, null]
    · have there : present? (some node) = some node := by
        have : node ≠ .null := fun same => null ((Node.eq_null_iff builds).mp same)
        cases node <;> simp_all [present?]
      simp [there, null, field.shape.content?_isSome builds]

theorem Contents.read_ok (instruction : String) (values : Fields Node) (fields : List Field) :
    (∃ contents, Contents.read instruction values fields = .ok contents) ↔
      ∀ field ∈ fields, ∃ content, field.read instruction values = .ok content := by
  induction fields with
  | nil => exact ⟨fun _ => by simp, fun _ => ⟨(), rfl⟩⟩
  | cons field rest ih =>
    rw [List.forall_mem_cons, ← ih, Contents.read]
    cases field.read instruction values with
    | error e => simp
    | ok content =>
      cases Contents.read instruction values rest with
      | error e => simp
      | ok contents => exact ⟨fun _ => ⟨⟨content, rfl⟩, contents, rfl⟩, fun _ => ⟨_, rfl⟩⟩

theorem Kind.declares_iff {kind : Kind} {members : List (String × Json)} :
    (∀ member ∈ Node.fieldMembers members, kind.declares member.1 = true) ↔
      ∀ member ∈ members, member.1 = "type" ∨ ∃ field ∈ kind.fields, field.name = member.1 := by
  simp [Node.fieldMembers, declares, or_iff_not_imp_left]

/-- The reader makes an instruction of a kind exactly from the members that describe the kind. -/
theorem Kind.describes_iff {kind : Kind} {name : String} {members : List (String × Json)}
    {values : List (String × Node)} (typed : Fields.get? members "type" = some (.string name))
    (built : Node.Built (Node.fieldMembers members) values) :
    kind.Describes members ↔ ofName? name = some kind ∧
      (∀ member ∈ Node.fieldMembers members, kind.declares member.1 = true) ∧
        ∃ contents, Contents.read name values kind.fields = .ok contents := by
  rw [ofName?_eq_some, declares_iff, Contents.read_ok]
  constructor
  · rintro ⟨⟨written, same, named⟩, declared, present, shaped⟩
    obtain rfl : name = written := by simpa [typed] using same
    exact ⟨named, declared, fun field of =>
      (field.read_ok_of_built name built (field_ne_type of)).mpr ⟨present field of, shaped field of⟩⟩
  · rintro ⟨named, declared, read⟩
    have reads (field : Field) (of : field ∈ kind.fields) :=
      (field.read_ok_of_built name built (field_ne_type of)).mp (read field of)
    exact ⟨⟨name, typed, named⟩, declared, fun field of => (reads field of).1,
      fun field of => (reads field of).2⟩

namespace Node

theorem exists_forall₂ {α β : Type} {R : α → β → Prop} {items : List α} :
    (∃ others, List.Forall₂ R items others) ↔ ∀ item ∈ items, ∃ other, R item other := by
  induction items with
  | nil => simp
  | cons item rest ih =>
    rw [List.forall_mem_cons, ← ih]
    constructor
    · rintro ⟨_, _ | ⟨first, more⟩⟩
      exact ⟨⟨_, first⟩, _, more⟩
    · rintro ⟨⟨other, first⟩, others, more⟩
      exact ⟨other :: others, .cons first more⟩

theorem exists_built {members : List (String × Json)} :
    (∃ nodes, Built members nodes) ↔ ∀ member ∈ members, ∃ node, build member.2 = .ok node := by
  simp only [Built, exists_forall₂]
  refine forall₂_congr fun member _ => ?_
  constructor
  · rintro ⟨⟨_, node⟩, _, built⟩
    exact ⟨node, built⟩
  · rintro ⟨node, built⟩
    exact ⟨(member.1, node), rfl, built⟩

theorem fieldMembers_of_untyped {members : List (String × Json)}
    (untyped : Fields.get? members "type" = none) : fieldMembers members = members := by
  induction members with
  | nil => rfl
  | cons member rest ih =>
    obtain ⟨key, value⟩ := member
    by_cases type : key = "type"
    · simp [Fields.get?, type] at untyped
    · have tail : Fields.get? rest "type" = none := by simpa [Fields.get?, type] using untyped
      simpa [fieldMembers, type] using ih tail

theorem buildable_array {items : List Json} :
    (∃ node, build (.array items) = .ok node) ↔ ∀ item ∈ items, ∃ node, build item = .ok node := by
  rw [← exists_forall₂]
  constructor
  · rintro ⟨node, read⟩
    cases build_ok.mp read with
    | array built => exact ⟨_, built⟩
  · rintro ⟨nodes, built⟩
    exact ⟨_, build_ok.mpr (.array built)⟩

theorem buildable_object {members : List (String × Json)} :
    (∃ node, build (.object members) = .ok node) ↔
      (∀ type, Fields.get? members "type" = some type → ∃ kind : Kind, kind.Describes members) ∧
        ∀ member ∈ fieldMembers members, ∃ node, build member.2 = .ok node := by
  rw [← exists_built]
  constructor
  · rintro ⟨node, read⟩
    cases build_ok.mp read with
    | record untyped built =>
      rw [fieldMembers_of_untyped untyped]
      exact ⟨by simp [untyped], _, built⟩
    | instruction typed named declared built filled =>
      have describes := (Kind.describes_iff typed built).mpr ⟨named, declared, _, filled⟩
      exact ⟨fun _ _ => ⟨_, describes⟩, _, built⟩
  · rintro ⟨describes, nodes, built⟩
    cases type : Fields.get? members "type" with
    | none =>
      rw [fieldMembers_of_untyped type] at built
      exact ⟨_, build_ok.mpr (.record type built)⟩
    | some value =>
      obtain ⟨kind, describes⟩ := describes value type
      obtain ⟨name, typed, -⟩ := describes.named
      obtain ⟨named, declared, contents, filled⟩ := (Kind.describes_iff typed built).mp describes
      exact ⟨_, build_ok.mpr (.instruction typed named declared built filled)⟩

end Node

namespace Json

theorem isWellFormed_array {items : List Json} :
    (array items).IsWellFormed ↔ ∀ item ∈ items, item.IsWellFormed := by
  constructor
  · exact fun wellFormed item listed members type inside =>
      wellFormed members type (.item listed inside)
  · intro wellFormed members type inside
    cases inside with
    | item listed inside => exact wellFormed _ listed members type inside

theorem isWellFormed_object {members : List (String × Json)} :
    (object members).IsWellFormed ↔
      (∀ type, Fields.get? members "type" = some type → ∃ kind : Kind, kind.Describes members) ∧
        ∀ member ∈ Node.fieldMembers members, member.2.IsWellFormed := by
  constructor
  · refine fun wellFormed => ⟨fun type => wellFormed members type .self, ?_⟩
    intro member of parts type inside
    obtain ⟨listed, key⟩ : member ∈ members ∧ member.1 ≠ "type" := by
      simpa [Node.fieldMembers] using of
    exact wellFormed parts type (.member listed key inside)
  · rintro ⟨describes, wellFormed⟩ parts type inside
    cases inside with
    | self => exact describes type
    | member listed key inside =>
      exact wellFormed _ (by simp [Node.fieldMembers, listed, key]) parts type inside

/-- A tree can be read exactly if all its typed objects are well formed. -/
theorem buildable_iff (tree : Json) :
    (∃ node, Node.build tree = .ok node) ↔ tree.IsWellFormed := by
  induction tree using tree_induction with
  -- Objects and arrays can be read if their parts can; in an object the members describe a kind besides.
  | array items ih =>
    rw [Node.buildable_array, isWellFormed_array]
    exact forall₂_congr ih
  | object members ih =>
    rw [Node.buildable_object, isWellFormed_object]
    refine and_congr_right fun _ => forall₂_congr fun member of => ih member ?_
    exact List.mem_of_mem_filter of
  | null | bool | integer | float | string =>
    refine iff_of_true ⟨_, rfl⟩ fun members type inside => ?_
    cases inside

end Json

namespace Instruction

theorem compile_ok_of_build {tree : Json} {node : Node} (read : Node.build tree = .ok node) :
    (∃ instruction, compile tree = .ok instruction) ↔ tree.IsRoot := by
  cases Node.build_ok.mp read with
  | instruction typed => simp [compile, read, Json.IsRoot, Json.IsTyped, typed]
  | record untyped => simp [compile, read, Json.IsRoot, Json.IsTyped, Json.IsListOf, untyped]
  | array built =>
    have typed := Node.mapM_isSome_of_built Node.instruction?_isSome built
    simp only [compile, read, Json.IsRoot, Json.IsListOf]
    cases lines : List.mapM Node.instruction? _ with
    | none => simp_all [Json.IsTyped]
    | some lines => simp_all
  | _ => simp [compile, read, Json.IsRoot, Json.IsTyped, Json.IsListOf]

/-- The programs are the well-formed trees with an instruction or a list of instructions at the root. -/
theorem compile_ok_iff (tree : Json) :
    (∃ instruction, compile tree = .ok instruction) ↔ tree.IsRoot ∧ tree.IsWellFormed := by
  rw [← Json.buildable_iff]
  constructor
  · rintro ⟨instruction, compiled⟩
    cases read : Node.build tree with
    | error e => simp [compile, read] at compiled
    | ok node => exact ⟨(compile_ok_of_build read).mp ⟨instruction, compiled⟩, node, rfl⟩
  · rintro ⟨root, node, read⟩
    exact (compile_ok_of_build read).mpr root

end Instruction

end RuleScript
