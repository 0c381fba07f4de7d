import RuleScript.Proofs.Instruction.Grammar
import RuleScript.Proofs.Instruction.Parts

/-! Writing programs as trees.

An instruction is written as an object that names its kind and holds its parts under the fields of the kind. What
has been written is read back as it was.
-/

set_option autoImplicit false

namespace RuleScript

def Json.typed (kind : Kind) (members : List (String × Json)) : Json :=
  .object (("type", .string kind.name) :: members)

namespace Instruction

mutual

/-- The tree of an instruction. A part that may be missing is left out if it is. -/
def render : Instruction → Json
  | block lines => .typed .block [("lines", .array (renderAll lines))]
  | number value => .typed .number [("value", .float value)]
  | text value => .typed .text [("value", .string value)]
  | truth true => .typed .truth []
  | truth false => .typed .falsehood []
  | date value => .typed .date [("value", .string value)]
  | dateTime value => .typed .dateTime [("value", .string value)]
  | nest value => .typed .nest [("value", value.render)]
  | negation value => .typed .negation [("value", value.render)]
  | choice test ok fail => .typed .choice [("test", test.render), ("ok", ok.render), ("fail", fail.render)]
  | branch test ok fail =>
    .typed .branch ([("test", test.render), ("ok", ok.render)] ++ renderOption "fail" fail)
  | array items => .typed .array [("list", .array (renderAll items))]
  | fold .arithmetic first operands =>
    .typed .arithmetic [("init", first.render), ("list", .array (renderPairs "operator" operands))]
  | fold .conjunction first operands =>
    .typed .conjunction [("init", first.render), ("list", .array (renderPairs "operator" operands))]
  | fold .disjunction first operands =>
    .typed .disjunction [("init", first.render), ("list", .array (renderPairs "operator" operands))]
  | compare left right operator =>
    .typed .compare [("a", left.render), ("b", right.render), ("operator", .string operator)]
  | declaration name value => .typed .declaration [("name", .string name), ("value", value.render)]
  | assignment name value => .typed .assignment [("id", .string name), ("value", value.render)]
  | result value => .typed .result (renderOption "value" value)
  | stop => .typed .stop []
  | object members => .typed .object [("members", .array (renderPairs "name" members))]
  | scope => .typed .scope []
  | access .get arguments => .typed .get [("args", .array (renderAll arguments))]
  | access .set arguments => .typed .set [("args", .array (renderAll arguments))]
  | access .call arguments => .typed .call [("args", .array (renderAll arguments))]
  | loop iterator list body =>
    .typed .loop [("iterator", .string iterator), ("list", list.render), ("block", body.render)]
  | range first last => .typed .range [("from", first.render), ("to", last.render)]
  | function name parameters body =>
    .typed .function
      [("name", .string name), ("args", .array (parameters.map .string)), ("block", body.render)]
  | each name body => .typed .each [("self", .string name), ("block", body.render)]
  | translate title value => .typed .translate (("title", .string title) :: renderOption "value" value)

def renderAll : List Instruction → List Json
  | [] => []
  | item :: rest => item.render :: renderAll rest

def renderPairs (label : String) : List (String × Instruction) → List Json
  | [] => []
  | (name, value) :: rest =>
    .object [(label, .string name), ("value", value.render)] :: renderPairs label rest

def renderOption (field : String) : Option Instruction → List (String × Json)
  | none => []
  | some value => [(field, value.render)]

end

theorem renderAll_eq (items : List Instruction) : renderAll items = items.map render := by
  induction items with
  | nil => rfl
  | cons item rest ih => rw [renderAll, ih, List.map_cons]

theorem renderPairs_eq (label : String) (pairs : List (String × Instruction)) :
    renderPairs label pairs =
      pairs.map fun pair => .object [(label, .string pair.1), ("value", pair.2.render)] := by
  induction pairs with
  | nil => rfl
  | cons pair rest ih => rw [renderPairs, ih, List.map_cons]

end Instruction

namespace Shape

def tree? : (shape : Shape) → shape.Content → Option Json
  | .instruction => fun (part : Instruction) => some part.render
  | .optionalInstruction => fun (part : Option Instruction) => part.map Instruction.render
  | .instructions => fun (parts : List Instruction) => some (.array (parts.map Instruction.render))
  | .number => fun (value : Float) => some (.float value)
  | .text | .textOr _ => fun (text : String) => some (.string text)
  | .names => fun (names : List String) => some (.array (names.map .string))
  | .pairs label => fun (pairs : List (String × Instruction)) =>
    some (.array (pairs.map fun pair => .object [(label, .string pair.1), ("value", pair.2.render)]))

def node? : (shape : Shape) → shape.Content → Option Node
  | .instruction => fun (part : Instruction) => some (.instruction part)
  | .optionalInstruction => fun (part : Option Instruction) => part.map .instruction
  | .instructions => fun (parts : List Instruction) => some (.list (parts.map .instruction))
  | .number => fun (value : Float) => some (.number value)
  | .text | .textOr _ => fun (text : String) => some (.text text)
  | .names => fun (names : List String) => some (.list (names.map .text))
  | .pairs label => fun (pairs : List (String × Instruction)) =>
    some (.list (pairs.map fun pair => .record [(label, .text pair.1), ("value", .instruction pair.2)]))

def partsOf : (shape : Shape) → shape.Content → List Instruction
  | .instruction => fun (part : Instruction) => [part]
  | .optionalInstruction => fun (part : Option Instruction) => part.toList
  | .instructions => fun (parts : List Instruction) => parts
  | .pairs _ => fun (pairs : List (String × Instruction)) => pairs.map Prod.snd
  | .number | .text | .textOr _ | .names => fun _ => []

end Shape

namespace Contents

def members {α : Type} (value? : (shape : Shape) → shape.Content → Option α) :
    (fields : List Field) → Contents fields → List (String × α)
  | [], _ => []
  | field :: rest, (content, contents) =>
    (value? field.shape content).toList.map (field.name, ·) ++ members value? rest contents

def parts : (fields : List Field) → Contents fields → List Instruction
  | [], _ => []
  | field :: rest, (content, contents) => field.shape.partsOf content ++ parts rest contents

end Contents

namespace Instruction

/-- An instruction is written by its kind: the name of the kind, then the fields with their contents. -/
theorem render_eq (instruction : Instruction) :
    instruction.render =
      Json.typed instruction.kind (Contents.members Shape.tree? instruction.kind.fields instruction.contents) := by
  cases instruction with
  | truth value => cases value <;> rfl
  | access kind arguments => cases kind <;> exact (by simp only [render, renderAll_eq]; rfl)
  | fold kind first operands => cases kind <;> exact (by simp only [render, renderPairs_eq]; rfl)
  | branch test ok fail => cases fail <;> rfl
  | result value | translate title value => cases value <;> rfl
  | block items | array items => simp only [render, renderAll_eq]; rfl
  | object members => simp only [render, renderPairs_eq]; rfl
  | _ => rfl

theorem contents_parts (instruction : Instruction) :
    Contents.parts instruction.kind.fields instruction.contents = instruction.parts := by
  cases instruction with
  | truth value => cases value <;> rfl
  | access kind arguments => cases kind <;> exact List.append_nil _
  | fold kind first operands => cases kind <;> exact congrArg (first :: ·) (List.append_nil _)
  | branch test ok fail => cases fail <;> rfl
  | result value | translate title value => cases value <;> rfl
  | block items | array items => exact List.append_nil _
  | object members => exact List.append_nil _
  | _ => rfl

end Instruction

theorem Node.mapM_map {α β : Type} {make : α → β} {read? : β → Option α}
    (inverse : ∀ item, read? (make item) = some item) (items : List α) :
    (items.map make).mapM read? = some items := by
  induction items with
  | nil => rfl
  | cons item rest ih => rw [List.map_cons, List.mapM_cons, inverse, ih]; rfl

theorem Kind.label_plain {kind : Kind} {field : Field} (of : field ∈ kind.fields) :
    field.shape ≠ .pairs "type" ∧ field.shape ≠ .pairs "value" := by
  have plain : ∀ kind ∈ all, ∀ field ∈ kind.fields,
      field.shape ≠ .pairs "type" ∧ field.shape ≠ .pairs "value" := by decide +kernel
  exact plain kind kind.mem_all field of

theorem Kind.fields_nodup (kind : Kind) : (kind.fields.map Field.name).Nodup := by
  cases kind <;> decide

namespace Shape

theorem pair?_record {label : String} (notValue : label ≠ "value") (pair : String × Instruction) :
    Node.pair? label (.record [(label, .text pair.1), ("value", .instruction pair.2)]) = some pair := by
  simp [Node.pair?, Fields.get?, notValue, Node.text?, Node.instruction?]

theorem content?_of_node? {shape : Shape} (plain : shape ≠ .pairs "value") {content : shape.Content}
    {node : Node} (made : shape.node? content = some node) :
    shape.content? node = some content ∧ present? (some node) = some node := by
  cases shape with
  | instruction | number | text | textOr =>
    cases made
    exact ⟨rfl, rfl⟩
  | optionalInstruction =>
    obtain ⟨part, rfl, rfl⟩ := Option.map_eq_some_iff.mp made
    exact ⟨rfl, rfl⟩
  | instructions =>
    cases made
    have back : ∀ part : Instruction, Node.instruction? (.instruction part) = some part := fun _ => rfl
    exact ⟨Node.mapM_map back content, rfl⟩
  | names =>
    cases made
    have back : ∀ name : String, Node.text? (.text name) = some name := fun _ => rfl
    exact ⟨Node.mapM_map back content, rfl⟩
  | pairs label =>
    cases made
    have notValue : label ≠ "value" := fun same => plain (congrArg Shape.pairs same)
    exact ⟨Node.mapM_map (pair?_record notValue) content, rfl⟩

theorem absent?_of_node? {shape : Shape} {content : shape.Content} (left : shape.node? content = none) :
    shape.absent? = some content := by
  cases shape with
  | optionalInstruction =>
    obtain rfl := Option.map_eq_none_iff.mp left
    rfl
  | _ => cases left

theorem build_map {α : Type} {tree : α → Json} {node : α → Node} {items : List α}
    (each : ∀ item ∈ items, Node.build (tree item) = .ok (node item)) :
    Node.build (.array (items.map tree)) = .ok (.list (items.map node)) := by
  refine Node.build_ok.mpr (.array ?_)
  rw [List.forall₂_map_left_iff, List.forall₂_map_right_iff, List.forall₂_same]
  exact each

theorem build_pair {label : String} (notType : label ≠ "type") {name : String} {part : Instruction}
    (built : Node.build part.render = .ok (.instruction part)) :
    Node.build (.object [(label, .string name), ("value", part.render)]) =
      .ok (.record [(label, .text name), ("value", .instruction part)]) := by
  refine Node.build_ok.mpr (.record (by simp [Fields.get?, notType]) ?_)
  exact .cons ⟨rfl, rfl⟩ (.cons ⟨rfl, built⟩ .nil)

/-- The tree of a content is built into its node, if the instructions in it are built from theirs. -/
theorem built {shape : Shape} (plain : shape ≠ .pairs "type") {content : shape.Content}
    (parts : ∀ part ∈ shape.partsOf content, Node.build part.render = .ok (.instruction part)) :
    Option.Rel (fun tree node => Node.build tree = .ok node) (shape.tree? content) (shape.node? content) := by
  cases shape with
  | number | text | textOr => exact .some rfl
  | instruction => exact .some (parts content (List.mem_singleton_self content))
  | optionalInstruction =>
    cases content with
    | none => exact .none
    | some part => exact .some (parts part (List.mem_singleton_self part))
  | instructions => exact .some (build_map parts)
  | names => exact .some (build_map fun _ _ => rfl)
  | pairs label =>
    have notType : label ≠ "type" := fun same => plain (congrArg Shape.pairs same)
    exact .some (build_map fun pair member => build_pair notType (parts pair.2 (List.mem_map_of_mem member)))

end Shape

namespace Contents

theorem members_built {fields : List Field} (plain : ∀ field ∈ fields, field.shape ≠ .pairs "type")
    {contents : Contents fields}
    (built : ∀ part ∈ parts fields contents, Node.build part.render = .ok (.instruction part)) :
    Node.Built (members Shape.tree? fields contents) (members Shape.node? fields contents) := by
  induction fields with
  | nil => exact .nil
  | cons field rest ih =>
    obtain ⟨content, contents⟩ := contents
    have tail := ih (fun other member => plain other (List.mem_cons_of_mem _ member))
      fun part member => built part (List.mem_append_right _ member)
    have first := Shape.built (plain field List.mem_cons_self)
      fun part member => built part (List.mem_append_left _ member)
    simp only [members]
    generalize field.shape.tree? content = tree at first ⊢
    generalize field.shape.node? content = node at first ⊢
    cases first with
    | none => exact tail
    | some made => exact .cons ⟨rfl, made⟩ tail

theorem mem_members {α : Type} {value? : (shape : Shape) → shape.Content → Option α} {fields : List Field}
    {contents : Contents fields} {member : String × α} (inside : member ∈ members value? fields contents) :
    ∃ field ∈ fields, field.name = member.1 := by
  induction fields with
  | nil => cases inside
  | cons field rest ih =>
    obtain ⟨content, contents⟩ := contents
    rcases List.mem_append.mp inside with here | later
    · obtain ⟨_, _, rfl⟩ := List.mem_map.mp here
      exact ⟨field, List.mem_cons_self, rfl⟩
    · obtain ⟨other, of, same⟩ := ih later
      exact ⟨other, List.mem_cons_of_mem _ of, same⟩

def Held (values : Fields Node) : (fields : List Field) → Contents fields → Prop
  | [], _ => True
  | field :: rest, (content, contents) =>
    Fields.get? values field.name = field.shape.node? content ∧ Held values rest contents

theorem Held.skip {values : Fields Node} {key : String} {node : Node} {fields : List Field}
    {contents : Contents fields} (held : Held values fields contents)
    (other : ∀ field ∈ fields, field.name ≠ key) : Held ((key, node) :: values) fields contents := by
  induction fields with
  | nil => trivial
  | cons field rest ih =>
    obtain ⟨different, others⟩ := List.forall_mem_cons.mp other
    refine ⟨?_, ih held.2 others⟩
    rw [Fields.get?, if_neg (Ne.symm different)]
    exact held.1

theorem get?_members {fields : List Field} {contents : Contents fields} {name : String}
    (other : ∀ field ∈ fields, field.name ≠ name) :
    Fields.get? (members Shape.node? fields contents) name = none := by
  induction fields with
  | nil => rfl
  | cons field rest ih =>
    obtain ⟨content, contents⟩ := contents
    obtain ⟨different, others⟩ := List.forall_mem_cons.mp other
    simp only [members]
    cases field.shape.node? content with
    | none => exact ih others
    | some node => exact (if_neg different).trans (ih others)

theorem held_members {fields : List Field} (distinct : (fields.map Field.name).Nodup)
    (contents : Contents fields) : Held (members Shape.node? fields contents) fields contents := by
  induction fields with
  | nil => trivial
  | cons field rest ih =>
    obtain ⟨content, contents⟩ := contents
    obtain ⟨new, distinct⟩ := List.nodup_cons.mp distinct
    have other : ∀ later ∈ rest, later.name ≠ field.name := fun later of same =>
      new (List.mem_map.mpr ⟨later, of, same⟩)
    simp only [members, Held]
    cases field.shape.node? content with
    | none => exact ⟨get?_members other, ih distinct contents⟩
    | some node => exact ⟨if_pos rfl, (ih distinct contents).skip other⟩

/-- The fields are read in order, each from its own node, so the contents are what the nodes were made of. -/
theorem read_of_held (name : String) {values : Fields Node} {fields : List Field}
    (plain : ∀ field ∈ fields, field.shape ≠ .pairs "value") {contents : Contents fields}
    (held : Held values fields contents) : Contents.read name values fields = .ok contents := by
  induction fields with
  | nil => rfl
  | cons field rest ih =>
    obtain ⟨content, contents⟩ := contents
    obtain ⟨here, later⟩ := held
    obtain ⟨shape, others⟩ := List.forall_mem_cons.mp plain
    have first : field.read name values = .ok content := by
      unfold Field.read
      rw [here]
      cases made : field.shape.node? content with
      | none => simp only [present?, Shape.absent?_of_node? made]
      | some node =>
        obtain ⟨back, there⟩ := Shape.content?_of_node? shape made
        simp only [there, back]
    rw [Contents.read, first, ih others later]

end Contents

namespace Instruction

theorem build_render (instruction : Instruction) :
    Node.build instruction.render = .ok (.instruction instruction) := by
  induction instruction using parts_induction with
  | step instruction parts =>
    have built : Node.Built (Contents.members Shape.tree? instruction.kind.fields instruction.contents) _ :=
      Contents.members_built (fun _ of => (Kind.label_plain of).1) (by rwa [contents_parts])
    have declared : ∀ member ∈ Contents.members Shape.tree? instruction.kind.fields instruction.contents,
        member.1 ≠ "type" ∧ instruction.kind.declares member.1 = true := by
      intro member inside
      obtain ⟨field, of, same⟩ := Contents.mem_members inside
      exact ⟨same ▸ Kind.field_ne_type of, List.any_eq_true.mpr ⟨field, of, by simpa using same⟩⟩
    -- No field is called `type`, so leaving the type out leaves all fields in.
    have fields : Node.fieldMembers (("type", .string instruction.kind.name) ::
        Contents.members Shape.tree? instruction.kind.fields instruction.contents) =
          Contents.members Shape.tree? instruction.kind.fields instruction.contents := by
      rw [Node.fieldMembers, List.filter_cons_of_neg (by simp)]
      exact List.filter_eq_self.mpr fun member inside => by simpa using (declared member inside).1
    rw [render_eq, Node.build_ok]
    have made := Node.Builds.instruction rfl (Kind.ofName?_eq_some.mpr (.inl rfl))
      (fields.symm ▸ fun member inside => (declared member inside).2) (fields.symm ▸ built)
      (Contents.read_of_held instruction.kind.name (fun _ of => (Kind.label_plain of).2)
        (Contents.held_members instruction.kind.fields_nodup instruction.contents))
    rwa [assemble_contents] at made

/-- An instruction is written as an object that names its kind, followed by the fields of the kind with their
contents, and what is written is read back as the very same instruction. -/
theorem compile_render (instruction : Instruction) :
    instruction.render = .typed instruction.kind
        (Contents.members Shape.tree? instruction.kind.fields instruction.contents) ∧
      compile instruction.render = .ok instruction := by
  refine ⟨instruction.render_eq, ?_⟩
  rw [compile, build_render]

end Instruction

end RuleScript
