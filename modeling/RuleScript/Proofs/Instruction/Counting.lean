import Mathlib
import RuleScript.Command.ProgramFile
import RuleScript.Proofs.Instruction.Editing
import RuleScript.Proofs.Instruction.Rendering
import RuleScript.Proofs.Run.Nodes

/-! Counting the instructions of a tree.

The objects with a type are the instructions of a tree. Two groups of them do not count: those in the argument of a
title, and those that stand in the record of an operand or a member beside its label and its value. All others are
nodes of the program that the tree holds, each of them one, and a list at the root is one more.

An object is told by its place, since equal objects may stand in a tree more than once. A key leads to one member, as an
object has each key once.
-/

set_option autoImplicit false

namespace RuleScript

def BesidePair (label : String) : Path → Prop
  | .key name :: _ => name ≠ label ∧ name ≠ "value"
  | _ => False

/-- What a field passes over: in the records of operands and members, all but their labels and values. -/
def Shape.PassesOver : Shape → Path → Prop
  | .pairs label, .index _ :: rest => BesidePair label rest
  | _, _ => False

namespace Json

def IsOf (kind : Kind) (tree : Json) : Prop :=
  ∃ members written, tree = .object members ∧ Fields.get? members "type" = some (.string written) ∧
    kind.IsWritten written

/-- A place in a tree that does not count. -/
inductive Hidden : Json → Path → Prop where
  /-- In the argument of a title. -/
  | title {tree : Json} {rest : Path} (title : tree.IsOf .translate) : Hidden tree (.key "value" :: rest)
  /-- In the record of an operand or a member, beside its label and its value. -/
  | aside {tree : Json} {kind : Kind} {field : Field} {rest : Path} (owner : tree.IsOf kind)
      (declared : field ∈ kind.fields) (passed : field.shape.PassesOver rest) : Hidden tree (.key field.name :: rest)
  | deeper {tree next : Json} {step : Step} {rest : Path} (child : tree.child? step = some next)
      (hidden : Hidden next rest) : Hidden tree (step :: rest)

/-- Whether an instruction that counts stands at a place: an object with a type, and not hidden. -/
def Counts (tree : Json) (place : Path) : Prop :=
  (∃ part, tree.at? place = some part ∧ part.IsTyped) ∧ ¬ tree.Hidden place

/-- The places in a tree that are `counted`, each once, in the order of the nodes that are built there. -/
structure Enumerates (tree : Json) (counted : Path → Prop) (places : List Path) (nodes : List Instruction) : Prop where
  nodup : places.Nodup
  mem_iff : ∀ place, place ∈ places ↔ counted place
  stand : List.Forall₂ (fun place node => ∃ part, tree.at? place = some part ∧ Node.build part = .ok (.instruction node))
    places nodes

/-- The nodes that are built at the places that are `counted`. -/
def Bears (tree : Json) (counted : Path → Prop) (nodes : List Instruction) : Prop :=
  ∃ places, tree.Enumerates counted places nodes

namespace Bears

variable {tree next : Json} {counted others : Path → Prop} {nodes more : List Instruction}

theorem congr (bears : tree.Bears counted nodes) (same : ∀ place, counted place ↔ others place) :
    tree.Bears others nodes := by
  obtain ⟨places, nodup, mem_iff, stand⟩ := bears
  exact ⟨places, nodup, fun place => (mem_iff place).trans (same place), stand⟩

theorem nil (none : ∀ place, ¬ counted place) : tree.Bears counted [] :=
  ⟨[], .nil, fun place => iff_of_false List.not_mem_nil (none place), .nil⟩

theorem append (first : tree.Bears counted nodes) (second : tree.Bears others more)
    (apart : ∀ place, counted place → ¬ others place) :
    tree.Bears (fun place => counted place ∨ others place) (nodes ++ more) := by
  obtain ⟨places, nodup, mem_iff, stand⟩ := first
  obtain ⟨later, nodup', mem_iff', stand'⟩ := second
  refine ⟨places ++ later, List.nodup_append.mpr ⟨nodup, nodup', ?_⟩, fun place => ?_, List.rel_append stand stand'⟩
  · rintro place here _ there rfl
    exact apart place ((mem_iff place).mp here) ((mem_iff' place).mp there)
  · rw [List.mem_append, mem_iff, mem_iff']

theorem under {step : Step} (child : tree.child? step = some next) (bears : next.Bears counted nodes) :
    tree.Bears (fun place => ∃ rest, place = step :: rest ∧ counted rest) nodes := by
  obtain ⟨places, nodup, mem_iff, stand⟩ := bears
  refine ⟨places.map (step :: ·), nodup.map List.cons_injective, fun place => ?_, ?_⟩
  · simp only [List.mem_map, mem_iff, eq_comm, and_comm]
  · rw [List.forall₂_map_left_iff]
    refine stand.imp fun place node => ?_
    rintro ⟨part, found, built⟩
    exact ⟨part, by rw [at?_cons, child, Option.bind_some, found], built⟩

/-- An instruction stands in front of all that stands below it. -/
theorem self {node : Instruction} (built : Node.build tree = .ok (.instruction node))
    (bears : tree.Bears counted nodes) (below : ¬ counted []) :
    tree.Bears (fun place => place = [] ∨ counted place) (node :: nodes) := by
  obtain ⟨places, nodup, mem_iff, stand⟩ := bears
  refine ⟨[] :: places, List.nodup_cons.mpr ⟨mt (mem_iff []).mp below, nodup⟩, fun place => ?_, ?_⟩
  · rw [List.mem_cons, mem_iff]
  · exact .cons ⟨tree, rfl, built⟩ stand

theorem flatten {steps : List Step} {below : Step → Path → Prop} {parts : List (List Instruction)}
    (distinct : steps.Nodup)
    (each : List.Forall₂ (fun step nodes => tree.Bears (fun place => ∃ rest, place = step :: rest ∧ below step rest) nodes)
      steps parts) :
    tree.Bears (fun place => ∃ step ∈ steps, ∃ rest, place = step :: rest ∧ below step rest) parts.flatten := by
  induction each with
  | nil => exact nil (by simp)
  | cons first _ ih =>
    obtain ⟨new, distinct⟩ := List.nodup_cons.mp distinct
    refine (first.append (ih distinct) ?_).congr fun place => by simp only [List.exists_mem_cons_iff]
    rintro _ ⟨rest, rfl, -⟩ ⟨step, later, _, same, -⟩
    exact new ((List.cons.inj same).1 ▸ later)

theorem array {items : List Json} {below : Json → Path → Prop} {parts : List (List Instruction)}
    (each : List.Forall₂ (fun item nodes => item.Bears (below item) nodes) items parts) :
    (Json.array items).Bears
      (fun place => ∃ position item rest, place = .index position :: rest ∧ items[position]? = some item ∧
        below item rest) parts.flatten := by
  obtain ⟨length, each⟩ := List.forall₂_iff_get.mp each
  have distinct : ((List.range items.length).map Step.index).Nodup :=
    List.nodup_range.map fun _ _ same => Step.index.inj same
  have steps : List.Forall₂ (fun step nodes => (Json.array items).Bears (fun place => ∃ rest, place = step :: rest ∧
      ∃ item, (Json.array items).child? step = some item ∧ below item rest) nodes)
      ((List.range items.length).map .index) parts := by
    refine List.forall₂_iff_get.mpr ⟨by simpa using length, fun position inside inside' => ?_⟩
    have inside : position < items.length := by simpa using inside
    have there : (Json.array items).child? (.index position) = some items[position] := List.getElem?_eq_getElem inside
    refine ((each position inside inside').under there).congr fun place => ?_
    simp [there]
  refine (flatten distinct steps).congr fun place => ?_
  constructor
  · rintro ⟨step, listed, rest, rfl, item, there, holds⟩
    obtain ⟨position, -, rfl⟩ := List.mem_map.mp listed
    exact ⟨position, item, rest, rfl, there, holds⟩
  · rintro ⟨position, item, rest, rfl, there, holds⟩
    have inside := (List.getElem?_eq_some_iff.mp there).1
    exact ⟨.index position, List.mem_map_of_mem (List.mem_range.mpr inside), rest, rfl, item, there, holds⟩

theorem not_counted (bears : tree.Bears counted []) (place : Path) : ¬ counted place := by
  obtain ⟨places, -, mem_iff, stand⟩ := bears
  cases stand
  exact mt (mem_iff place).mpr List.not_mem_nil

end Bears

/-! ## What counts -/

section Counts

variable {tree : Json} {members : List (String × Json)} {items : List Json} {kind other : Kind} {step : Step}
  {place rest : Path}

theorem IsOf.isTyped (of : tree.IsOf kind) : tree.IsTyped := by
  obtain ⟨members, written, same, typed, -⟩ := of
  exact ⟨members, _, same, typed⟩

theorem IsOf.unique (first : tree.IsOf kind) (second : tree.IsOf other) : kind = other := by
  obtain ⟨members, written, rfl, typed, named⟩ := first
  obtain ⟨_, again, same, typed', named'⟩ := second
  cases same
  cases typed.symm.trans typed'
  exact Option.some.inj ((Kind.ofName?_eq_some.mpr named).symm.trans (Kind.ofName?_eq_some.mpr named'))

theorem counts_nil : tree.Counts [] ↔ tree.IsTyped := by
  constructor
  · rintro ⟨⟨part, found, typed⟩, -⟩
    exact Option.some.inj found ▸ typed
  · exact fun typed => ⟨⟨tree, rfl, typed⟩, nofun⟩

/-- One step down, what counts there counts, unless the object hides it. -/
theorem counts_cons : tree.Counts (step :: rest) ↔ (∃ next, tree.child? step = some next ∧ next.Counts rest) ∧
    ¬ (tree.IsOf .translate ∧ step = .key "value") ∧
    ∀ kind field, tree.IsOf kind → field ∈ kind.fields → step = .key field.name → ¬ field.shape.PassesOver rest := by
  constructor
  · rintro ⟨⟨part, found, typed⟩, shown⟩
    rw [at?_cons] at found
    obtain ⟨next, child, found⟩ := Option.bind_eq_some_iff.mp found
    refine ⟨⟨next, child, ⟨part, found, typed⟩, fun hidden => shown (.deeper child hidden)⟩, ?_, ?_⟩
    · rintro ⟨title, rfl⟩
      exact shown (.title title)
    · rintro kind field owner declared rfl passed
      exact shown (.aside owner declared passed)
  · rintro ⟨⟨next, child, ⟨part, found, typed⟩, shown⟩, noTitle, noAside⟩
    refine ⟨⟨part, by rw [at?_cons, child, Option.bind_some, found], typed⟩, fun hidden => ?_⟩
    cases hidden with
    | title title => exact noTitle ⟨title, rfl⟩
    | aside owner declared passed => exact noAside _ _ owner declared rfl passed
    | deeper child' hidden =>
      cases child.symm.trans child'
      exact shown hidden

theorem counts_of_untyped (untyped : ¬ tree.IsTyped) : tree.Counts place ↔
    ∃ step rest next, place = step :: rest ∧ tree.child? step = some next ∧ next.Counts rest := by
  cases place with
  | nil => simp [counts_nil, untyped]
  | cons step rest =>
    have bare : ∀ kind, ¬ tree.IsOf kind := fun kind of => untyped of.isTyped
    simp [counts_cons, bare]

theorem not_counts_of_plain (object : ∀ members, tree ≠ .object members) (array : ∀ items, tree ≠ .array items) :
    ¬ tree.Counts place := by
  have untyped : ¬ tree.IsTyped := by
    rintro ⟨members, -, same, -⟩
    exact object members same
  rw [counts_of_untyped untyped]
  rintro ⟨step, rest, next, rfl, child, -⟩
  cases tree with
  | object members => exact object members rfl
  | array items => exact array items rfl
  | _ => cases child

theorem not_counts_null : ¬ null.Counts place :=
  not_counts_of_plain nofun nofun

theorem counts_array : (array items).Counts place ↔
    ∃ position item rest, place = .index position :: rest ∧ items[position]? = some item ∧ item.Counts rest := by
  rw [counts_of_untyped (by simp [IsTyped])]
  constructor
  · rintro ⟨step, rest, next, rfl, child, counts⟩
    cases step with
    | index position => exact ⟨position, next, rest, rfl, child, counts⟩
    | key => cases child
  · rintro ⟨position, item, rest, rfl, child, counts⟩
    exact ⟨.index position, rest, item, rfl, child, counts⟩

theorem counts_record (untyped : Fields.get? members "type" = none) : (object members).Counts place ↔
    ∃ key value rest, place = .key key :: rest ∧ Fields.get? members key = some value ∧ value.Counts rest := by
  rw [counts_of_untyped (by simp [IsTyped, untyped])]
  constructor
  · rintro ⟨step, rest, next, rfl, child, counts⟩
    cases step with
    | index => cases child
    | key name => exact ⟨name, next, rest, rfl, child, counts⟩
  · rintro ⟨key, value, rest, rfl, child, counts⟩
    exact ⟨.key key, rest, value, rfl, child, counts⟩

/-- A place below a field of an instruction counts if it does in the value of the field, the argument of a title apart. -/
theorem counts_field {field : Field} (of : (object members).IsOf kind) (declared : field ∈ kind.fields) :
    (object members).Counts (.key field.name :: rest) ↔ ¬ (kind = .translate ∧ field.name = "value") ∧
      (∃ value, Fields.get? members field.name = some value ∧ value.Counts rest) ∧ ¬ field.shape.PassesOver rest := by
  have title : (object members).IsOf .translate ↔ kind = .translate :=
    ⟨fun title => of.unique title, fun same => same ▸ of⟩
  have aside : (∀ other another, (object members).IsOf other → another ∈ other.fields →
      Step.key field.name = .key another.name → ¬ another.shape.PassesOver rest) ↔ ¬ field.shape.PassesOver rest := by
    refine ⟨fun shown => shown kind field of declared rfl, fun shown other another of' declared' same => ?_⟩
    cases of.unique of'
    cases List.inj_on_of_nodup_map kind.fields_nodup declared declared' (Step.key.inj same)
    exact shown
  rw [counts_cons, title, aside]
  simp only [Step.key.injEq, child?]
  tauto

/-- What counts in an instruction is the instruction itself, or stands below a field. -/
theorem field_of_counts {type : String} (typed : Fields.get? members "type" = some (.string type))
    (declares : ∀ member ∈ Node.fieldMembers members, kind.declares member.1 = true)
    (counts : (object members).Counts place) :
    place = [] ∨ ∃ field ∈ kind.fields, ∃ rest, place = .key field.name :: rest := by
  cases place with
  | nil => exact .inl rfl
  | cons step rest =>
    obtain ⟨⟨next, child, inner⟩, -⟩ := counts_cons.mp counts
    cases step with
    | index => cases child
    | key name =>
      by_cases type : name = "type"
      · -- The name of the kind is a text.
        subst type
        cases typed.symm.trans child
        exact absurd inner (not_counts_of_plain nofun nofun)
      · have listed := Node.mem_fieldMembers.mpr ⟨Fields.mem_of_get? child, type⟩
        obtain ⟨field, declared, same⟩ := List.any_eq_true.mp (declares _ listed)
        obtain rfl : field.name = name := by simpa using same
        exact .inr ⟨field, declared, rest, rfl⟩

end Counts

end Json

/-! ## What is built -/

/-- Wherever an instruction is built, its nodes stand at the places that count. -/
def Instruction.IsCounted (instruction : Instruction) : Prop :=
  ∀ tree, Node.build tree = .ok (.instruction instruction) → tree.Bears tree.Counts instruction.nodes

namespace Node

theorem text_of_build {tree : Json} {node : Node} {text : String} (built : build tree = .ok node)
    (read : node.text? = some text) : tree = .string text := by
  cases build_ok.mp built with
  | string value =>
    cases read
    rfl
  | _ => cases read

theorem instruction_of_build {tree : Json} {node : Node} {instruction : Instruction} (built : build tree = .ok node)
    (read : node.instruction? = some instruction) : build tree = .ok (.instruction instruction) := by
  cases node with
  | instruction value =>
    cases read
    exact built
  | _ => cases read

theorem read_items {α : Type} {item? : Node → Option α} {items : List Json} {nodes : List Node} {values : List α}
    (built : List.Forall₂ (fun item node => build item = .ok node) items nodes)
    (read : nodes.mapM item? = some values) :
    List.Forall₂ (fun item value => ∃ node, build item = .ok node ∧ item? node = some value) items values := by
  induction built generalizing values with
  | nil =>
    cases read
    exact .nil
  | @cons _ node _ _ first _ ih =>
    rw [List.mapM_cons] at read
    obtain ⟨value, head, read⟩ := Option.bind_eq_some_iff.mp read
    obtain ⟨rest, tail, read⟩ := Option.bind_eq_some_iff.mp read
    cases read
    exact .cons ⟨node, first, head⟩ (ih tail)

end Node

theorem Json.bears_list {α : Type} (below : Json → Path → Prop) (nodesOf : α → List Instruction)
    {item? : Node → Option α} {tree : Json} {node : Node} {values : List α} (built : Node.build tree = .ok node)
    (read : node.listOf? item? = some values)
    (each : ∀ value ∈ values, ∀ item node, Node.build item = .ok node → item? node = some value →
      item.Bears (below item) (nodesOf value)) :
    ∃ items, tree = .array items ∧ tree.Bears (fun place => ∃ position item rest, place = .index position :: rest ∧
      items[position]? = some item ∧ below item rest) (values.flatMap nodesOf) := by
  cases Node.build_ok.mp built with
  | @array items nodes all =>
    refine ⟨items, rfl, .array ?_⟩
    have stand := Node.read_items all read
    clear read built all
    induction stand with
    | nil => exact .nil
    | cons first _ ih =>
      obtain ⟨node, built, read⟩ := first
      obtain ⟨here, others⟩ := List.forall_mem_cons.mp each
      exact .cons (here _ node built read) (ih others)
  | _ => cases read

section Read

variable {tree : Json} {node : Node} {label : String} {pair : String × Instruction}

theorem Json.bears_pair (built : Node.build tree = .ok node) (read : node.pair? label = some pair)
    (counted : pair.2.IsCounted) :
    tree.Bears (fun place => tree.Counts place ∧ ¬ BesidePair label place) pair.2.nodes := by
  cases Node.build_ok.mp built with
  | @record members nodes untyped parts =>
    obtain ⟨name, text, read⟩ := Option.bind_eq_some_iff.mp read
    obtain ⟨value, instruction, read⟩ := Option.bind_eq_some_iff.mp read
    cases read
    obtain ⟨first, there, text⟩ := Option.bind_eq_some_iff.mp text
    obtain ⟨second, there', instruction⟩ := Option.bind_eq_some_iff.mp instruction
    obtain ⟨_, found, labelled⟩ := parts.of_get? there
    obtain ⟨part, found', valued⟩ := parts.of_get? there'
    obtain rfl := Node.text_of_build labelled text
    have below := counted part (Node.instruction_of_build valued instruction)
    have child : (Json.object members).child? (.key "value") = some part := found'
    refine (below.under child).congr fun place => ?_
    rw [Json.counts_record untyped]
    constructor
    · rintro ⟨rest, rfl, counts⟩
      exact ⟨⟨"value", part, rest, rfl, found', counts⟩, fun beside => beside.2 rfl⟩
    · rintro ⟨⟨key, value, rest, rfl, stands, counts⟩, shown⟩
      by_cases same : key = label
      · -- Nothing counts in the label, which is a text.
        cases found.symm.trans (same ▸ stands)
        exact absurd counts (Json.not_counts_of_plain nofun nofun)
      · obtain rfl : key = "value" := by
          by_contra other
          exact shown ⟨same, other⟩
        cases found'.symm.trans stands
        exact ⟨rest, rfl, counts⟩
  | _ => cases read

theorem Json.bears_instruction {instruction : Instruction} (counted : instruction.IsCounted)
    (built : Node.build tree = .ok node) (read : node.instruction? = some instruction) :
    tree.Bears (fun place => tree.Counts place ∧ ¬ False) ([instruction].flatMap Instruction.nodes) := by
  rw [List.flatMap_singleton]
  exact (counted tree (Node.instruction_of_build built read)).congr fun place => by simp

theorem Json.bears_instructions {instructions : List Instruction} (counted : ∀ part ∈ instructions, part.IsCounted)
    (built : Node.build tree = .ok node) (read : node.listOf? Node.instruction? = some instructions) :
    tree.Bears tree.Counts (instructions.flatMap Instruction.nodes) := by
  obtain ⟨items, rfl, bears⟩ := Json.bears_list Json.Counts Instruction.nodes built read
    fun part member item node built read => counted part member item (Node.instruction_of_build built read)
  exact bears.congr fun place => Json.counts_array.symm

theorem Json.bears_pairs {pairs : List (String × Instruction)} (counted : ∀ pair ∈ pairs, pair.2.IsCounted)
    (built : Node.build tree = .ok node) (read : node.listOf? (Node.pair? label) = some pairs) :
    tree.Bears (fun place => tree.Counts place ∧ ¬ (Shape.pairs label).PassesOver place)
      ((pairs.map Prod.snd).flatMap Instruction.nodes) := by
  rw [List.flatMap_map]
  obtain ⟨items, rfl, bears⟩ := Json.bears_list (fun item place => item.Counts place ∧ ¬ BesidePair label place)
    (fun pair => pair.2.nodes) built read fun pair member item node built read =>
      Json.bears_pair built read (counted pair member)
  refine bears.congr fun place => ?_
  rw [Json.counts_array]
  constructor
  · rintro ⟨position, item, rest, rfl, stands, counts, shown⟩
    exact ⟨⟨position, item, rest, rfl, stands, counts⟩, shown⟩
  · rintro ⟨⟨position, item, rest, rfl, stands, counts⟩, shown⟩
    exact ⟨position, item, rest, rfl, stands, counts, shown⟩

theorem Json.not_counts_of_text {text : String} (built : Node.build tree = .ok node) (read : node.text? = some text)
    (place : Path) : ¬ tree.Counts place := by
  obtain rfl := Node.text_of_build built read
  exact Json.not_counts_of_plain nofun nofun

theorem Json.not_counts_of_names {names : List String} (built : Node.build tree = .ok node)
    (read : node.listOf? Node.text? = some names) (place : Path) : ¬ tree.Counts place := by
  obtain ⟨items, rfl, bears⟩ := Json.bears_list Json.Counts (fun _ => []) built read
    fun text _ item node built read => .nil (Json.not_counts_of_text built read)
  rw [List.flatMap_eq_nil_iff.mpr fun _ _ => rfl] at bears
  exact Json.counts_array.not.mpr (bears.not_counted place)

/-- The content of a field has its instructions at the places that count in the value of the field. -/
theorem Shape.bears (shape : Shape) {content : shape.Content} (built : Node.build tree = .ok node)
    (read : shape.content? node = some content) (counted : ∀ part ∈ shape.partsOf content, part.IsCounted) :
    tree.Bears (fun place => tree.Counts place ∧ ¬ shape.PassesOver place)
      ((shape.partsOf content).flatMap Instruction.nodes) := by
  cases shape with
  | instruction => exact Json.bears_instruction (counted content (List.mem_singleton_self content)) built read
  | optionalInstruction =>
    obtain ⟨part, held, rfl⟩ := Option.map_eq_some_iff.mp read
    exact Json.bears_instruction (counted part (List.mem_singleton_self part)) built held
  | instructions =>
    exact (Json.bears_instructions counted built read).congr fun place => by simp [PassesOver]
  | pairs label =>
    exact Json.bears_pairs (fun pair member => counted pair.2 (List.mem_map_of_mem member)) built read
  | number =>
    refine .nil fun place => mt And.left ?_
    cases Node.build_ok.mp built with
    | integer | float | string => exact Json.not_counts_of_plain nofun nofun
    | _ => cases read
  | text | textOr => exact .nil fun place => mt And.left (Json.not_counts_of_text built read place)
  | names => exact .nil fun place => mt And.left (Json.not_counts_of_names built read place)

end Read

theorem of_present? {node? : Option Node} {node : Node} (there : present? node? = some node) : node? = some node := by
  unfold present? at there
  split at there
  · cases there
  · exact there

theorem Shape.partsOf_of_absent? {shape : Shape} {content : shape.Content} (absent : shape.absent? = some content) :
    shape.partsOf content = [] := by
  cases shape with
  | instruction | number | text => cases absent
  | optionalInstruction | instructions | pairs => exact Option.some.inj absent ▸ rfl
  | textOr | names => rfl

theorem Field.read_cases {name : String} {values : Fields Node} {field : Field} {content : field.shape.Content}
    (read : field.read name values = .ok content) :
    present? (Fields.get? values field.name) = none ∧ field.shape.absent? = some content ∨
      ∃ node, Fields.get? values field.name = some node ∧ field.shape.content? node = some content := by
  unfold Field.read at read
  cases there : present? (Fields.get? values field.name) with
  | none =>
    cases absent : field.shape.absent? with
    | none => simp [there, absent] at read
    | some other => exact .inl ⟨rfl, by simpa [there, absent] using read⟩
  | some node =>
    cases held : field.shape.content? node with
    | none => simp [there, held] at read
    | some other => exact .inr ⟨node, of_present? there, by simpa [there, held] using read⟩

theorem Contents.read_cons {name : String} {values : Fields Node} {field : Field} {rest : List Field}
    {content : field.shape.Content} {contents : Contents rest}
    (read : Contents.read name values (field :: rest) = .ok (content, contents)) :
    field.read name values = .ok content ∧ Contents.read name values rest = .ok contents := by
  rw [Contents.read] at read
  cases first : field.read name values with
  | error e => simp [first] at read
  | ok other =>
    cases others : Contents.read name values rest with
    | error e => simp [first, others] at read
    | ok more =>
      simp only [first, others] at read
      cases read
      exact ⟨rfl, rfl⟩

section Fields

variable {members : List (String × Json)} {values : List (String × Node)} {name : String}

theorem Field.bears (built : Node.Built (Node.fieldMembers members) values) {field : Field}
    (plain : field.name ≠ "type") {content : field.shape.Content} (read : field.read name values = .ok content)
    (counted : ∀ part ∈ field.shape.partsOf content, part.IsCounted) :
    (Json.object members).Bears (fun place => ∃ rest, place = .key field.name :: rest ∧
        (∃ value, Fields.get? members field.name = some value ∧ value.Counts rest) ∧ ¬ field.shape.PassesOver rest)
      ((field.shape.partsOf content).flatMap Instruction.nodes) := by
  have same := built.get? field.name
  rw [Node.fieldMembers, Fields.get?_filter_of_keeps (by simp [plain])] at same
  obtain ⟨nothing, absent⟩ | ⟨node, there, held⟩ := Field.read_cases read
  · -- An absent field has no value, or a null in which nothing counts.
    rw [Shape.partsOf_of_absent? absent]
    refine .nil ?_
    rintro _ ⟨rest, rfl, ⟨value, there, counts⟩, -⟩
    rw [there] at same
    generalize Fields.get? values field.name = node? at same nothing
    cases same with
    | @some _ node built =>
      obtain rfl : node = .null := by
        by_contra other
        simp [present?_of_ne other] at nothing
      obtain rfl := (Node.eq_null_iff (Node.build_ok.mp built)).mp rfl
      exact absurd counts Json.not_counts_null
  · rw [there] at same
    generalize found : Fields.get? members field.name = value? at same
    cases same with
    | @some value _ built =>
      have bears := field.shape.bears built held counted
      have child : (Json.object members).child? (.key field.name) = some value := found
      refine (bears.under child).congr fun place => ?_
      simp

theorem Contents.bears (built : Node.Built (Node.fieldMembers members) values) {fields : List Field}
    (distinct : (fields.map Field.name).Nodup) (plain : ∀ field ∈ fields, field.name ≠ "type")
    {contents : Contents fields} (read : Contents.read name values fields = .ok contents)
    (counted : ∀ part ∈ Contents.parts fields contents, part.IsCounted) :
    (Json.object members).Bears (fun place => ∃ field ∈ fields, ∃ rest, place = .key field.name :: rest ∧
        (∃ value, Fields.get? members field.name = some value ∧ value.Counts rest) ∧ ¬ field.shape.PassesOver rest)
      ((Contents.parts fields contents).flatMap Instruction.nodes) := by
  induction fields with
  | nil => exact .nil (by simp)
  | cons field rest ih =>
    obtain ⟨content, contents⟩ := contents
    obtain ⟨new, distinct⟩ := List.nodup_cons.mp distinct
    obtain ⟨own, others⟩ := List.forall_mem_cons.mp plain
    obtain ⟨first, later⟩ := Contents.read_cons read
    obtain ⟨here, there⟩ := List.forall_mem_append.mp counted
    rw [Contents.parts, List.flatMap_append]
    refine ((Field.bears built own first here).append (ih distinct others later there) ?_).congr fun place => ?_
    · -- The names are distinct, so no place stands below two fields.
      rintro _ ⟨_, rfl, -⟩ ⟨other, of, _, same, -⟩
      have names := Step.key.inj (List.cons.inj same).1
      exact new (names ▸ List.mem_map_of_mem of)
    · simp only [List.exists_mem_cons_iff]

end Fields

namespace Instruction

theorem parts_assemble (kind : Kind) (contents : Contents kind.fields) :
    (kind.assemble contents).parts = Contents.parts kind.fields contents := by
  cases kind with
  | choice | compare | declaration | assignment | loop | range | function | each | nest | negation => rfl
  | number | text | truth | falsehood | date | dateTime | stop | scope => rfl
  | block | array | get | set | call | object | result | translate => exact (List.append_nil _).symm
  | arithmetic | conjunction | disjunction => exact congrArg (_ :: ·) (List.append_nil _).symm
  | branch => exact congrArg (_ :: _ :: ·) (List.append_nil _).symm

theorem evaluated_assemble {kind : Kind} (plain : kind ≠ .translate) (contents : Contents kind.fields) :
    (kind.assemble contents).evaluated = Contents.parts kind.fields contents := by
  rw [← parts_assemble]
  cases kind with
  | translate => exact absurd rfl plain
  | _ => rfl

end Instruction

section Instructions

variable {members : List (String × Json)} {values : List (String × Node)} {name : String}

/-- Nothing counts in a title but the title itself: its text holds no instruction, and its argument is hidden. -/
theorem Json.counts_title (typed : Fields.get? members "type" = some (.string name))
    (of : (object members).IsOf .translate)
    (declares : ∀ member ∈ Node.fieldMembers members, Kind.translate.declares member.1 = true)
    (built : Node.Built (Node.fieldMembers members) values) {contents : Contents Kind.translate.fields}
    (read : Contents.read name values Kind.translate.fields = .ok contents) {place : Path} :
    (object members).Counts place ↔ place = [] := by
  constructor
  · intro counts
    obtain rfl | ⟨field, declared, rest, rfl⟩ := field_of_counts typed declares counts
    · rfl
    · obtain ⟨shown, holds⟩ := (counts_field of declared).mp counts
      obtain ⟨title, contents⟩ := contents
      obtain rfl | rfl : field = ⟨"title", .textOr ""⟩ ∨ field = ⟨"value", .optionalInstruction⟩ := by
        simpa [Kind.fields] using declared
      · have bears := Field.bears built (by decide) (Contents.read_cons read).1 (List.forall_mem_nil _)
        exact absurd ⟨rest, rfl, holds⟩ (bears.not_counted _)
      · exact absurd ⟨rfl, rfl⟩ shown
  · rintro rfl
    exact counts_nil.mpr of.isTyped

/-- Wherever an instruction is built, the places that count are those of its nodes. -/
theorem Instruction.isCounted (instruction : Instruction) : instruction.IsCounted := by
  induction instruction using parts_induction with
  | step instruction ih =>
    intro tree built
    cases Node.build_ok.mp built with
    | @instruction members values name kind contents typed named declares parts read =>
      have of : (Json.object members).IsOf kind := ⟨members, name, rfl, typed, Kind.ofName?_eq_some.mp named⟩
      rw [nodes_eq]
      by_cases title : kind = .translate
      · -- A title is a node of its own, and below it nothing counts.
        subst title
        have nothing : (Json.object members).Bears (fun _ => False) [] := .nil fun _ => id
        exact (nothing.self built id).congr fun place => by rw [Json.counts_title typed of declares parts read, or_false]
      · have fields := Contents.bears parts kind.fields_nodup (fun _ => Kind.field_ne_type) read fun part member =>
          ih part (parts_assemble kind contents ▸ member)
        rw [evaluated_assemble title]
        refine (fields.self built (by simp)).congr fun place => ⟨?_, fun counts => ?_⟩
        · rintro (rfl | ⟨field, declared, rest, rfl, holds⟩)
          · exact Json.counts_nil.mpr of.isTyped
          · exact (Json.counts_field of declared).mpr ⟨fun argument => title argument.1, holds⟩
        · obtain rfl | ⟨field, declared, rest, rfl⟩ := Json.field_of_counts typed declares counts
          · exact .inl rfl
          · exact .inr ⟨field, declared, rest, rfl, ((Json.counts_field of declared).mp counts).2⟩

end Instructions

/-! ## Programs -/

def ProgramFile.checkText (path : String) : Option String → Except FileError Nat
  | none => .error (.unreadable path)
  | some text =>
    match Json.read? text with
    | none => .error (.malformed path)
    | some tree =>
      match Instruction.compile tree with
      | .ok root => .ok root.size
      | .error reason => .error (.rejected path reason)

theorem ProgramFile.check_eq {m : Type → Type} [Monad m] [LawfulMonad m] (host : Host m) (path : String) :
    check host path = checkText path <$> host.read? path := by
  rw [check, compile, readJson, map_eq_pure_bind]
  simp only [bind_assoc]
  refine bind_congr fun text? => ?_
  cases text? with
  | none => simp [checkText, Except.map]
  | some text =>
    cases read : Json.read? text with
    | none => simp [checkText, read, Except.map]
    | some tree => cases compiled : Instruction.compile tree <;> simp [checkText, read, compiled, Except.map]

/-- A list at the root is run as a block, which is one instruction more, at the root and without a type. -/
def Json.rootBlock : Json → List Path
  | .array _ => [[]]
  | _ => []

namespace Instruction

variable {tree : Json} {root : Instruction}

theorem compile_of_build (built : Node.build tree = .ok (.instruction root)) : compile tree = .ok root := by
  rw [compile, built]

theorem compile_cases (compiled : compile tree = .ok root) :
    (tree.rootBlock = [] ∧ Node.build tree = .ok (.instruction root)) ∨
      ∃ node lines, tree.rootBlock = [[]] ∧ root = .block lines ∧ Node.build tree = .ok node ∧
        node.listOf? Node.instruction? = some lines := by
  unfold compile at compiled
  cases built : Node.build tree with
  | error e => simp [built] at compiled
  | ok node =>
    cases Node.build_ok.mp built with
    | instruction =>
      rw [built] at compiled
      cases compiled
      exact .inl ⟨rfl, rfl⟩
    | @array items nodes all =>
      cases lines : nodes.mapM Node.instruction? with
      | none => simp [built, lines] at compiled
      | some contents =>
        obtain rfl : Instruction.block contents = root := by simpa [built, lines] using compiled
        exact .inr ⟨_, contents, rfl, rfl, rfl, lines⟩
    | _ => simp [built] at compiled

/-- The instructions of a tree that count are built into the nodes of its program, one for one; a list at the root is
one more node. -/
theorem exists_places (compiled : compile tree = .ok root) :
    ∃ places : List Path, places.Nodup ∧ (∀ place, place ∈ places ↔ tree.Counts place) ∧
      List.Forall₂ (fun place node => ∃ part, tree.at? place = some part ∧ compile part = .ok node)
        (tree.rootBlock ++ places) root.nodes := by
  have compiles : ∀ place node, (∃ part, tree.at? place = some part ∧ Node.build part = .ok (.instruction node)) →
      ∃ part, tree.at? place = some part ∧ compile part = .ok node :=
    fun place node => fun ⟨part, found, built⟩ => ⟨part, found, compile_of_build built⟩
  obtain ⟨noBlock, built⟩ | ⟨node, lines, block, rfl, built, read⟩ := compile_cases compiled
  · obtain ⟨places, nodup, mem_iff, stand⟩ := root.isCounted tree built
    rw [noBlock]
    exact ⟨places, nodup, mem_iff, stand.imp compiles⟩
  · obtain ⟨places, nodup, mem_iff, stand⟩ := Json.bears_instructions (fun line _ => line.isCounted) built read
    -- The block has no type, so it is none of the places, but it is built from the tree as a whole.
    rw [block, nodes_eq]
    exact ⟨places, nodup, mem_iff, .cons ⟨tree, rfl, compiled⟩ (stand.imp compiles)⟩

/-- The size of a program is the number of the objects with a type in its tree that count, each at a place of its own,
and one more for a list at the root. What is built at these places are the nodes of the program, in their order. A check
of a file that holds the tree answers the size, and no process of a run evaluates anything but the nodes. -/
theorem compile_counts_nodes (compiled : compile tree = .ok root) :
    (∃ places : List Path, places.Nodup ∧ (∀ place, place ∈ places ↔ tree.Counts place) ∧
      root.size = places.length + tree.rootBlock.length ∧
      List.Forall₂ (fun place node => ∃ part, tree.at? place = some part ∧ compile part = .ok node)
        (tree.rootBlock ++ places) root.nodes) ∧
    (∀ path, ∃ answer : Option String → Except FileError Nat,
      (∀ {m : Type → Type} [Monad m] [LawfulMonad m] (host : Host m),
        ProgramFile.check host path = answer <$> host.read? path) ∧
      ∀ text, Json.read? text = some tree → answer (some text) = .ok root.size) ∧
    ∀ clock libraries document process machine node scope,
      (Program.mk root clock libraries).Visits document (process, machine) →
        process.Involves (.evaluating node scope) → node ∈ root.nodes := by
  refine ⟨?_, fun path => ⟨ProgramFile.checkText path, fun host => ProgramFile.check_eq host path, ?_⟩, ?_⟩
  · obtain ⟨places, nodup, mem_iff, stand⟩ := exists_places compiled
    refine ⟨places, nodup, mem_iff, ?_, stand⟩
    rw [size_eq_length_nodes, ← stand.length_eq, List.length_append, Nat.add_comm]
  · intro text read
    simp only [ProgramFile.checkText, read, compiled]
  · intro clock libraries document process machine node scope visits involves
    exact Program.mem_nodes_of_visits visits involves

/-- A list of four instructions that count and two that do not: the argument of a title, and a note beside the operand of
a fold. Both are words of truth, and no run evaluates one. -/
theorem compile_counts_nodes_list :
    let text := "[\x7b\"type\":\"Translate\",\"value\":\x7b\"type\":\"True\"\x7d\x7d,\x7b\"type\":\"And\"," ++
      "\"init\":\x7b\"type\":\"Scope\"\x7d,\"list\":[\x7b\"operator\":\"and\"," ++
      "\"note\":\x7b\"type\":\"True\"\x7d,\"value\":\x7b\"type\":\"Break\"\x7d\x7d]\x7d]"
    let tree : Json := .array [.object [("type", .string "Translate"), ("value", .object [("type", .string "True")])],
      .object [("type", .string "And"), ("init", .object [("type", .string "Scope")]),
        ("list", .array [.object [("operator", .string "and"), ("note", .object [("type", .string "True")]),
          ("value", .object [("type", .string "Break")])]])]]
    let root : Instruction := .block [.translate "" (some (.truth true)), .fold .conjunction .scope [("and", .stop)]]
    let program : Program := ⟨root, ⟨"2024-01-01", none⟩, []⟩
    compile tree = .ok root ∧
      (∃ places : List Path, places.Nodup ∧ (∀ place, place ∈ places ↔ tree.Counts place) ∧ places.length = 4) ∧
      ProgramFile.check (⟨fun _ => some text, []⟩ : Host Id) "rules.json" = .ok 5 ∧
      ∀ process machine scope, program.Visits .null (process, machine) →
        ¬ process.Involves (.evaluating (.truth true) scope) := by
  intro text tree root program
  have compiles : compile tree = .ok root := rfl
  have reads : Json.read? text = some tree := by
    unfold text tree
    cbv
  obtain ⟨⟨places, nodup, mem_iff, size, -⟩, checks, runs⟩ := compile_counts_nodes compiles
  have counted : 5 = places.length + 1 := size
  refine ⟨compiles, ⟨places, nodup, mem_iff, by omega⟩, ?_, fun process machine scope visits involves => ?_⟩
  · obtain ⟨answer, reported, answers⟩ := checks "rules.json"
    exact (reported _).trans (answers text reads)
  · have known : root.nodes = [root, .translate "" (some (.truth true)), .fold .conjunction .scope [("and", .stop)],
        .scope, .stop] := by simp [root, nodes_eq, evaluated, parts]
    have inside := runs _ _ _ process machine _ scope visits involves
    simp [known, root] at inside

end Instruction

end RuleScript
