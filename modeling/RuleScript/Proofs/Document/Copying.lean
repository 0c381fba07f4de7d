import RuleScript.Proofs.Run.Adequacy
import RuleScript.Proofs.Value.Growing
import RuleScript.Proofs.Value.Rendering

/-! Writing back what was read.

A node that is read becomes a value, and a value that is written becomes a node. Objects stay views all the way, so they
come back as they are, and so do arrays of what comes back. An empty text comes back as `null` and a number in cents.
-/

set_option autoImplicit false

namespace RuleScript

mutual

/-- What a node has become after it was read as a value and written. -/
def Json.settled : Json → Json
  | .string text => if text.isEmpty then .null else .string text
  | .integer n => numberNative (Float.ofInt n)
  | .float x => numberNative x
  | .array items => .array (settledItems items)
  | node => node

def Json.settledItems : List Json → List Json
  | [] => []
  | item :: rest => item.settled :: settledItems rest

end

/-- A node that comes back as it was: no text in it is empty and all its numbers are in cents already, where arrays
count with all that is in them and objects count for nothing. -/
inductive Json.Settled : Json → Prop where
  | null : Settled .null
  | bool (value : Bool) : Settled (.bool value)
  | integer {n : Int} (same : numberNative (Float.ofInt n) = .integer n) : Settled (.integer n)
  | float {x : Float} (same : numberNative x = .float x) : Settled (.float x)
  | string {text : String} (filled : text.isEmpty = false) : Settled (.string text)
  | array {items : List Json} (each : ∀ item ∈ items, Settled item) : Settled (.array items)
  | object (members : List (String × Json)) : Settled (.object members)

namespace Json

theorem settledItems_eq (items : List Json) : settledItems items = items.map settled := by
  induction items with
  | nil => rfl
  | cons item rest ih => rw [settledItems, ih, List.map_cons]

mutual

theorem Settled.of_settled_eq (node : Json) (same : node.settled = node) : node.Settled := by
  cases node with
  | null => exact .null
  | bool value => exact .bool value
  | integer => exact .integer same
  | float => exact .float same
  | string text =>
    refine .string ?_
    cases empty : text.isEmpty with
    | true => simp [settled, empty] at same
    | false => rfl
  | array items => exact .array (settled_of_settledItems_eq items (Json.array.inj same))
  | object members => exact .object members

theorem settled_of_settledItems_eq (items : List Json) (same : settledItems items = items) :
    ∀ item ∈ items, item.Settled := by
  cases items with
  | nil => exact List.forall_mem_nil _
  | cons item rest =>
    obtain ⟨head, tail⟩ := List.cons.inj same
    exact List.forall_mem_cons.mpr ⟨.of_settled_eq item head, settled_of_settledItems_eq rest tail⟩

end

theorem Settled.settled_eq {node : Json} (settled : node.Settled) : node.settled = node := by
  induction settled with
  | null | bool | object => rfl
  | integer same | float same => exact same
  | string filled => simp [Json.settled, filled]
  | array _ ih => rw [Json.settled, settledItems_eq, (List.map_congr_left ih).trans (List.map_id' _)]

theorem settled_iff {node : Json} : node.Settled ↔ node.settled = node :=
  ⟨Settled.settled_eq, .of_settled_eq node⟩

end Json

section Reading

variable {memory later : Memory} {value : Value} {node : Json}

def Memory.Extends (memory later : Memory) : Prop :=
  memory.Grows later ∧ later.documents = memory.documents

theorem Memory.Extends.trans {last : Memory} (first : memory.Extends later) (second : later.Extends last) :
    memory.Extends last :=
  ⟨first.1.trans second.1, second.2.trans first.2⟩

theorem Memory.Extends.document (more : memory.Extends later) (index : Nat) :
    later.document index = memory.document index := by
  rw [Memory.document, more.2, Memory.document]

theorem View.node?_extends (view : View) (more : memory.Extends later) : view.node? later = view.node? memory := by
  rw [node?, more.document, node?]

theorem Value.native_extends (plain : value.container? = none) (more : memory.Extends later) :
    value.native later = value.native memory := by
  cases value with
  | array | object => cases plain
  | data view => rw [native_data, native_data, View.native, View.native, view.node?_extends more]
  | _ => simp only [native, nativeWithin]

theorem Memory.Extends.container {container : Container} (more : memory.Extends later)
    (there : memory.cell? container.place ≠ none) :
    later.cell? container.place ≠ none ∧ later.contents container = memory.contents container ∧
      later.form container = memory.form container := by
  obtain ⟨cell, holds⟩ := Option.ne_none_iff_exists'.mp there
  have still := more.1 _ _ holds
  refine ⟨by rw [still]; exact nofun, ?_⟩
  cases container with
  | array place =>
    have same := Cell.items.inj ((items_of_cell still).symm.trans (items_of_cell holds))
    exact ⟨by rw [contents, contents, same], rfl⟩
  | object place =>
    have same := Cell.members.inj ((members_of_cell still).symm.trans (members_of_cell holds))
    exact ⟨by rw [contents, contents, same], by funext nodes; rw [form, form, same]⟩

theorem Memory.extends_addArray (memory : Memory) (values : List Value) :
    memory.Extends (memory.addArray values.toArray).2 ∧
      (memory.addArray values.toArray).2.cell? (.array memory.arrays.size) ≠ none ∧
      (memory.addArray values.toArray).2.contents (.array memory.arrays.size) = values := by
  have puts := memory.puts_addArray values.toArray
  have new := puts (.array memory.arrays.size)
  rw [if_pos rfl] at new
  refine ⟨⟨puts.grows cell?_new_array, rfl⟩, by rw [new]; exact nofun, ?_⟩
  rw [contents, ← Cell.items.inj (items_of_cell new)]

theorem Unfolds.of_plain (plain : value.container? = none) (same : value.native memory = node) :
    Unfolds memory value node :=
  same ▸ .plain plain

theorem Unfolds.mono (unfolds : Unfolds memory value node) (more : memory.Extends later) :
    Unfolds later value node := by
  induction unfolds with
  | plain none => exact Value.native_extends none more ▸ .plain none
  | opened is there size _ ih =>
    obtain ⟨still, contents, form⟩ := more.container there
    rw [← form]
    rw [← contents] at size ih
    exact .opened is still size ih

mutual

/-- A node is read as a value that unfolds to what the node comes back as. -/
theorem Json.project_unfolds (view : View) (node : Json) (memory : Memory) (found : view.node? memory = some node) :
    memory.Extends (node.project view memory).2 ∧
      Unfolds (node.project view memory).2 (node.project view memory).1 node.settled := by
  have same : memory.Extends memory := ⟨.refl memory, rfl⟩
  cases node with
  | null => exact ⟨same, .of_plain rfl (Value.native_empty memory)⟩
  | bool b => exact ⟨same, .of_plain rfl (Value.native_bool memory b)⟩
  | integer n => exact ⟨same, .of_plain rfl (Value.native_number memory (Float.ofInt n))⟩
  | float x => exact ⟨same, .of_plain rfl (Value.native_number memory x)⟩
  | string text =>
    refine ⟨same, ?_⟩
    change Unfolds memory (if text.isEmpty then .empty else .text text) (Json.settled (.string text))
    rw [Json.settled]
    cases text.isEmpty with
    | true => exact .of_plain rfl (Value.native_empty memory)
    | false => exact .of_plain rfl (Value.native_text memory text)
  | object members =>
    refine ⟨same, .of_plain rfl ((Value.native_data memory view).trans ?_)⟩
    rw [View.native, found]
    rfl
  | array items =>
    -- The items are read first, each at its place in the array; then the array of their values is made.
    obtain ⟨grows, size, each⟩ := Json.projectItems_unfolds view 0 items memory fun offset item there => by
      rw [View.node?_child found, Nat.zero_add]
      exact there
    generalize made : Json.projectItems view 0 items memory = read at grows size each
    obtain ⟨values, later⟩ := read
    have project : (Json.array items).project view memory = later.addArray values.toArray :=
      congrArg (fun read : List Value × Memory => read.2.addArray read.1.toArray) made
    obtain ⟨more, there, contents⟩ := later.extends_addArray values
    rw [project]
    refine ⟨grows.trans more, .opened rfl there (by rw [contents, size]) ?_⟩
    rw [contents]
    exact fun pair member => (each pair member).mono more

theorem Json.projectItems_unfolds (view : View) (position : Nat) (items : List Json) (memory : Memory)
    (found : ∀ offset item, items[offset]? = some item →
      (view.child (.index (position + offset))).node? memory = some item) :
    memory.Extends (Json.projectItems view position items memory).2 ∧
      (Json.settledItems items).length = (Json.projectItems view position items memory).1.length ∧
      ∀ pair ∈ (Json.projectItems view position items memory).1.zip (Json.settledItems items),
        Unfolds (Json.projectItems view position items memory).2 pair.1 pair.2 := by
  cases items with
  | nil => exact ⟨⟨.refl memory, rfl⟩, rfl, List.forall_mem_nil _⟩
  | cons item rest =>
    obtain ⟨first, head⟩ :=
      Json.project_unfolds (view.child (.index position)) item memory (found 0 item rfl)
    obtain ⟨grows, size, each⟩ := Json.projectItems_unfolds view (position + 1) rest
      (Json.project (view.child (.index position)) item memory).2 fun offset item there => by
        rw [View.node?_extends _ first, Nat.add_right_comm, Nat.add_assoc]
        exact found (offset + 1) item there
    refine ⟨first.trans grows, congrArg Nat.succ size, ?_⟩
    exact List.forall_mem_cons.mpr ⟨head.mono grows, each⟩

end

end Reading

theorem Fields.put_self {α : Type} {fields : Fields α} {name : String} {value : α}
    (holds : get? fields name = some value) : put fields name value = fields := by
  induction fields with
  | nil => cases holds
  | cons head rest ih =>
    obtain ⟨key, old⟩ := head
    rw [get?] at holds
    by_cases here : key = name
    · rw [if_pos here] at holds
      rw [put, if_pos here, Option.some.inj holds]
    · rw [if_neg here] at holds
      rw [put, if_neg here, ih holds]

namespace Json

variable {node next : Json} {path : Path} {name : String}

theorem replaceChild_self {step : Step} (child : node.child? step = some next) :
    node.replaceChild step next = node := by
  cases node with
  | array items =>
    cases step with
    | index position =>
      obtain ⟨inside, rfl⟩ := List.getElem?_eq_some_iff.mp child
      exact congrArg array (List.set_getElem_self inside)
    | key => cases child
  | object members =>
    cases step with
    | index => cases child
    | key key => exact congrArg object (Fields.put_self child)
  | _ => cases child

theorem putAt?_self {members : Fields Json} (found : node.at? path = some (.object members))
    (holds : Fields.get? members name = some next) : putAt? name next node path = some node := by
  induction path generalizing node with
  | nil =>
    cases found
    exact congrArg (some ∘ object) (Fields.put_self holds)
  | cons step rest ih =>
    rw [at?_cons] at found
    obtain ⟨below, child, found⟩ := Option.bind_eq_some_iff.mp found
    rw [putAt?_cons, child, Option.bind_some, ih found, Option.map_some, replaceChild_self child]

end Json

theorem View.has_extends (view : View) (name : String) {memory later : Memory} (more : memory.Extends later) :
    view.has name later = view.has name memory := by
  simp only [has, view.node?_extends more]

theorem Arena.binding?_extends {arena : Arena} {scope : ScopeId} {name : String} {memory later : Memory}
    (more : memory.Extends later) : arena.binding? later scope name = arena.binding? memory scope name := by
  have same : arena.bindingIn? later name = arena.bindingIn? memory name := by
    funext id
    simp only [bindingIn?, View.has_extends _ name more]
  rw [binding?, binding?, same]

namespace View

variable {view : View} {name : String} {memory later : Memory}

/-- The document is as it was, for a member that comes back as it was. -/
theorem set_self {value : Value} {node : Json} {members : Fields Json}
    (found : view.node? memory = some (.object members)) (holds : Fields.get? members name = some node)
    (same : value.native memory = node) :
    (view.set name value memory).2.document view.document = memory.document view.document := by
  rw [set_apply, same, Json.putAt?_self found holds]
  simp only [Memory.document, Array.getD_eq_getD_getElem?, Array.getElem?_setIfInBounds_self]
  split <;> simp [*]

/-- A script reads a name and assigns the value to it. -/
theorem evaluate_copies {clock : Clock} {depth : Nat} {scope : ScopeId} {name : String} {value : Value}
    {machine read later : Machine} (looked : Machine.lookUp scope name machine = .done read (.ok value))
    (assigned : Machine.assign scope name value read = .done later (.ok value)) :
    evaluate clock (depth + 3) (.assignment name (.access .get [.scope, .text name])) scope machine =
      .done later (.ok (.value value)) := by
  have reads : evaluate clock (depth + 2) (.access .get [.scope, .text name]) scope machine =
      .done read (.ok (.value value)) := by
    change (Machine.lookUp scope name >>= fun value => pure (Flow.value value)) machine = _
    rw [Run.bind_apply, looked]
    rfl
  change (evaluate clock (depth + 2) (.access .get [.scope, .text name]) scope >>= fun flow =>
    flow.withValue fun value => Machine.assign scope name value >>= fun value => pure (Flow.value value)) machine = _
  rw [Run.bind_apply, reads]
  change (Machine.assign scope name value >>= fun value => pure (Flow.value value)) read = _
  rw [Run.bind_apply, assigned]
  rfl

/-- Writing back what was read changes no more than the node that was read: it becomes what it comes back as. The
document is as it was exactly for a node that comes back as it was, also if a script assigns a name of a viewed object
to itself. -/
theorem set_get_settles (held : view.has name memory = true) :
    ∃ node value read later,
      (view.child (.key name)).node? memory = some node ∧
      view.get name memory = (value, read) ∧ read.documents = memory.documents ∧
      view.set name value read = (value, later) ∧ view.Writes name node.settled read later ∧
      (later.document view.document = memory.document view.document ↔ node.Settled) ∧
      ∀ clock depth arena scope, arena.binding? memory scope name = some (.member view) →
        (evaluate clock (depth + 3) (.assignment name (.access .get [.scope, .text name])) scope).perform
          ⟨arena, memory⟩ = some (.ok (.value value), ⟨arena, later⟩) := by
  obtain ⟨members, node, found, holds⟩ := has_iff_get?.mp held
  obtain ⟨below, reads⟩ := get_of_member found holds
  obtain ⟨more, unfolds⟩ := Json.project_unfolds (view.child (.key name)) node memory below
  have settles := Value.native_of_unfolds unfolds
  rw [← reads] at more unfolds settles
  have still : view.node? (view.get name memory).2 = some (.object members) := by rw [node?_extends view more, found]
  obtain ⟨later, written, writes⟩ := set_of_object name (view.get name memory).1 still
  rw [settles] at writes
  refine ⟨node, (view.get name memory).1, (view.get name memory).2, later, below, rfl, more.2, written, writes,
    ⟨fun same => ?_, fun settled => ?_⟩, fun clock depth arena scope bound => ?_⟩
  · -- In an equal document the key has what it had, and it has what came back.
    obtain ⟨-, after, -, wrote, -, last, -⟩ := writes.object
    rw [node?, same] at wrote
    cases found.symm.trans wrote
    exact Json.settled_iff.mpr (Option.some.inj (last.symm.trans holds))
  · have same := set_self still holds (settles.trans settled.settled_eq)
    rwa [written, more.document] at same
  · have looked : Machine.lookUp scope name ⟨arena, memory⟩ =
        .done ⟨arena, (view.get name memory).2⟩ (.ok (view.get name memory).1) := by
      rw [Machine.lookUp_apply, bound]
    refine Run.perform_done (evaluate_copies looked ?_)
    rw [Machine.assign_apply, Arena.binding?_extends more, bound]
    simp only [written]

/-- A list in a list is read as new arrays of what is in it, and comes back as it was. -/
theorem set_get_settles_nested :
    let node : Json := .array [.bool true, .array [.string "x", .object [("", .string "")], .float 0.25], .null]
    let view : View := ⟨0, [.index 0]⟩
    let memory : Memory := .ofDocument (.array [.object [("first", .integer 1), ("a", node)]])
    view.has "a" memory = true ∧
    ∃ value later, view.set "a" value (view.get "a" memory).2 = (value, later) ∧
      later.document 0 = memory.document 0 := by
  intro node view memory
  have held : view.has "a" memory = true := by decide
  obtain ⟨found, value, read, later, below, reads, -, written, -, settled, -⟩ := set_get_settles held
  cases below
  have inner : (Json.array [.string "x", .object [("", .string "")], .float 0.25]).Settled :=
    .array (by simpa [Json.Settled.object] using ⟨.string (by decide), .float (by rfl)⟩)
  refine ⟨held, value, later, by rwa [reads], settled.mpr (.array ?_)⟩
  simpa [Json.Settled.bool, Json.Settled.null] using inner

/-- An empty text is `null` after it was read and written, and a number of three decimals has two. -/
theorem set_get_changes_empty_text :
    let view : View := ⟨0, []⟩
    let memory : Memory := .ofDocument (.object [("text", .string ""), ("number", .float 0.333)])
    let copied (name : String) : Memory := (view.set name (view.get name memory).1 (view.get name memory).2).2
    (view.has "text" memory = true ∧ (copied "text").document 0 ≠ memory.document 0) ∧
      view.has "number" memory = true ∧ (copied "number").document 0 ≠ memory.document 0 := by
  intro view memory copied
  have text : (copied "text").document 0 = .object [("text", .null), ("number", .float 0.333)] := rfl
  have number : (copied "number").document 0 = .object [("text", .string ""), ("number", .float 0.33)] := rfl
  have before : memory.document 0 = .object [("text", .string ""), ("number", .float 0.333)] := rfl
  have different : (0.33 : Float) ≠ 0.333 := by decide
  refine ⟨⟨by decide, ?_⟩, by decide, ?_⟩
  · simp [text, before]
  · simp [number, before, different]

end View

end RuleScript
