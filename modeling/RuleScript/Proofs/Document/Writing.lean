import Mathlib.Data.List.Infix
import RuleScript.Proofs.Value.Handles

/-! Writing a member of a host document.

A write goes through a view, which is a path into a document. It changes one key of the object there; what stands
anywhere else is found as before, and every view of that place reads what was written.
-/

set_option autoImplicit false

namespace RuleScript

namespace Json

variable {node after : Json} {path other : Path} {step : Step} {name : String} {value : Json}

theorem at?_cons (node : Json) (step : Step) (rest : Path) :
    node.at? (step :: rest) = (node.child? step).bind (·.at? rest) := by
  rw [at?]
  cases node.child? step <;> rfl

theorem at?_append (node : Json) (path rest : Path) :
    node.at? (path ++ rest) = (node.at? path).bind (·.at? rest) := by
  induction path generalizing node with
  | nil => rfl
  | cons step path ih =>
    rw [List.cons_append, at?_cons, at?_cons]
    cases node.child? step with
    | none => rfl
    | some next => exact ih next

theorem at?_concat (node : Json) (path : Path) (step : Step) :
    node.at? (path ++ [step]) = (node.at? path).bind (·.child? step) := by
  rw [at?_append]
  congr 1
  funext next
  rw [at?_cons]
  cases next.child? step <;> rfl

theorem child?_replaceChild_self {old : Json} (there : node.child? step = some old) :
    (node.replaceChild step value).child? step = some value := by
  cases node with
  | array items =>
    cases step with
    | index position =>
      obtain ⟨inside, -⟩ := List.getElem?_eq_some_iff.mp there
      simp [replaceChild, child?, inside]
    | key => cases there
  | object members =>
    cases step with
    | index => cases there
    | key key => simp [replaceChild, child?]
  | _ => cases there

theorem child?_replaceChild_of_ne {second : Step} (different : second ≠ step) :
    (node.replaceChild step value).child? second = node.child? second := by
  cases node with
  | array items =>
    cases step with
    | index position =>
      cases second with
      | index other =>
        have apart : position ≠ other := fun same => different (congrArg Step.index same.symm)
        simp [replaceChild, child?, apart]
      | key => rfl
    | key => rfl
  | object members =>
    cases step with
    | index => rfl
    | key key =>
      cases second with
      | index => rfl
      | key other =>
        exact Fields.get?_put_of_ne members value fun same => different (congrArg Step.key same)
  | _ => rfl

theorem putAt?_cons (node : Json) (step : Step) (rest : Path) :
    putAt? name value node (step :: rest) =
      (node.child? step).bind fun next => (putAt? name value next rest).map (node.replaceChild step ·) := by
  cases node <;> (rw [putAt?]; cases child? _ step <;> rfl)

theorem putAt?_of_object (name : String) (value : Json) {members : Fields Json}
    (found : node.at? path = some (.object members)) :
    ∃ after, putAt? name value node path = some after ∧
      after.at? path = some (.object (Fields.put members name value)) := by
  induction path generalizing node with
  | nil =>
    cases found
    exact ⟨_, rfl, rfl⟩
  | cons step rest ih =>
    rw [at?_cons] at found
    obtain ⟨next, child, below⟩ := Option.bind_eq_some_iff.mp found
    obtain ⟨later, wrote, reads⟩ := ih below
    refine ⟨node.replaceChild step later, ?_, ?_⟩
    · rw [putAt?_cons, child, Option.bind_some, wrote, Option.map_some]
    · rw [at?_cons, child?_replaceChild_self child, Option.bind_some, reads]

theorem putAt?_of_no_object (none : ∀ members, node.at? path ≠ some (.object members)) :
    putAt? name value node path = .none := by
  induction path generalizing node with
  | nil =>
    cases node with
    | object members => exact absurd rfl (none members)
    | _ => rfl
  | cons step rest ih =>
    rw [putAt?_cons]
    cases child : node.child? step with
    | none => rfl
    | some next =>
      rw [Option.bind_some, ih fun members found => none members ?_]
      · rfl
      · rw [at?_cons, child, Option.bind_some, found]

/-- A path that does not lead through the written key, and not to a node above it, leads where it led before. -/
theorem at?_putAt?_of_apart (wrote : putAt? name value node path = some after)
    (past : ¬ path ++ [.key name] <+: other) (above : ¬ other <+: path) : after.at? other = node.at? other := by
  induction path generalizing node after other with
  | nil =>
    cases other with
    | nil => exact absurd List.prefix_rfl above
    | cons head tail =>
      have different : head ≠ .key name := by
        rintro rfl
        exact past (by simp)
      cases node with
      | object members =>
        cases wrote
        have same : ((object members).replaceChild (.key name) value).child? head = (object members).child? head :=
          child?_replaceChild_of_ne different
        rw [at?_cons, at?_cons]
        exact congrArg (Option.bind · _) same
      | _ => cases wrote
  | cons step rest ih =>
    rw [putAt?_cons] at wrote
    obtain ⟨next, child, wrote⟩ := Option.bind_eq_some_iff.mp wrote
    obtain ⟨later, below, rfl⟩ := Option.map_eq_some_iff.mp wrote
    cases other with
    | nil => exact absurd List.nil_prefix above
    | cons head tail =>
      rw [at?_cons, at?_cons]
      -- Along the written path the induction goes on; beside it nothing was replaced.
      by_cases same : head = step
      · subst same
        rw [child?_replaceChild_self child, child, Option.bind_some, Option.bind_some]
        exact ih below (by simpa using past) (by simpa using above)
      · rw [child?_replaceChild_of_ne same]

end Json

/-- What a write through a view changes: the one key of the object that is viewed. -/
structure View.Writes (view : View) (name : String) (node : Json) (memory later : Memory) : Prop where
  arrays : later.arrays = memory.arrays
  objects : later.objects = memory.objects
  /-- Other documents are as before. -/
  documents : ∀ other, other ≠ view.document → later.document other = memory.document other
  /-- So is each place in the document that is not below the written key, and not above it. -/
  elsewhere : ∀ path, ¬ view.path ++ [.key name] <+: path → ¬ path <+: view.path →
    (later.document view.document).at? path = (memory.document view.document).at? path
  /-- The object has the names that it had, in their order, and at the end the written one if it is new. -/
  object : ∃ members after, view.node? memory = some (.object members) ∧ view.node? later = some (.object after) ∧
    after.map Prod.fst =
      (if Fields.contains members name then members.map Prod.fst else members.map Prod.fst ++ [name]) ∧
    Fields.get? after name = some node ∧
    ∀ other, other ≠ name → Fields.get? after other = Fields.get? members other

namespace View

variable {view : View} {name : String} {value : Value} {memory later : Memory}

theorem has_iff : view.has name memory = true ↔
    ∃ members, view.node? memory = some (.object members) ∧ Fields.contains members name = true := by
  unfold has
  cases view.node? memory with
  | none => simp
  | some node => cases node <;> simp

theorem has_iff_get? : view.has name memory = true ↔
    ∃ members node, view.node? memory = some (.object members) ∧ Fields.get? members name = some node := by
  simp only [has_iff, Fields.contains_eq_isSome, Option.isSome_iff_exists, exists_and_left]

theorem set_of_object (name : String) (value : Value) {members : Fields Json}
    (found : view.node? memory = some (.object members)) :
    ∃ later, view.set name value memory = (value, later) ∧ view.Writes name (value.native memory) memory later := by
  obtain ⟨document, wrote, reads⟩ := Json.putAt?_of_object name (value.native memory) found
  have inside : view.document < memory.documents.size := by
    -- A document that is not there counts as `null`, which holds no object.
    by_contra outside
    have gone : memory.document view.document = .null := by
      simp [Memory.document, Array.getD_eq_getD_getElem?, Nat.not_lt.mp outside]
    rw [gone] at wrote
    cases path : view.path <;> simp [path, Json.putAt?, Json.child?] at wrote
  let later : Memory := { memory with documents := memory.documents.setIfInBounds view.document document }
  have here : later.document view.document = document := by
    simp [later, Memory.document, Array.getD_eq_getD_getElem?, inside]
  refine ⟨later, by rw [set_apply, wrote], ?_⟩
  exact {
    arrays := rfl
    objects := rfl
    documents := fun other different => by
      simp [later, Memory.document, Array.getD_eq_getD_getElem?, Ne.symm different]
    elsewhere := fun path past above => by
      rw [here]
      exact Json.at?_putAt?_of_apart wrote past above
    object := ⟨members, Fields.put members name (value.native memory), found, by rw [node?, here, reads],
      Fields.keys_put members name _, Fields.get?_put_self members name _,
      fun other different => Fields.get?_put_of_ne members _ different⟩ }

theorem set_of_no_object (none : ∀ members, view.node? memory ≠ some (.object members)) :
    view.set name value memory = (.empty, memory) := by
  rw [set_apply, Json.putAt?_of_no_object none]

theorem Writes.has {node : Json} (writes : view.Writes name node memory later) : view.has name later = true := by
  obtain ⟨-, after, -, found, -, reads, -⟩ := writes.object
  exact has_iff_get?.mpr ⟨after, node, found, reads⟩

theorem node?_child {node : Json} (found : view.node? memory = some node) (step : Step) :
    (view.child step).node? memory = node.child? step := by
  change (memory.document view.document).at? (view.path ++ [step]) = _
  rw [Json.at?_concat]
  change (view.node? memory).bind _ = _
  rw [found, Option.bind_some]

theorem get_of_member {members : Fields Json} {node : Json} (found : view.node? memory = some (.object members))
    (holds : Fields.get? members name = some node) :
    (view.child (.key name)).node? memory = some node ∧
      view.get name memory = node.project (view.child (.key name)) memory := by
  have step : (view.node? memory).bind (stepTo? name) = some (.key name) := by
    rw [found, Option.bind_some, stepTo?, Fields.contains_eq_isSome, holds]
    rfl
  have below : (view.child (.key name)).node? memory = some node := (node?_child found (.key name)).trans holds
  refine ⟨below, ?_⟩
  rw [get_apply, step]
  dsimp only
  rw [project_apply, below]

theorem Writes.get {node : Json} (writes : view.Writes name node memory later) :
    view.get name later = node.project (view.child (.key name)) later := by
  obtain ⟨-, after, -, found, -, reads, -⟩ := writes.object
  exact (get_of_member found reads).2

/-- A write through a view finds an object and changes one key of it, to the host form that the value had before the
write; every view of that object reads the key as the projection of that form. Or it finds none, changes nothing and
answers missing data. The value may itself view the document that is written. -/
theorem set_changes_one_key (view : View) (name : String) (value : Value) (memory : Memory) :
    (∀ members, view.node? memory = some (.object members) →
      ∃ later, view.set name value memory = (value, later) ∧
        view.Writes name (value.native memory) memory later ∧
        ∀ reader : View, reader.document = view.document → reader.path = view.path →
          reader.get name later = (value.native memory).project (view.child (.key name)) later) ∧
    ((∀ members, view.node? memory ≠ some (.object members)) →
      view.set name value memory = (.empty, memory)) := by
  refine ⟨fun members found => ?_, set_of_no_object⟩
  obtain ⟨later, answered, writes⟩ := set_of_object name value found
  refine ⟨later, answered, writes, fun reader document path => ?_⟩
  obtain ⟨_, _⟩ := reader
  cases document
  cases path
  exact writes.get

/-- A whole document is written in the place of a part of itself. -/
theorem set_changes_one_key_within_itself :
    let part : Json := .object [("b", .bool true)]
    let document : Json := .object [("a", part)]
    let view : View := ⟨0, [.key "a"]⟩
    view.node? (.ofDocument document) = some part ∧
    ∃ later, view.set "b" (.data ⟨0, []⟩) (.ofDocument document) = (.data ⟨0, []⟩, later) ∧
      view.Writes "b" document (.ofDocument document) later ∧
      view.get "b" later = (.data (view.child (.key "b")), later) := by
  intro part document view
  have found : view.node? (.ofDocument document) = some part := rfl
  obtain ⟨later, answered, writes, reads⟩ :=
    (set_changes_one_key view "b" (.data ⟨0, []⟩) (.ofDocument document)).1 _ found
  exact ⟨found, later, answered, writes, reads view rfl rfl⟩

end View

end RuleScript
