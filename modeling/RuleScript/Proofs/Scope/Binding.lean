import RuleScript.Proofs.Document.Writing
import RuleScript.Proofs.Run.Machine
import RuleScript.Proofs.Scope.Chain

/-! Names and what they are bound to.

On the way up from a scope the first one that has a name binds it: by a variable, or else by the object that it views.
Reading and writing a name are about that binding and no other.
-/

set_option autoImplicit false

namespace RuleScript

namespace Arena

variable {arena : Arena} {memory : Memory} {scope owner : ScopeId} {name : String} {path : List ScopeId}
  {binding : Binding} {view : View}

/-- What a scope binds depends on the names of its variables and on its view. -/
theorem bindingIn?_congr {later : Arena}
    (locals : Fields.contains (later.frame scope).locals name = Fields.contains (arena.frame scope).locals name)
    (view : (later.frame scope).view = (arena.frame scope).view) :
    later.bindingIn? memory name scope = arena.bindingIn? memory name scope := by
  simp only [bindingIn?, locals, view]

namespace Path

theorem binding? (walk : arena.Path scope path) :
    arena.binding? memory scope name = path.findSome? (arena.bindingIn? memory name) := by
  rw [Arena.binding?, walk.chain]

theorem binding?_of_self (walk : arena.Path scope path) (here : arena.bindingIn? memory name scope = some binding) :
    arena.binding? memory scope name = some binding := by
  rw [walk.binding?]
  cases walk <;> simp [here]

theorem binding?_of_split {below above : List ScopeId} (walk : arena.Path scope (below ++ owner :: above))
    (none : ∀ id ∈ below, arena.bindingIn? memory name id = .none)
    (here : arena.bindingIn? memory name owner = some binding) :
    arena.binding? memory scope name = some binding := by
  rw [walk.binding?]
  exact List.findSome?_eq_some_iff.mpr ⟨below, owner, above, rfl, here, none⟩

end Path

end Arena

/-- A scope that has a name: as a variable, or as a member of the object that it views. -/
def Machine.Binds (machine : Machine) (name : String) (scope : ScopeId) : Prop :=
  Fields.contains (machine.arena.frame scope).locals name = true ∨
    ∃ view members, (machine.arena.frame scope).view = some view ∧
      view.node? machine.memory = some (.object members) ∧ Fields.contains members name = true

structure Machine.WritesVariable (machine : Machine) (owner : ScopeId) (name : String) (value : Value)
    (later : Machine) : Prop where
  memory : later.memory = machine.memory
  free : later.arena.free = machine.arena.free
  size : later.arena.frames.size = machine.arena.frames.size
  keeps : ∀ id, (machine.arena.frame id).Keeps (later.arena.frame id)
  /-- Every variable but the written one holds what it held. -/
  others : ∀ id other, id ≠ owner ∨ other ≠ name →
    Fields.get? (later.arena.frame id).locals other = Fields.get? (machine.arena.frame id).locals other
  written : Fields.get? (later.arena.frame owner).locals name = some value

namespace Machine

variable {machine : Machine} {scope owner : ScopeId} {name : String} {value : Value} {view : View}
  {path below above : List ScopeId}

theorem binds_iff : machine.Binds name scope ↔ machine.arena.bindingIn? machine.memory name scope ≠ none := by
  cases present : Fields.contains (machine.arena.frame scope).locals name with
  | true => simp [Binds, present, Arena.bindingIn?_of_local present]
  | false =>
    cases viewed : (machine.arena.frame scope).view with
    | none => simp [Binds, Arena.bindingIn?, present, viewed]
    | some view =>
      rw [Arena.bindingIn?_of_view present viewed, ne_eq, ite_eq_right_iff, Classical.not_imp, View.has_iff]
      simp [Binds, present, viewed]

theorem not_binds_iff : ¬ machine.Binds name scope ↔ machine.arena.bindingIn? machine.memory name scope = none := by
  rw [binds_iff, not_not]

theorem WritesVariable.of_write (inside : owner.index < machine.arena.frames.size) :
    machine.WritesVariable owner name value
      ⟨machine.arena.modifyFrame owner (Frame.write name value), machine.memory⟩ where
  memory := rfl
  free := rfl
  size := Arena.modifyFrame_size _
  keeps _ := Arena.frame_modifyFrame_keeps (Frame.write_keeps name value)
  others id other different := by
    by_cases same : id = owner
    · subst same
      rw [Arena.frame_modifyFrame_self _ inside]
      exact Fields.get?_put_of_ne _ _ (different.resolve_left (absurd rfl))
    · rw [Arena.frame_modifyFrame_of_ne _ same]
  written := by
    rw [Arena.frame_modifyFrame_self _ inside]
    exact Fields.get?_put_self _ _ _

theorem WritesVariable.lookUp {later : Machine} (writes : machine.WritesVariable owner name value later)
    (walk : machine.arena.Path scope (below ++ owner :: above)) (none : ∀ id ∈ below, ¬ machine.Binds name id) :
    lookUp scope name later = .done later (.ok value) := by
  have still : later.arena.Path scope (below ++ owner :: above) := walk.congr fun id member =>
    ⟨writes.size.symm ▸ walk.bound id member, (writes.keeps id).parent⟩
  have here : later.arena.bindingIn? later.memory name owner = some (.inScope owner) :=
    Arena.bindingIn?_of_local (by rw [Fields.contains_eq_isSome, writes.written]; rfl)
  have nearer : ∀ id ∈ below, later.arena.bindingIn? later.memory name id = .none := fun id member => by
    -- No scope is twice on a path, so the written variable is not one of a nearer scope.
    have apart : id ≠ owner := by
      rintro rfl
      exact (List.nodup_append.mp walk.nodup).2.2 id member id List.mem_cons_self rfl
    have locals : Fields.contains (later.arena.frame id).locals name =
        Fields.contains (machine.arena.frame id).locals name := by
      rw [Fields.contains_eq_isSome, Fields.contains_eq_isSome, writes.others id name (.inl apart)]
    rw [writes.memory, Arena.bindingIn?_congr locals (writes.keeps id).view]
    exact not_binds_iff.mp (none id member)
  rw [lookUp_apply, still.binding?_of_split nearer here]
  dsimp only
  rw [writes.written]
  rfl

theorem assign_of_local (value : Value) (walk : machine.arena.Path scope (below ++ owner :: above))
    (none : ∀ id ∈ below, ¬ machine.Binds name id)
    (present : Fields.contains (machine.arena.frame owner).locals name = true) :
    ∃ later, assign scope name value machine = .done later (.ok value) ∧
      machine.WritesVariable owner name value later ∧ lookUp owner name later = .done later (.ok value) ∧
      lookUp scope name later = .done later (.ok value) := by
  have bound := walk.binding?_of_split (fun id member => not_binds_iff.mp (none id member))
    (Arena.bindingIn?_of_local present)
  have inside := walk.bound owner (List.mem_append_right below List.mem_cons_self)
  have writes : machine.WritesVariable owner name value _ := .of_write inside
  have self : machine.arena.Path owner ([] ++ owner :: above) := walk.of_append
  exact ⟨_, by rw [assign_apply, bound], writes, writes.lookUp self (List.forall_mem_nil _), writes.lookUp walk none⟩

theorem assign_of_view (value : Value) (walk : machine.arena.Path scope (below ++ owner :: above))
    (none : ∀ id ∈ below, ¬ machine.Binds name id)
    (absent : Fields.contains (machine.arena.frame owner).locals name = false)
    (viewed : (machine.arena.frame owner).view = some view) (has : view.has name machine.memory = true) :
    ∃ memory, assign scope name value machine = .done ⟨machine.arena, memory⟩ (.ok value) ∧
      view.Writes name (value.native machine.memory) machine.memory memory ∧
      let read := (value.native machine.memory).project (view.child (.key name)) memory
      lookUp owner name ⟨machine.arena, memory⟩ = .done ⟨machine.arena, read.2⟩ (.ok read.1) := by
  have bindsAs : ∀ memory : Memory, view.has name memory = true →
      machine.arena.bindingIn? memory name owner = some (.member view) := fun memory has => by
    rw [Arena.bindingIn?_of_view absent viewed, if_pos has]
  have bound := walk.binding?_of_split (fun id member => not_binds_iff.mp (none id member)) (bindsAs _ has)
  obtain ⟨members, found, -⟩ := View.has_iff.mp has
  obtain ⟨later, answered, writes⟩ := View.set_of_object name value found
  refine ⟨later, by rw [assign_apply, bound]; dsimp only; rw [answered], writes, ?_⟩
  rw [lookUp_apply, walk.of_append.binding?_of_self (bindsAs _ writes.has)]
  dsimp only
  rw [writes.get]

theorem lookUp_of_split (walk : machine.arena.Path scope (below ++ owner :: above))
    (none : ∀ id ∈ below, ¬ machine.Binds name id) (binds : machine.Binds name owner) :
    lookUp scope name machine = lookUp owner name machine := by
  obtain ⟨binding, here⟩ := Option.ne_none_iff_exists'.mp (binds_iff.mp binds)
  rw [lookUp_apply, lookUp_apply, walk.of_append.binding?_of_self here,
    walk.binding?_of_split (fun id member => not_binds_iff.mp (none id member)) here]
  cases binding <;> rfl

theorem unbound_of_path (walk : machine.arena.Path scope path) (none : ∀ id ∈ path, ¬ machine.Binds name id) :
    assign scope name value machine = .done machine (.error (.undeclaredVariable name)) ∧
      lookUp scope name machine = .done machine (.ok .empty) := by
  have unbound : machine.arena.binding? machine.memory scope name = .none := by
    rw [walk.binding?]
    exact List.findSome?_eq_none_iff.mpr fun id member => not_binds_iff.mp (none id member)
  rw [assign_apply, lookUp_apply, unbound, walk.ends]
  exact ⟨rfl, rfl⟩

theorem exists_split_of_binds (binds : ∃ id ∈ path, machine.Binds name id) :
    ∃ below owner above, path = below ++ owner :: above ∧ machine.Binds name owner ∧
      ∀ id ∈ below, ¬ machine.Binds name id := by
  obtain ⟨id, member, here⟩ := binds
  have found : path.findSome? (machine.arena.bindingIn? machine.memory name) ≠ none := fun none =>
    binds_iff.mp here (List.findSome?_eq_none_iff.mp none id member)
  obtain ⟨binding, first⟩ := Option.ne_none_iff_exists'.mp found
  obtain ⟨below, owner, above, split, binds, none⟩ := List.findSome?_eq_some_iff.mp first
  exact ⟨below, owner, above, split, binds_iff.mpr (binds ▸ Option.some_ne_none _),
    fun id member => not_binds_iff.mpr (none id member)⟩

/-- Where parents make no cycle, a name is written exactly if a scope on the way up has it, and then where the first
such scope has it: as a variable, or else as a member of the object that it views. Nothing else is changed, reading the
name from that scope gives what was written, and a variable is read so from the first scope on. If no scope has the
name, nothing is changed and reading finds missing data. -/
theorem assign_changes_nearest (acyclic : machine.arena.Acyclic) (inside : scope.index < machine.arena.frames.size)
    (name : String) (value : Value) :
    ∃ path, machine.arena.Path scope path ∧
      ((∃ later answer, assign scope name value machine = .done later (.ok answer)) ↔
        ∃ id ∈ path, machine.Binds name id) ∧
      (∀ below owner above, path = below ++ owner :: above → machine.Binds name owner →
        (∀ id ∈ below, ¬ machine.Binds name id) →
        lookUp scope name machine = lookUp owner name machine ∧
        (Fields.contains (machine.arena.frame owner).locals name = true →
          ∃ later, assign scope name value machine = .done later (.ok value) ∧
            machine.WritesVariable owner name value later ∧
            lookUp owner name later = .done later (.ok value) ∧ lookUp scope name later = .done later (.ok value)) ∧
        (Fields.contains (machine.arena.frame owner).locals name = false →
          ∃ view memory, (machine.arena.frame owner).view = some view ∧
            assign scope name value machine = .done ⟨machine.arena, memory⟩ (.ok value) ∧
            view.Writes name (value.native machine.memory) machine.memory memory ∧
            let read := (value.native machine.memory).project (view.child (.key name)) memory
            lookUp owner name ⟨machine.arena, memory⟩ = .done ⟨machine.arena, read.2⟩ (.ok read.1))) ∧
      ((∀ id ∈ path, ¬ machine.Binds name id) →
        assign scope name value machine = .done machine (.error (.undeclaredVariable name)) ∧
        lookUp scope name machine = .done machine (.ok .empty)) := by
  obtain ⟨path, walk⟩ := acyclic.exists_path inside
  have asView : ∀ {owner}, machine.Binds name owner →
      Fields.contains (machine.arena.frame owner).locals name = false →
      ∃ view, (machine.arena.frame owner).view = some view ∧ view.has name machine.memory = true := by
    rintro owner (present | ⟨view, members, viewed, found, has⟩) absent
    · rw [absent] at present
      cases present
    · exact ⟨view, viewed, View.has_iff.mpr ⟨members, found, has⟩⟩
  refine ⟨path, walk, ⟨fun written => ?_, fun binds => ?_⟩, ?_, unbound_of_path walk⟩
  · -- Without a binding the assignment fails.
    by_contra unbound
    obtain ⟨later, answer, written⟩ := written
    rw [(unbound_of_path walk fun id member binds => unbound ⟨id, member, binds⟩).1] at written
    cases written
  · obtain ⟨below, owner, above, rfl, binds, none⟩ := exists_split_of_binds binds
    cases present : Fields.contains (machine.arena.frame owner).locals name with
    | true =>
      obtain ⟨later, written, -⟩ := assign_of_local value walk none present
      exact ⟨later, value, written⟩
    | false =>
      obtain ⟨view, viewed, has⟩ := asView binds present
      obtain ⟨memory, written, -⟩ := assign_of_view value walk none present viewed has
      exact ⟨_, value, written⟩
  · rintro below owner above rfl binds none
    refine ⟨lookUp_of_split walk none binds, assign_of_local value walk none, fun absent => ?_⟩
    obtain ⟨view, viewed, has⟩ := asView binds absent
    obtain ⟨memory, written, writes, reads⟩ := assign_of_view value walk none absent viewed has
    exact ⟨view, memory, viewed, written, writes, reads⟩

/-- Two scopes view a document, one inside of the other. A member that the inner one views is overwritten with the
whole document. -/
theorem assign_changes_nearest_viewed :
    let document : Json := .object [("a", .object [("b", .bool true)])]
    let frames : Array Frame := #[{ Frame.blank with view := some ⟨0, []⟩ },
      { Frame.blank with view := some ⟨0, [.key "a"]⟩, parent := some ⟨0⟩ },
      { Frame.blank with parent := some ⟨1⟩ }]
    let machine : Machine := ⟨⟨frames, []⟩, .ofDocument document⟩
    machine.arena.Acyclic ∧ 2 < machine.arena.frames.size ∧
    ∃ later, assign ⟨2⟩ "b" (.data ⟨0, []⟩) machine = .done later (.ok (.data ⟨0, []⟩)) ∧
      lookUp ⟨1⟩ "b" later = .done later (.ok (.data ⟨0, [.key "a", .key "b"]⟩)) := by
  intro document frames machine
  have acyclic : machine.arena.Acyclic := .of_lt fun scope parent has => by
    match scope with
    | ⟨0⟩ => cases has
    | ⟨1⟩ => cases has; decide
    | ⟨2⟩ => cases has; decide
    | ⟨_ + 3⟩ => cases has
  have inside : 2 < machine.arena.frames.size := by decide
  obtain ⟨path, walk, -, nearest, -⟩ :=
    @assign_changes_nearest machine ⟨2⟩ acyclic inside "b" (.data ⟨0, []⟩)
  have up : machine.arena.Path ⟨2⟩ [⟨2⟩, ⟨1⟩, ⟨0⟩] := .up rfl (.up rfl (.top (by decide) rfl))
  have inner : machine.Binds "b" ⟨1⟩ := .inr ⟨⟨0, [.key "a"]⟩, [("b", .bool true)], rfl, rfl, by decide⟩
  have outer : ∀ id ∈ [(⟨2⟩ : ScopeId)], ¬ machine.Binds "b" id := by
    rintro id member (present | ⟨view, -, viewed, -⟩) <;> cases List.mem_singleton.mp member
    · exact absurd present (by decide)
    · cases viewed
  obtain ⟨-, -, viewed⟩ := nearest [⟨2⟩] ⟨1⟩ [⟨0⟩] (walk.unique up) inner outer
  obtain ⟨view, memory, same, written, -, reads⟩ := viewed (by decide)
  cases same
  exact ⟨acyclic, inside, _, written, reads⟩

end Machine

end RuleScript
