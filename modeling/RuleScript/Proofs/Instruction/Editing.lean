import Mathlib.Logic.Relation
import RuleScript.Proofs.Document.Distinct
import RuleScript.Proofs.Instruction.Grammar
import RuleScript.Proofs.Value.Handles

/-! Trees that hold the same program.

What a tree is read into does not depend on the order of its keys, on the suffix of its type names, on fields that are null,
or on further keys in the records of operands and members. So all of these can be edited, anywhere and any number of times.
-/

set_option autoImplicit false

namespace RuleScript

namespace Json

def IsScalar : Json → Prop
  | .array _ | .object _ => False
  | _ => True

/-- An edit at one place of a tree. -/
inductive Edit : Json → Json → Prop where
  /-- The suffix is put on a type name that does not have it. -/
  | suffixed {members : List (String × Json)} {name : String}
      (typed : Fields.get? members "type" = some (.string name)) (plain : Kind.suffix.isSuffixOf name.toList = false) :
      Edit (.object members) (.object (Fields.put members "type" (.string (name ++ "Instruction"))))
  | unsuffixed {members : List (String × Json)} {name : String}
      (typed : Fields.get? members "type" = some (.string (name ++ "Instruction"))) :
      Edit (.object members) (.object (Fields.put members "type" (.string name)))
  /-- The keys of an object change places; host data has each of them once. -/
  | reordered {members others : List (String × Json)} (distinct : (members.map Prod.fst).Nodup)
      (same : members.Perm others) : Edit (.object members) (.object others)
  /-- A declared field that is absent is written as null. -/
  | nullAdded {members : List (String × Json)} {name : String} {kind : Kind} {field : Field}
      (typed : Fields.get? members "type" = some (.string name)) (named : kind.IsWritten name)
      (declared : field ∈ kind.fields) (absent : Fields.get? members field.name = none) :
      Edit (.object members) (.object (Fields.put members field.name .null))
  | nullRemoved {members : List (String × Json)} {type : Json} {key : String}
      (typed : Fields.get? members "type" = some type) (null : Fields.get? members key = some .null) :
      Edit (.object members) (.object (members.filter fun member => member.1 ≠ key))
  /-- A key is added to an object without a type, as the records of operands and members are. -/
  | keyAdded {members : List (String × Json)} {key : String} {value : Json}
      (untyped : Fields.get? members "type" = none) (key_ne : key ≠ "type") (new : Fields.get? members key = none)
      (scalar : value.IsScalar) : Edit (.object members) (.object (Fields.put members key value))
  | item {items : List Json} {position : Nat} {old new : Json} (there : items[position]? = some old)
      (edit : Edit old new) : Edit (.array items) (.array (items.set position new))
  | member {members : List (String × Json)} {key : String} {old new : Json}
      (there : Fields.get? members key = some old) (edit : Edit old new) :
      Edit (.object members) (.object (Fields.put members key new))

end Json

/-- Whatever can be read from a node is read from the other as the same. -/
structure Node.ReadsAs (node other : Node) : Prop where
  null : other = .null ↔ node = .null
  content : ∀ (shape : Shape) content, shape.content? node = some content → shape.content? other = some content
  -- No shape asks for a single pair, but a list of pairs is read item by item.
  pair : ∀ label pair, node.pair? label = some pair → other.pair? label = some pair

namespace Node

theorem ReadsAs.refl (node : Node) : node.ReadsAs node :=
  ⟨Iff.rfl, fun _ _ => id, fun _ _ => id⟩

theorem mapM_of_forall₂ {α : Type} {item? : Node → Option α} {items others : List Node} {values : List α}
    (all : List.Forall₂ (fun item other => ∀ value, item? item = some value → item? other = some value) items others)
    (read : items.mapM item? = some values) : others.mapM item? = some values := by
  induction all generalizing values with
  | nil => exact read
  | cons first _ ih =>
    rw [List.mapM_cons] at read ⊢
    obtain ⟨value, head, read⟩ := Option.bind_eq_some_iff.mp read
    obtain ⟨rest, tail, read⟩ := Option.bind_eq_some_iff.mp read
    exact Option.bind_eq_some_iff.mpr ⟨value, first value head, Option.bind_eq_some_iff.mpr ⟨rest, ih tail, read⟩⟩

theorem ReadsAs.list {items others : List Node} (all : List.Forall₂ ReadsAs items others) :
    (list items).ReadsAs (list others) where
  null := by simp
  content shape content read := by
    cases shape with
    | instructions => exact mapM_of_forall₂ (all.imp fun _ _ reads => reads.content .instruction) read
    | names => exact mapM_of_forall₂ (all.imp fun _ _ reads => reads.content .text) read
    | pairs label => exact mapM_of_forall₂ (all.imp fun _ _ reads => reads.pair label) read
    | instruction | optionalInstruction | number | text | textOr => cases read
  pair label pair read := by cases read

theorem ReadsAs.record {members others : List (String × Node)}
    (found : ∀ key node, Fields.get? members key = some node →
      ∃ other, Fields.get? others key = some other ∧ node.ReadsAs other) :
    (record members).ReadsAs (record others) where
  null := by simp
  content shape content read := by cases shape <;> cases read
  pair label pair read := by
    have under (key : String) (shape : Shape) (content : shape.Content)
        (there : (Fields.get? members key).bind (shape.content? ·) = some content) :
        (Fields.get? others key).bind (shape.content? ·) = some content := by
      obtain ⟨node, there, holds⟩ := Option.bind_eq_some_iff.mp there
      obtain ⟨other, still, reads⟩ := found key node there
      exact Option.bind_eq_some_iff.mpr ⟨other, still, reads.content shape content holds⟩
    obtain ⟨name, text, read⟩ := Option.bind_eq_some_iff.mp read
    obtain ⟨value, instruction, read⟩ := Option.bind_eq_some_iff.mp read
    exact Option.bind_eq_some_iff.mpr ⟨name, under label .text name text,
      Option.bind_eq_some_iff.mpr ⟨value, under "value" .instruction value instruction, read⟩⟩

end Node

theorem present?_of_ne {node : Node} (there : node ≠ .null) : present? (some node) = some node := by
  cases node with
  | null => exact absurd rfl there
  | _ => rfl

theorem Field.read_of_readsAs {written rewritten : String} {values others : Fields Node} {field : Field}
    {content : field.shape.Content}
    (supplied : Option.Rel Node.ReadsAs (present? (Fields.get? values field.name))
      (present? (Fields.get? others field.name)))
    (read : field.read written values = .ok content) : field.read rewritten others = .ok content := by
  unfold Field.read at read ⊢
  generalize present? (Fields.get? values field.name) = value at supplied read
  generalize present? (Fields.get? others field.name) = other at supplied ⊢
  cases supplied with
  | none =>
    cases absent : field.shape.absent? with
    | none => simp [absent] at read
    | some content => simpa [absent] using read
  | @some value other reads =>
    cases holds : field.shape.content? value with
    | none => simp [holds] at read
    | some content => simpa [holds, reads.content _ _ holds] using read

theorem Contents.read_of_readsAs {written rewritten : String} {values others : Fields Node} {fields : List Field}
    {contents : Contents fields}
    (supplied : ∀ field ∈ fields, Option.Rel Node.ReadsAs (present? (Fields.get? values field.name))
      (present? (Fields.get? others field.name)))
    (read : Contents.read written values fields = .ok contents) :
    Contents.read rewritten others fields = .ok contents := by
  induction fields with
  | nil => exact read
  | cons field rest ih =>
    obtain ⟨first, supplied⟩ := List.forall_mem_cons.mp supplied
    rw [Contents.read] at read ⊢
    cases head : field.read written values with
    | error e => simp [head] at read
    | ok content =>
      cases tail : Contents.read written values rest with
      | error e => simp [head, tail] at read
      | ok contents => simpa [head, tail, Field.read_of_readsAs first head, ih supplied tail] using read

namespace Fields

variable {α : Type}

/-- What is found does not depend on the order of the names, if none stands twice. -/
theorem get?_of_perm {fields others : Fields α} (distinct : (fields.map Prod.fst).Nodup) (same : fields.Perm others)
    (name : String) : get? others name = get? fields name := by
  have distinct' := (same.map Prod.fst).nodup_iff.mp distinct
  cases found : get? fields name with
  | some value => exact get?_of_mem distinct' (same.mem_iff.mp (mem_of_get? found))
  | none =>
    cases there : get? others name with
    | none => rfl
    | some value => cases found.symm.trans (get?_of_mem distinct (same.mem_iff.mpr (mem_of_get? there)))

theorem get?_filter_ne (fields : Fields α) (name : String) :
    get? (fields.filter fun pair => pair.1 ≠ name) name = none := by
  cases found : get? (fields.filter fun pair => pair.1 ≠ name) name with
  | none => rfl
  | some value => simpa using List.of_mem_filter (mem_of_get? found)

end Fields

theorem Node.mem_fieldMembers {member : String × Json} {members : List (String × Json)} :
    member ∈ fieldMembers members ↔ member ∈ members ∧ member.1 ≠ "type" := by
  simp [fieldMembers]

section Built

variable {members : List (String × Json)} {nodes : List (String × Node)} {key : String}

theorem Node.Built.of_get? {node : Node} (built : Node.Built members nodes) (there : Fields.get? nodes key = some node) :
    ∃ value, Fields.get? members key = some value ∧ Node.build value = .ok node := by
  have same := built.get? key
  rw [there] at same
  cases found : Fields.get? members key with
  | none => rw [found] at same; cases same
  | some value =>
    rw [found] at same
    cases same with
    | some built => exact ⟨value, rfl, built⟩

theorem Node.Built.get?_of {value : Json} (built : Node.Built members nodes)
    (there : Fields.get? members key = some value) :
    ∃ node, Fields.get? nodes key = some node ∧ Node.build value = .ok node := by
  have same := built.get? key
  rw [there] at same
  cases found : Fields.get? nodes key with
  | none => rw [found] at same; cases same
  | some node =>
    rw [found] at same
    cases same with
    | some built => exact ⟨node, rfl, built⟩

end Built

namespace Json

def ReadsAs (tree other : Json) : Prop :=
  ∀ node, Node.build tree = .ok node → ∃ same, Node.build other = .ok same ∧ node.ReadsAs same

theorem ReadsAs.refl (tree : Json) : tree.ReadsAs tree :=
  fun node built => ⟨node, built, .refl node⟩

theorem IsScalar.builds {tree : Json} (scalar : tree.IsScalar) : ∃ node, Node.build tree = .ok node := by
  cases tree with
  | array | object => exact scalar.elim
  | _ => exact ⟨_, rfl⟩

/-- What two look-ups find: nothing or null both of them, or trees of which the second reads as the first. -/
inductive Supplies : Option Json → Option Json → Prop where
  | absent {value other : Option Json} (nothing : value = none ∨ value = some .null)
      (still : other = none ∨ other = some .null) : Supplies value other
  | found {value other : Json} (reads : value.ReadsAs other) : Supplies (some value) (some other)

theorem Supplies.refl (value : Option Json) : Supplies value value := by
  cases value with
  | none => exact .absent (.inl rfl) (.inl rfl)
  | some value => exact .found (.refl value)

theorem present?_of_absent {value : Option Json} {node : Option Node} (nothing : value = none ∨ value = some .null)
    (built : Option.Rel (fun value node => Node.build value = .ok node) value node) : present? node = none := by
  cases built with
  | none => rfl
  | some built =>
    obtain rfl := Option.some.inj (nothing.resolve_left (Option.some_ne_none _))
    cases built
    rfl

theorem Supplies.nodes {value other : Option Json} {node same : Option Node} (supplies : Supplies value other)
    (built : Option.Rel (fun value node => Node.build value = .ok node) value node)
    (again : Option.Rel (fun value node => Node.build value = .ok node) other same) :
    Option.Rel Node.ReadsAs (present? node) (present? same) := by
  cases supplies with
  | absent nothing still =>
    rw [present?_of_absent nothing built, present?_of_absent still again]
    exact .none
  | found reads =>
    cases built with
    | @some _ node built =>
    cases again with
    | some again =>
    obtain ⟨_, read, reads⟩ := reads node built
    cases again.symm.trans read
    -- A null under a key is nothing there, and only a null is read as one.
    by_cases null : node = .null
    · rw [null, reads.null.mpr null]
      exact .none
    · rw [present?_of_ne null, present?_of_ne (mt reads.null.mp null)]
      exact .some reads

variable {members others : List (String × Json)}

theorem exists_built_of_readsAs {nodes : List (String × Node)} (built : Node.Built members nodes)
    (listed : ∀ member ∈ others, member.2.IsScalar ∨ ∃ old ∈ members, old.2.ReadsAs member.2) :
    ∃ same, Node.Built others same := by
  refine Node.exists_built.mpr fun member inside => ?_
  obtain scalar | ⟨old, before, reads⟩ := listed member inside
  · exact scalar.builds
  · obtain ⟨node, built⟩ := Node.exists_built.mp ⟨nodes, built⟩ old before
    obtain ⟨same, built, -⟩ := reads node built
    exact ⟨same, built⟩

/-- An object without a type reads as one in which all its keys are found and read as they did. -/
theorem readsAs_record (untyped : Fields.get? members "type" = none) (still : Fields.get? others "type" = none)
    (listed : ∀ member ∈ others, member.2.IsScalar ∨ ∃ old ∈ members, old.2.ReadsAs member.2)
    (found : ∀ key value, Fields.get? members key = some value →
      ∃ other, Fields.get? others key = some other ∧ value.ReadsAs other) :
    (object members).ReadsAs (object others) := by
  intro node read
  cases Node.build_ok.mp read with
  | instruction typed => cases untyped.symm.trans typed
  | record _ built =>
    obtain ⟨nodes, again⟩ := exists_built_of_readsAs built listed
    refine ⟨.record nodes, Node.build_ok.mpr (.record still again), .record fun key node there => ?_⟩
    obtain ⟨value, before, first⟩ := built.of_get? there
    obtain ⟨other, after, reads⟩ := found key value before
    obtain ⟨same, there, second⟩ := again.get?_of after
    obtain ⟨_, read, reads⟩ := reads node first
    cases second.symm.trans read
    exact ⟨_, there, reads⟩

/-- Members that describe an instruction of a kind as other members do: under a name of the kind, with declared keys
only, each to be built, and with every field supplied. -/
structure Restates (kind : Kind) (members others : List (String × Json)) : Prop where
  named : ∃ written, Fields.get? others "type" = some (.string written) ∧ kind.IsWritten written
  listed : ∀ member ∈ Node.fieldMembers others, kind.declares member.1 = true ∧
    (member.2.IsScalar ∨ ∃ old ∈ Node.fieldMembers members, old.2.ReadsAs member.2)
  fields : ∀ field ∈ kind.fields, Supplies (Fields.get? members field.name) (Fields.get? others field.name)

theorem readsAs_instruction (typed : Fields.get? members "type" ≠ none)
    (restates : ∀ (kind : Kind) written, Fields.get? members "type" = some (.string written) → kind.IsWritten written →
      (∀ member ∈ Node.fieldMembers members, kind.declares member.1 = true) → Restates kind members others) :
    (object members).ReadsAs (object others) := by
  intro node read
  cases Node.build_ok.mp read with
  | record untyped => exact absurd untyped typed
  | @instruction _ values written kind contents there named declared built filled =>
    obtain ⟨⟨rewritten, still, again⟩, listed, lookups⟩ :=
      restates kind written there (Kind.ofName?_eq_some.mp named) declared
    obtain ⟨nodes, rebuilt⟩ := exists_built_of_readsAs built fun member inside => (listed member inside).2
    have refilled : Contents.read rewritten nodes kind.fields = .ok contents := by
      refine Contents.read_of_readsAs (fun field of => ?_) filled
      have plain := Kind.field_ne_type of
      have first := built.get? field.name
      have second := rebuilt.get? field.name
      rw [Node.fieldMembers, Fields.get?_filter_of_keeps (by simp [plain])] at first second
      exact (lookups field of).nodes first second
    exact ⟨_, Node.build_ok.mpr (.instruction still (Kind.ofName?_eq_some.mpr again) (fun member inside =>
      (listed member inside).1) rebuilt refilled), .refl _⟩

/-- An object reads as one with its type in which the same keys stand and every value reads as it did. -/
theorem readsAs_object (type : Fields.get? others "type" = Fields.get? members "type")
    (listed : ∀ member ∈ others, ∃ old ∈ members, old.1 = member.1 ∧ old.2.ReadsAs member.2)
    (lookups : ∀ key, Option.Rel ReadsAs (Fields.get? members key) (Fields.get? others key)) :
    (object members).ReadsAs (object others) := by
  -- Without a type all keys are members of a record; with one they are fields of a kind, which has to be the same.
  cases typed : Fields.get? members "type" with
  | none =>
    refine readsAs_record typed (type.trans typed) (fun member inside => ?_) fun key value there => ?_
    · obtain ⟨old, before, -, reads⟩ := listed member inside
      exact .inr ⟨old, before, reads⟩
    · have same := lookups key
      rw [there] at same
      generalize Fields.get? others key = found at same
      cases same with
      | some reads => exact ⟨_, rfl, reads⟩
  | some value =>
    refine readsAs_instruction (by simp [typed]) fun kind written there named declared => ?_
    refine ⟨⟨written, type.trans there, named⟩, fun member inside => ?_, fun field _ => ?_⟩
    · obtain ⟨inside, key⟩ := Node.mem_fieldMembers.mp inside
      obtain ⟨old, before, same, reads⟩ := listed member inside
      have before := Node.mem_fieldMembers.mpr ⟨before, same ▸ key⟩
      exact ⟨same ▸ declared old before, .inr ⟨old, before, reads⟩⟩
    · have same := lookups field.name
      generalize Fields.get? members field.name = value at same ⊢
      generalize Fields.get? others field.name = found at same ⊢
      cases same with
      | none => exact .refl none
      | some reads => exact .found reads

theorem readsAs_renamed {name renamed : String} (typed : Fields.get? members "type" = some (.string name))
    (same : ∀ kind : Kind, kind.IsWritten name → kind.IsWritten renamed) :
    (object members).ReadsAs (object (Fields.put members "type" (.string renamed))) := by
  refine readsAs_instruction (by simp [typed]) fun kind written there named declared => ?_
  cases typed.symm.trans there
  have retyped := Fields.get?_put_self members "type" (.string renamed)
  refine ⟨⟨renamed, retyped, same kind named⟩, fun member inside => ?_, fun field of => ?_⟩
  · obtain ⟨inside, key⟩ := Node.mem_fieldMembers.mp inside
    obtain rfl | before := Fields.mem_put inside
    · exact absurd rfl key
    · have before := Node.mem_fieldMembers.mpr ⟨before, key⟩
      exact ⟨declared member before, .inr ⟨member, before, .refl _⟩⟩
  · rw [Fields.get?_put_of_ne members _ (Kind.field_ne_type of)]
    exact .refl _

theorem readsAs_reordered (distinct : (members.map Prod.fst).Nodup) (same : members.Perm others) :
    (object members).ReadsAs (object others) := by
  have lookups := Fields.get?_of_perm distinct same
  refine readsAs_object (lookups "type") (fun member inside => ⟨member, same.mem_iff.mpr inside, rfl, .refl _⟩)
    fun key => ?_
  rw [lookups key]
  cases Fields.get? members key with
  | none => exact .none
  | some value => exact .some (.refl value)

theorem readsAs_nullAdded {name : String} {kind : Kind} {field : Field}
    (typed : Fields.get? members "type" = some (.string name)) (named : kind.IsWritten name)
    (declared : field ∈ kind.fields) (absent : Fields.get? members field.name = none) :
    (object members).ReadsAs (object (Fields.put members field.name .null)) := by
  refine readsAs_instruction (by simp [typed]) fun other written there again listed => ?_
  cases typed.symm.trans there
  cases (Kind.ofName?_eq_some.mpr named).symm.trans (Kind.ofName?_eq_some.mpr again)
  have plain := Kind.field_ne_type declared
  refine ⟨⟨name, (Fields.get?_put_of_ne members _ plain.symm).trans typed, named⟩, fun member inside => ?_,
    fun other of => ?_⟩
  · obtain ⟨inside, key⟩ := Node.mem_fieldMembers.mp inside
    obtain rfl | before := Fields.mem_put inside
    · exact ⟨List.any_eq_true.mpr ⟨field, declared, by simp⟩, .inl trivial⟩
    · have before := Node.mem_fieldMembers.mpr ⟨before, key⟩
      exact ⟨listed member before, .inr ⟨member, before, .refl _⟩⟩
  · by_cases same : other.name = field.name
    · rw [same]
      exact .absent (.inl absent) (.inr (Fields.get?_put_self members _ _))
    · rw [Fields.get?_put_of_ne members _ same]
      exact .refl _

theorem readsAs_nullRemoved {type : Json} {key : String} (typed : Fields.get? members "type" = some type)
    (null : Fields.get? members key = some .null) :
    (object members).ReadsAs (object (members.filter fun member => member.1 ≠ key)) := by
  refine readsAs_instruction (by simp [typed]) fun kind written there named declared => ?_
  -- The type is a text and no null, so the key that goes is another one.
  have plain : "type" ≠ key := by
    rintro rfl
    cases there.symm.trans null
  refine ⟨⟨written, (Fields.get?_filter_of_keeps (by simp [plain])).trans there, named⟩, fun member inside => ?_,
    fun field _ => ?_⟩
  · obtain ⟨inside, other⟩ := Node.mem_fieldMembers.mp inside
    have before := Node.mem_fieldMembers.mpr ⟨List.mem_of_mem_filter inside, other⟩
    exact ⟨declared member before, .inr ⟨member, before, .refl _⟩⟩
  · by_cases same : field.name = key
    · rw [same]
      exact .absent (.inr null) (.inl (Fields.get?_filter_ne members key))
    · rw [Fields.get?_filter_of_keeps (by simp [same])]
      exact .refl _

theorem readsAs_keyAdded {key : String} {value : Json} (untyped : Fields.get? members "type" = none)
    (key_ne : key ≠ "type") (new : Fields.get? members key = none) (scalar : value.IsScalar) :
    (object members).ReadsAs (object (Fields.put members key value)) := by
  refine readsAs_record untyped ((Fields.get?_put_of_ne members _ key_ne.symm).trans untyped) (fun member inside => ?_)
    fun other old there => ⟨old, ?_, .refl old⟩
  · obtain rfl | before := Fields.mem_put inside
    · exact .inl scalar
    · exact .inr ⟨member, before, .refl _⟩
  · have different : other ≠ key := by
      rintro rfl
      cases new.symm.trans there
    exact (Fields.get?_put_of_ne members _ different).trans there

theorem readsAs_member {key : String} {old new : Json} (there : Fields.get? members key = some old)
    (plain : key ≠ "type") (reads : old.ReadsAs new) : (object members).ReadsAs (object (Fields.put members key new)) := by
  refine readsAs_object (Fields.get?_put_of_ne members _ plain.symm) (fun member inside => ?_) fun other => ?_
  · obtain rfl | before := Fields.mem_put inside
    · exact ⟨(key, old), Fields.mem_of_get? there, rfl, reads⟩
    · exact ⟨member, before, rfl, .refl _⟩
  · by_cases same : other = key
    · rw [same, there, Fields.get?_put_self]
      exact .some reads
    · rw [Fields.get?_put_of_ne members _ same]
      cases Fields.get? members other with
      | none => exact .none
      | some value => exact .some (.refl value)

theorem readsAs_item {items : List Json} {position : Nat} {old new : Json} (there : items[position]? = some old)
    (reads : old.ReadsAs new) : (array items).ReadsAs (array (items.set position new)) := by
  suffices every : ∀ nodes, List.Forall₂ (fun item node => Node.build item = .ok node) items nodes →
      ∃ same, List.Forall₂ (fun item node => Node.build item = .ok node) (items.set position new) same ∧
        List.Forall₂ Node.ReadsAs nodes same by
    intro node read
    cases Node.build_ok.mp read with
    | array built =>
      obtain ⟨same, again, all⟩ := every _ built
      exact ⟨.list same, Node.build_ok.mpr (.array again), .list all⟩
  -- The induction walks to the position; what stands before and behind it is built as it was.
  induction items generalizing position with
  | nil => simp at there
  | cons item rest ih =>
    rintro _ (_ | ⟨first, built⟩)
    cases position with
    | zero =>
      obtain rfl : item = old := by simpa using there
      obtain ⟨same, again, reads⟩ := reads _ first
      exact ⟨same :: _, .cons again built, .cons reads (List.forall₂_same.mpr fun node _ => .refl node)⟩
    | succ position =>
      obtain ⟨same, again, all⟩ := ih (by simpa using there) _ built
      exact ⟨_ :: same, .cons first again, .cons (.refl _) all⟩

theorem Edit.readsAs {tree edited : Json} (edit : Edit tree edited) : tree.ReadsAs edited := by
  induction edit with
  | suffixed typed plain =>
    refine readsAs_renamed typed fun kind named => ?_
    obtain rfl | rfl := named
    · exact .inr rfl
    · have ends : Kind.suffix.isSuffixOf (kind.name.toList ++ Kind.suffix) = true :=
        List.isSuffixOf_iff_suffix.mpr (List.suffix_append _ _)
      -- The edit is made to names without the suffix only.
      rw [Kind.toList_suffixed, ends] at plain
      cases plain
  | @unsuffixed _ name typed =>
    refine readsAs_renamed typed fun kind named => .inl ?_
    rw [← Kind.bareName_append name]
    obtain same | same := named
    · rw [same, Kind.bareName_of_plain kind.name_plain]
    · rw [same, Kind.bareName_append]
  | reordered distinct same => exact readsAs_reordered distinct same
  | nullAdded typed named declared absent => exact readsAs_nullAdded typed named declared absent
  | nullRemoved typed null => exact readsAs_nullRemoved typed null
  | keyAdded untyped key_ne new scalar => exact readsAs_keyAdded untyped key_ne new scalar
  | item there _ reads => exact readsAs_item there reads
  | @member members key old new there edit reads =>
    by_cases type : key = "type"
    · -- What names a kind is a text, and no edit is made in a text.
      subst type
      intro node read
      cases Node.build_ok.mp read with
      | record untyped => cases untyped.symm.trans there
      | instruction typed =>
        cases typed.symm.trans there
        cases edit
    · exact readsAs_member there type reads

end Json

namespace Instruction

theorem compile_of_readsAs {tree edited : Json} {instruction : Instruction} (reads : tree.ReadsAs edited)
    (compiles : compile tree = .ok instruction) : compile edited = .ok instruction := by
  unfold compile at compiles ⊢
  cases built : Node.build tree with
  | error e => simp [built] at compiles
  | ok node =>
    obtain ⟨same, again, reads⟩ := reads node built
    rw [built] at compiles
    rw [again]
    -- The root decides: one instruction, a list of them, or no program.
    cases node with
    | instruction root =>
      have root' : same.instruction? = some root := reads.content .instruction root rfl
      cases same with
      | instruction other => simpa [← Option.some.inj root'] using compiles
      | _ => cases root'
    | list items =>
      cases lines : items.mapM Node.instruction? with
      | none => simp [lines] at compiles
      | some contents =>
        have all : same.listOf? Node.instruction? = some contents := reads.content .instructions contents lines
        cases same with
        | list others =>
          have lines' : others.mapM Node.instruction? = some contents := all
          simpa [lines, lines'] using compiles
        | _ => cases all
    | _ => cases compiles

/-- Edits that leave the meaning of a tree leave its program: whatever compiles still does, to the same instruction, however
many edits are made one after another. -/
theorem compile_edited {tree edited : Json} {instruction : Instruction} (compiles : compile tree = .ok instruction)
    (edits : Relation.ReflTransGen Json.Edit tree edited) : compile edited = .ok instruction := by
  induction edits with
  | refl => exact compiles
  | tail _ edit ih => exact compile_of_readsAs edit.readsAs ih

/-- One tree with edits of all kinds, at the root and below it. -/
theorem compile_edited_translate :
    let tree : Json := .object [("type", .string "Translate"), ("value", .object [("type", .string "Math"),
      ("init", .object [("type", .string "Return"), ("value", .null)]),
      ("list", .array [.object [("operator", .string "+"), ("value", .object [("type", .string "BreakInstruction")])]])])]
    let edited : Json := .object [("title", .null), ("value", .object [("type", .string "Math"),
      ("init", .object [("type", .string "Return")]),
      ("list", .array [.object [("operator", .string "+"), ("value", .object [("type", .string "Break")]),
        ("note", .bool true)]])]), ("type", .string "TranslateInstruction")]
    let program : Instruction := .translate "" (some (.fold .arithmetic (.result none) [("+", .stop)]))
    compile tree = .ok program ∧ Relation.ReflTransGen Json.Edit tree edited ∧ compile edited = .ok program := by
  intro tree edited program
  have compiles : compile tree = .ok program := rfl
  have edits : Relation.ReflTransGen Json.Edit tree edited := by
    have title : (⟨"title", .textOr ""⟩ : Field) ∈ Kind.translate.fields := by decide
    have written : Kind.translate.IsWritten "TranslateInstruction" := .inr rfl
    refine .head (.suffixed rfl (by decide)) ?_
    refine .head (.nullAdded rfl written title rfl) ?_
    refine .head (.reordered (by decide) (List.reverse_perm _).symm) ?_
    refine .head (@Json.Edit.member _ "value" _ _ rfl (@Json.Edit.member _ "init" _ _ rfl
      (@Json.Edit.nullRemoved _ _ "value" rfl rfl))) ?_
    have operand {old new : Json} (edit : Json.Edit old new) : Json.Edit (.array [old]) (.array [new]) :=
      @Json.Edit.item [old] 0 _ _ rfl edit
    refine .head (@Json.Edit.member _ "value" _ _ rfl (@Json.Edit.member _ "list" _ _ rfl (operand
      (@Json.Edit.keyAdded _ "note" (.bool true) rfl (by decide) rfl trivial)))) ?_
    exact .single (@Json.Edit.member _ "value" _ _ rfl (@Json.Edit.member _ "list" _ _ rfl (operand
      (@Json.Edit.member _ "value" _ _ rfl (.unsuffixed rfl)))))
  exact ⟨compiles, edits, compile_edited compiles edits⟩

end Instruction

end RuleScript
