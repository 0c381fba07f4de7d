import Mathlib.Data.List.Forall2
import RuleScript.Instruction.Node

/-! What a tree is built into, one case for each form of tree.

`Node.Builds` inverts the reader once. The laws about programs as trees take a built node apart through
it and never look into the reader.
-/

set_option autoImplicit false

namespace RuleScript

/-- Induction over a tree, by its items and the contents of its members. -/
@[elab_as_elim]
theorem Json.tree_induction {motive : Json → Prop} (null : motive .null)
    (bool : ∀ value, motive (.bool value)) (integer : ∀ value, motive (.integer value))
    (float : ∀ value, motive (.float value)) (string : ∀ text, motive (.string text))
    (array : ∀ items, (∀ item ∈ items, motive item) → motive (.array items))
    (object : ∀ members, (∀ member ∈ members, motive member.2) → motive (.object members))
    (tree : Json) : motive tree :=
  @Json.rec motive (fun items => ∀ item ∈ items, motive item)
    (fun members => ∀ member ∈ members, motive member.2) (fun member => motive member.2)
    null bool integer float string array object
    (by simp) (fun _ _ first rest => List.forall_mem_cons.mpr ⟨first, rest⟩)
    (by simp) (fun _ _ first rest => List.forall_mem_cons.mpr ⟨first, rest⟩)
    (fun _ _ holds => holds) tree

namespace Fields

variable {α : Type}

theorem get?_filter_of_keeps {fields : Fields α} {keeps : String × α → Bool} {name : String}
    (kept : ∀ value, keeps (name, value) = true) :
    get? (fields.filter keeps) name = get? fields name := by
  induction fields with
  | nil => rfl
  | cons head rest ih =>
    obtain ⟨key, value⟩ := head
    by_cases same : key = name
    · subst same
      simp [kept, get?]
    · cases keep : keeps (key, value) <;> simp [keep, get?, same, ih]

end Fields

theorem Kind.ofType_ok {type : Json} {name : String} {kind : Kind} :
    ofType type = .ok (name, kind) ↔ type = .string name ∧ ofName? name = some kind := by
  constructor
  · intro read
    match type with
    | .string written =>
      cases found : ofName? written with
      | none => simp [ofType, found] at read
      | some named =>
        obtain ⟨rfl, rfl⟩ : written = name ∧ named = kind := by simpa [ofType, found] using read
        exact ⟨rfl, found⟩
    | .null | .bool _ | .integer _ | .float _ | .array _ | .object _ => cases read
  · rintro ⟨rfl, found⟩
    simp [ofType, found]

namespace Node

def Built (members : List (String × Json)) (nodes : List (String × Node)) : Prop :=
  List.Forall₂ (fun member node => member.1 = node.1 ∧ build member.2 = .ok node.2) members nodes

theorem built_cons {key : String} {value : Json} {rest : List (String × Json)}
    {nodes : List (String × Node)} :
    Built ((key, value) :: rest) nodes ↔
      ∃ node tail, build value = .ok node ∧ Built rest tail ∧ nodes = (key, node) :: tail := by
  rw [Built, List.forall₂_cons_left_iff]
  constructor
  · rintro ⟨⟨_, node⟩, tail, ⟨rfl, built⟩, more, rfl⟩
    exact ⟨node, tail, built, more, rfl⟩
  · rintro ⟨node, tail, built, more, rfl⟩
    exact ⟨(key, node), tail, ⟨rfl, built⟩, more, rfl⟩

def fieldMembers (members : List (String × Json)) : List (String × Json) :=
  members.filter fun member => member.1 ≠ "type"

/-- The node that a tree is built into. -/
inductive Builds : Json → Node → Prop where
  | null : Builds .null .null
  | bool (value : Bool) : Builds (.bool value) (.bool value)
  | integer (value : Int) : Builds (.integer value) (.number (Float.ofInt value))
  | float (value : Float) : Builds (.float value) (.number value)
  | string (value : String) : Builds (.string value) (.text value)
  | array {items : List Json} {nodes : List Node}
      (built : List.Forall₂ (fun item node => build item = .ok node) items nodes) :
      Builds (.array items) (.list nodes)
  | record {members : List (String × Json)} {nodes : List (String × Node)}
      (untyped : Fields.get? members "type" = none) (built : Built members nodes) :
      Builds (.object members) (.record nodes)
  | instruction {members : List (String × Json)} {values : List (String × Node)} {name : String}
      {kind : Kind} {contents : Contents kind.fields}
      (typed : Fields.get? members "type" = some (.string name))
      (named : Kind.ofName? name = some kind)
      (declared : ∀ member ∈ fieldMembers members, kind.declares member.1 = true)
      (built : Built (fieldMembers members) values)
      (read : Contents.read name values kind.fields = .ok contents) :
      Builds (.object members) (.instruction (kind.assemble contents))

theorem buildItems_ok {items : List Json} {nodes : List Node} :
    buildItems items = .ok nodes ↔
      List.Forall₂ (fun item node => build item = .ok node) items nodes := by
  induction items generalizing nodes with
  | nil => cases nodes <;> simp [buildItems]
  | cons item rest ih =>
    rw [buildItems, List.forall₂_cons_left_iff]
    simp only [← ih]
    cases build item with
    | error e => simp
    | ok node =>
      cases buildItems rest <;> simp [eq_comm]

theorem buildMembers_record {members : List (String × Json)} {nodes : List (String × Node)} :
    buildMembers none members = .ok nodes ↔ Built members nodes := by
  induction members generalizing nodes with
  | nil => cases nodes <;> simp [buildMembers, Built]
  | cons member rest ih =>
    obtain ⟨key, value⟩ := member
    simp only [buildMembers, built_cons, ← ih]
    cases build value with
    | error e => simp
    | ok node => cases buildMembers none rest <;> simp [eq_comm]

theorem buildMembers_instruction (name : String) {kind : Kind} {members : List (String × Json)}
    {nodes : List (String × Node)} :
    buildMembers (some (name, kind)) members = .ok nodes ↔
      (∀ member ∈ fieldMembers members, kind.declares member.1 = true) ∧
        Built (fieldMembers members) nodes := by
  induction members generalizing nodes with
  | nil => cases nodes <;> simp [buildMembers, fieldMembers, Built]
  | cons member rest ih =>
    obtain ⟨key, value⟩ := member
    by_cases type : key = "type"
    · simpa [buildMembers, fieldMembers, type] using ih
    · have kept : fieldMembers ((key, value) :: rest) = (key, value) :: fieldMembers rest := by
        simp [fieldMembers, type]
      cases declared : kind.declares key with
      | false => simp [buildMembers, kept, type, declared]
      | true =>
        simp only [buildMembers, kept, built_cons, type, declared, if_true, if_false,
          List.forall_mem_cons, true_and]
        -- The first member can be built, so the two sides differ in the rest alone.
        cases build value with
        | error e => simp
        | ok node =>
          constructor
          · intro read
            cases tail : buildMembers (some (name, kind)) rest with
            | error e => simp [tail] at read
            | ok values =>
              obtain ⟨fits, built⟩ := ih.mp tail
              exact ⟨fits, node, values, rfl, built, by simpa [tail, eq_comm] using read⟩
          · rintro ⟨fits, _, values, same, built, rfl⟩
            cases same
            simp [ih.mpr ⟨fits, built⟩]

/-- The reader builds a node exactly in the ways that `Builds` lists. -/
theorem build_ok {tree : Json} {node : Node} : build tree = .ok node ↔ Builds tree node := by
  constructor
  · intro read
    match tree with
    | .null => cases read; exact .null
    | .bool value => cases read; exact .bool value
    | .integer value => cases read; exact .integer value
    | .float value => cases read; exact .float value
    | .string value => cases read; exact .string value
    | .array items =>
      cases all : buildItems items with
      | error e => simp [build, all] at read
      | ok nodes =>
        obtain rfl : Node.list nodes = node := by simpa [build, all] using read
        exact .array (buildItems_ok.mp all)
    | .object members =>
      cases type : Fields.get? members "type" with
      | none =>
        cases all : buildMembers none members with
        | error e => simp [build, type, all] at read
        | ok nodes =>
          obtain rfl : Node.record nodes = node := by simpa [build, type, all] using read
          exact .record type (buildMembers_record.mp all)
      | some value =>
        -- The kind is known first, then all members are built, and then the fields are read from them.
        cases kindOf : Kind.ofType value with
        | error e => simp [build, type, kindOf] at read
        | ok named =>
          obtain ⟨name, kind⟩ := named
          cases all : buildMembers (some (name, kind)) members with
          | error e => simp [build, type, kindOf, all] at read
          | ok values =>
            cases filled : Contents.read name values kind.fields with
            | error e => simp [build, type, kindOf, all, filled] at read
            | ok contents =>
              obtain rfl : Node.instruction (kind.assemble contents) = node := by
                simpa [build, type, kindOf, all, filled] using read
              obtain ⟨rfl, named⟩ := Kind.ofType_ok.mp kindOf
              obtain ⟨declared, built⟩ := (buildMembers_instruction name).mp all
              exact .instruction type named declared built filled
  · intro builds
    cases builds with
    | null | bool | integer | float | string => rfl
    | array built => simp [build, buildItems_ok.mpr built]
    | record untyped built => simp [build, untyped, buildMembers_record.mpr built]
    | instruction typed named declared built read =>
      simp [build, typed, Kind.ofType, named,
        (buildMembers_instruction _).mpr ⟨declared, built⟩, read]

end Node

end RuleScript
