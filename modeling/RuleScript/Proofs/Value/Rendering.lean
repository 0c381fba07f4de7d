import Mathlib.Logic.Relation
import RuleScript.Proofs.Document.Writing
import RuleScript.Proofs.Value.HostForm

/-! Host forms of shared storage.

Containers may hold each other in any way, also in circles. A rendering opens a container unless it is inside of it
already, so it ends, and what is `null` for a container in the host form is just what stands inside itself. Where
nothing does, the host form is the one that a conversion without any record of open containers gives.
-/

set_option autoImplicit false

namespace RuleScript

def Value.container? : Value → Option Container
  | .array place => some (.array place)
  | .object place => some (.object place)
  | _ => none

namespace Memory

variable (memory : Memory)

def contents : Container → List Value
  | .array place => (memory.items place).toList
  | .object place => (memory.members place).map Prod.snd

def entry? : Container → Step → Option Value
  | .array place, .index position => (memory.items place)[position]?
  | .object place, .key name => Fields.get? (memory.members place) name
  | _, _ => none

def form : Container → List Json → Json
  | .array _, nodes => .array nodes
  | .object place, nodes => .object (((memory.members place).map Prod.fst).zip nodes)

def Inside (outer inner : Container) : Prop :=
  ∃ value ∈ memory.contents outer, value.container? = some inner

end Memory

/-- The containers that can be reached from a value, by way of any others. -/
def Value.Reaches (memory : Memory) (value : Value) (container : Container) : Prop :=
  ∃ first, value.container? = some first ∧ Relation.ReflTransGen memory.Inside first container

def Value.Placed (memory : Memory) (value : Value) : Prop :=
  ∀ container, value.Reaches memory container → memory.cell? container.place ≠ none

def Value.Acyclic (memory : Memory) (value : Value) : Prop :=
  ∀ container, value.Reaches memory container → ¬ Relation.TransGen memory.Inside container container

/-- The conversion that keeps a record of the containers `around` a value, the innermost first. -/
inductive Renders (memory : Memory) : List Container → Value → Json → Prop where
  | plain {around : List Container} {value : Value} (plain : value.container? = none) :
    Renders memory around value (value.native memory)
  | again {around : List Container} {value : Value} {container : Container}
      (is : value.container? = some container) (inside : container ∈ around) : Renders memory around value .null
  | opened {around : List Container} {value : Value} {container : Container} {nodes : List Json}
      (is : value.container? = some container) (new : container ∉ around)
      (there : memory.cell? container.place ≠ none) (size : nodes.length = (memory.contents container).length)
      (each : ∀ pair ∈ (memory.contents container).zip nodes, Renders memory (container :: around) pair.1 pair.2) :
    Renders memory around value (memory.form container nodes)

/-- The conversion that keeps no record. -/
inductive Unfolds (memory : Memory) : Value → Json → Prop where
  | plain {value : Value} (plain : value.container? = none) : Unfolds memory value (value.native memory)
  | opened {value : Value} {container : Container} {nodes : List Json} (is : value.container? = some container)
      (there : memory.cell? container.place ≠ none) (size : nodes.length = (memory.contents container).length)
      (each : ∀ pair ∈ (memory.contents container).zip nodes, Unfolds memory pair.1 pair.2) :
    Unfolds memory value (memory.form container nodes)

/-- What stands at a path below a value, with the containers that the path goes through, the innermost first. No
container is gone through that is inside itself already: nothing below it is rendered. -/
inductive Value.Occurs (memory : Memory) (whole : Value) : Path → List Container → Value → Prop where
  | whole : Occurs memory whole [] [] whole
  | inside {path : Path} {around : List Container} {outer inner : Value} {container : Container} {step : Step}
      (occurs : Occurs memory whole path around outer) (is : outer.container? = some container)
      (new : container ∉ around) (holds : memory.entry? container step = some inner) :
    Occurs memory whole (path ++ [step]) (container :: around) inner

variable {memory : Memory} {around : List Container} {value : Value} {container : Container} {node other : Json}

theorem Fields.get?_zip {α β : Type} {fields : Fields α} {nodes : List β} {name : String} {value : α}
    (size : nodes.length = fields.length) (found : get? fields name = some value) :
    ∃ node, get? ((fields.map Prod.fst).zip nodes) name = some node ∧ (value, node) ∈ (fields.map Prod.snd).zip nodes := by
  induction fields generalizing nodes with
  | nil => cases found
  | cons head rest ih =>
    obtain _ | ⟨node, nodes⟩ := nodes
    · cases size
    · rw [get?] at found
      by_cases here : head.1 = name
      · rw [if_pos here] at found
        cases found
        exact ⟨node, by simp [get?, here], by simp⟩
      · rw [if_neg here] at found
        obtain ⟨last, is, member⟩ := ih (Nat.succ.inj size) found
        exact ⟨last, by simpa [get?, here] using is, List.mem_cons_of_mem _ member⟩

namespace Memory

/-- An opened container and its host form go together, step by step. -/
theorem child?_form {nodes : List Json} {step : Step} {inner : Value}
    (size : nodes.length = (memory.contents container).length) (holds : memory.entry? container step = some inner) :
    ∃ part, (memory.form container nodes).child? step = some part ∧
      (inner, part) ∈ (memory.contents container).zip nodes := by
  cases container with
  | array place =>
    cases step with
    | key => cases holds
    | index position =>
      have content : (memory.contents (.array place))[position]? = some inner := Array.getElem?_toList.trans holds
      have enough : position < nodes.length := size ▸ (List.getElem?_eq_some_iff.mp content).1
      exact ⟨nodes[position], List.getElem?_eq_getElem enough,
        List.mem_of_getElem? (List.getElem?_zip_eq_some.mpr ⟨content, List.getElem?_eq_getElem enough⟩)⟩
  | object place =>
    cases step with
    | index => cases holds
    | key name => exact Fields.get?_zip (by simpa [contents] using size) holds

theorem mem_contents_of_entry? {step : Step} {inner : Value} (holds : memory.entry? container step = some inner) :
    inner ∈ memory.contents container := by
  cases container with
  | array place =>
    cases step with
    | key => cases holds
    | index => exact Array.mem_toList_iff.mpr (Array.mem_of_getElem? holds)
  | object place =>
    cases step with
    | index => cases holds
    | key => exact List.mem_map_of_mem (Fields.mem_of_get? holds)

theorem form_ne_null (nodes : List Json) : memory.form container nodes ≠ .null := by
  cases container <;> rintro ⟨⟩

end Memory

namespace Value

theorem Reaches.self (is : value.container? = some container) : value.Reaches memory container :=
  ⟨container, is, .refl⟩

theorem Reaches.of_content {inner : Value} {last : Container} (is : value.container? = some container)
    (member : inner ∈ memory.contents container) (reaches : inner.Reaches memory last) : value.Reaches memory last := by
  obtain ⟨first, names, below⟩ := reaches
  exact ⟨container, is, .head ⟨inner, member, names⟩ below⟩

theorem Reaches.cases_content {last : Container} (is : value.container? = some container)
    (reaches : value.Reaches memory last) :
    last = container ∨ ∃ inner ∈ memory.contents container, inner.Reaches memory last := by
  obtain ⟨first, names, below⟩ := reaches
  obtain rfl := Option.some.inj (names.symm.trans is)
  obtain rfl | ⟨next, ⟨inner, member, named⟩, rest⟩ := below.cases_head
  · exact .inl rfl
  · exact .inr ⟨inner, member, next, named, rest⟩

theorem Placed.content (placed : value.Placed memory) (is : value.container? = some container) {inner : Value}
    (member : inner ∈ memory.contents container) : inner.Placed memory :=
  fun last reaches => placed last (reaches.of_content is member)

theorem Acyclic.content (acyclic : value.Acyclic memory) (is : value.container? = some container) {inner : Value}
    (member : inner ∈ memory.contents container) : inner.Acyclic memory :=
  fun last reaches => acyclic last (reaches.of_content is member)

@[simp] theorem native_empty (memory : Memory) : empty.native memory = .null := by
  simp only [native, nativeWithin]

@[simp] theorem native_bool (memory : Memory) (b : Bool) : (bool b).native memory = .bool b := by
  simp only [native, nativeWithin]

@[simp] theorem native_number (memory : Memory) (x : Float) : (number x).native memory = numberNative x := by
  simp only [native, nativeWithin]

@[simp] theorem native_text (memory : Memory) (s : String) : (text s).native memory = .string s := by
  simp only [native, nativeWithin]

@[simp] theorem native_data (memory : Memory) (view : View) : (data view).native memory = view.native memory := by
  simp only [native, nativeWithin]

theorem nativeWithin_plain (plain : value.container? = none) (room : Nat) :
    nativeWithin memory room around value = value.native memory := by
  cases value with
  | array | object => cases plain
  | _ => simp only [native, nativeWithin]

theorem nativeWithin_again (is : value.container? = some container) (inside : container ∈ around) (room : Nat) :
    nativeWithin memory room around value = .null := by
  cases value with
  | array place =>
    cases is
    exact (nativeWithin_opened room).1 inside
  | object place =>
    cases is
    exact (nativeWithin_opened room).2 inside
  | _ => cases is

theorem nativeWithin_form (is : value.container? = some container) (new : container ∉ around) (room : Nat) :
    nativeWithin memory (room + 1) around value =
      memory.form container ((memory.contents container).map (nativeWithin memory room (container :: around))) := by
  cases value with
  | array place =>
    cases is
    rw [nativeWithin_array, if_neg new]
    rfl
  | object place =>
    cases is
    rw [nativeWithin_object, if_neg new]
    simp [Memory.form, Memory.contents, List.zip_map']
  | _ => cases is

/-- With room for every container that is not open yet, a rendering is a conversion with a record. -/
theorem renders_nativeWithin (placed : value.Placed memory) (nodup : around.Nodup)
    (held : ∀ container ∈ around, memory.cell? container.place ≠ none) {room : Nat}
    (enough : memory.room ≤ room + around.length) :
    Renders memory around value (nativeWithin memory room around value) := by
  induction room using Nat.strongRecOn generalizing around value with
  | ind room ih =>
  cases is : value.container? with
  | none =>
    rw [nativeWithin_plain is]
    exact .plain is
  | some container =>
    by_cases inside : container ∈ around
    · rw [nativeWithin_again is inside]
      exact .again is inside
    · have there := placed container (.self is)
      have distinct : (container :: around).Nodup := List.nodup_cons.mpr ⟨inside, nodup⟩
      have opened : ∀ other ∈ container :: around, memory.cell? other.place ≠ none :=
        List.forall_mem_cons.mpr ⟨there, held⟩
      -- The containers that are open now are distinct and in memory, so there was room for one more.
      have fits : (container :: around).length ≤ memory.room :=
        Memory.length_le_room distinct fun other member => Option.ne_none_iff_exists'.mp (opened other member)
      rw [List.length_cons] at fits
      obtain ⟨less, rfl⟩ : ∃ less, room = less + 1 := ⟨room - 1, by omega⟩
      rw [nativeWithin_form is inside]
      refine .opened is inside there (List.length_map _) fun pair member => ?_
      obtain ⟨position, here⟩ := List.getElem?_of_mem member
      obtain ⟨left, right⟩ := List.getElem?_zip_eq_some.mp here
      rw [List.getElem?_map, left, Option.map_some, Option.some.injEq] at right
      rw [← right]
      refine ih less (Nat.lt_succ_self less) ?_ distinct opened (by rw [List.length_cons]; omega)
      exact placed.content is (List.mem_of_getElem? left)

end Value

/-! ## Conversions with a record -/

theorem exists_mem_zip {α β : Type} {keys : List α} {nodes : List β} (size : nodes.length = keys.length) {key : α}
    (member : key ∈ keys) : ∃ node, (key, node) ∈ keys.zip nodes := by
  obtain ⟨position, inside, rfl⟩ := List.getElem_of_mem member
  have enough : position < nodes.length := size ▸ inside
  have together : (keys.zip nodes)[position]? = some (keys[position], nodes[position]) :=
    List.getElem?_zip_eq_some.mpr ⟨List.getElem?_eq_getElem inside, List.getElem?_eq_getElem enough⟩
  exact ⟨nodes[position], List.mem_of_getElem? together⟩

theorem eq_of_zip {α β : Type} {keys : List α} {first second : List β} (size : first.length = keys.length)
    (other : second.length = keys.length)
    (each : ∀ pair ∈ keys.zip first, ∀ node, (pair.1, node) ∈ keys.zip second → pair.2 = node) : first = second := by
  refine List.ext_getElem (size.trans other.symm) fun position left right => ?_
  have inside : position < keys.length := size ▸ left
  have key : keys[position]? = some keys[position] := List.getElem?_eq_getElem inside
  refine each (keys[position], first[position]) (List.mem_of_getElem? (i := position) ?_) second[position]
    (List.mem_of_getElem? (i := position) ?_)
  · exact List.getElem?_zip_eq_some.mpr ⟨key, List.getElem?_eq_getElem left⟩
  · exact List.getElem?_zip_eq_some.mpr ⟨key, List.getElem?_eq_getElem right⟩

namespace Renders

theorem unique (first : Renders memory around value node) (second : Renders memory around value other) :
    node = other := by
  induction first generalizing other with
  | plain none =>
    cases second with
    | plain => rfl
    | again is | opened is => exact absurd (none.symm.trans is) nofun
  | again is inside =>
    cases second with
    | plain none => exact absurd (none.symm.trans is) nofun
    | again => rfl
    | opened same new =>
      obtain rfl := Option.some.inj (is.symm.trans same)
      exact absurd inside new
  | opened is new there size each ih =>
    cases second with
    | plain none => exact absurd (none.symm.trans is) nofun
    | again same inside =>
      obtain rfl := Option.some.inj (is.symm.trans same)
      exact absurd inside new
    | opened same _ _ sizes others =>
      obtain rfl := Option.some.inj (is.symm.trans same)
      exact congrArg _ (eq_of_zip size sizes fun pair member node paired => ih pair member (others _ paired))

/-- What stands at a path is converted within the containers that the path goes through. -/
theorem at? {whole inner : Value} {path : Path} (renders : Renders memory [] whole node)
    (occurs : whole.Occurs memory path around inner) :
    ∃ part, node.at? path = some part ∧ Renders memory around inner part := by
  induction occurs with
  | whole => exact ⟨node, rfl, renders⟩
  | inside _ is new holds ih =>
    obtain ⟨part, found, renders⟩ := ih
    cases renders with
    | plain none => exact absurd (none.symm.trans is) nofun
    | again same inside =>
      obtain rfl := Option.some.inj (is.symm.trans same)
      exact absurd inside new
    | opened same _ _ size each =>
      obtain rfl := Option.some.inj (is.symm.trans same)
      obtain ⟨below, step, member⟩ := Memory.child?_form size holds
      exact ⟨below, by rw [Json.at?_concat, found, Option.bind_some, step], each _ member⟩

/-- A container becomes `null` if it is inside of itself, and is converted with all its contents if it is not. -/
theorem of_container (renders : Renders memory around value node) {container : Container}
    (is : value.container? = some container) :
    (node = .null ↔ container ∈ around) ∧
      (container ∉ around →
        ∃ nodes, nodes.length = (memory.contents container).length ∧ node = memory.form container nodes) := by
  cases renders with
  | plain none => exact absurd (none.symm.trans is) nofun
  | again same inside =>
    obtain rfl := Option.some.inj (is.symm.trans same)
    exact ⟨iff_of_true rfl inside, fun new => absurd inside new⟩
  | @opened _ _ _ nodes same new _ size _ =>
    obtain rfl := Option.some.inj (is.symm.trans same)
    exact ⟨iff_of_false (Memory.form_ne_null nodes) new, fun _ => ⟨nodes, size, rfl⟩⟩

end Renders

/-! ## Conversions without one -/

namespace Unfolds

theorem unique (first : Unfolds memory value node) (second : Unfolds memory value other) : node = other := by
  induction first generalizing other with
  | plain none =>
    cases second with
    | plain => rfl
    | opened is => exact absurd (none.symm.trans is) nofun
  | opened is there size each ih =>
    cases second with
    | plain none => exact absurd (none.symm.trans is) nofun
    | opened same _ sizes others =>
      obtain rfl := Option.some.inj (is.symm.trans same)
      exact congrArg _ (eq_of_zip size sizes fun pair member node paired => ih pair member (others _ paired))

theorem placed (unfolds : Unfolds memory value node) : value.Placed memory := by
  induction unfolds with
  | plain none => exact fun last ⟨first, is, _⟩ => absurd (none.symm.trans is) nofun
  | opened is there size _ ih =>
    intro last reaches
    obtain rfl | ⟨inner, member, below⟩ := reaches.cases_content is
    · exact there
    · obtain ⟨part, paired⟩ := exists_mem_zip size member
      exact ih _ paired last below

theorem acyclic (unfolds : Unfolds memory value node) : value.Acyclic memory := by
  induction unfolds with
  | plain none => exact fun last ⟨first, is, _⟩ => absurd (none.symm.trans is) nofun
  | opened is _ size _ ih =>
    intro last reaches cycle
    obtain rfl | ⟨inner, member, below⟩ := reaches.cases_content is
    · -- The circle goes on through one of the contents, which is on it as well.
      obtain ⟨next, ⟨inner, member, names⟩, back⟩ := Relation.TransGen.head'_iff.mp cycle
      obtain ⟨part, paired⟩ := exists_mem_zip size member
      exact ih _ paired next (.self names) (.tail' back ⟨inner, member, names⟩)
    · obtain ⟨part, paired⟩ := exists_mem_zip size member
      exact ih _ paired last below cycle

end Unfolds

/-- Where nothing is inside itself, the record makes no difference. -/
theorem Renders.unfolds (renders : Renders memory around value node) (acyclic : value.Acyclic memory)
    (above : ∀ outer ∈ around, ∀ container, value.container? = some container →
      Relation.TransGen memory.Inside outer container) : Unfolds memory value node := by
  induction renders with
  | plain none => exact .plain none
  | @again _ _ container is inside => exact absurd (above container inside container is) (acyclic container (.self is))
  | @opened around _ container nodes is new there size each ih =>
    refine .opened is there size fun pair member => ?_
    have content : pair.1 ∈ memory.contents container := (List.of_mem_zip member).1
    refine ih pair member (acyclic.content is content) (List.forall_mem_cons.mpr ⟨?_, ?_⟩)
    · exact fun next names => .single ⟨pair.1, content, names⟩
    · exact fun outer inside next names => (above outer inside container is).tail ⟨pair.1, content, names⟩

namespace Value

namespace Occurs

variable {whole inner : Value} {path : Path}

theorem acyclic (occurs : whole.Occurs memory path around inner) (acyclic : whole.Acyclic memory) :
    inner.Acyclic memory := by
  induction occurs with
  | whole => exact acyclic
  | inside _ is _ holds ih => exact ih.content is (Memory.mem_contents_of_entry? holds)

theorem above (occurs : whole.Occurs memory path around inner) :
    ∀ outer ∈ around, ∀ container, inner.container? = some container →
      Relation.TransGen memory.Inside outer container := by
  induction occurs with
  | whole => exact List.forall_mem_nil _
  | @inside _ _ _ inner container _ _ is _ holds ih =>
    have content := Memory.mem_contents_of_entry? holds
    refine List.forall_mem_cons.mpr ⟨fun next names => .single ⟨inner, content, names⟩, ?_⟩
    exact fun outer inside next names => (ih outer inside container is).tail ⟨inner, content, names⟩

end Occurs

theorem renders_native (placed : value.Placed memory) : Renders memory [] value (value.native memory) :=
  renders_nativeWithin placed List.nodup_nil (List.forall_mem_nil _) (Nat.le_add_right _ _)

theorem native_of_unfolds (unfolds : Unfolds memory value node) : value.native memory = node :=
  ((renders_native unfolds.placed).unfolds unfolds.acyclic (List.forall_mem_nil _)).unique unfolds

/-- The rendering of a value that is in memory ends, with the one form that the conversion with a record gives, and with
more room it would give no more. At each path a container is `null` just if the path goes through it already, and stands
there with all its contents if not; what is no container stands there as it is rendered alone. The conversion without a
record has an answer just if nothing that can be reached is inside itself. It is the same one then, and whatever occurs
at several paths stands at each of them in full. -/
theorem native_cuts_only_circles (placed : value.Placed memory) :
    (∀ node, Renders memory [] value node ↔ node = value.native memory) ∧
    (∀ room, memory.room ≤ room → nativeWithin memory room [] value = value.native memory) ∧
    (∀ path around inner, value.Occurs memory path around inner →
      (inner.container? = none → (value.native memory).at? path = some (inner.native memory)) ∧
      ∀ container, inner.container? = some container →
        ((value.native memory).at? path = some .null ↔ container ∈ around) ∧
        (container ∉ around → ∃ nodes, nodes.length = (memory.contents container).length ∧
          (value.native memory).at? path = some (memory.form container nodes))) ∧
    (∀ node, Unfolds memory value node ↔ value.Acyclic memory ∧ node = value.native memory) ∧
    (value.Acyclic memory → ∀ path around inner, value.Occurs memory path around inner →
      (value.native memory).at? path = some (inner.native memory)) := by
  -- The host form is the one conversion with a record; each part is told of that conversion.
  have renders := renders_native placed
  refine ⟨fun node => ⟨fun other => other.unique renders, fun same => same ▸ renders⟩, fun room enough => ?_,
    fun path around inner occurs => ?_, fun node => ⟨fun unfolds => ?_, ?_⟩, fun acyclic path around inner occurs => ?_⟩
  · have roomy : Renders memory [] value (nativeWithin memory room [] value) :=
      renders_nativeWithin placed List.nodup_nil (List.forall_mem_nil _) (Nat.le_add_right_of_le enough)
    exact roomy.unique renders
  · obtain ⟨part, found, converts⟩ := renders.at? occurs
    rw [found]
    refine ⟨fun plain => congrArg some (converts.unique (.plain plain)), fun container is => ?_⟩
    obtain ⟨null, full⟩ := converts.of_container is
    refine ⟨Option.some_inj.trans null, fun new => ?_⟩
    obtain ⟨nodes, size, rfl⟩ := full new
    exact ⟨nodes, size, rfl⟩
  · exact ⟨unfolds.acyclic, (native_of_unfolds unfolds).symm⟩
  · rintro ⟨acyclic, rfl⟩
    exact renders.unfolds acyclic (List.forall_mem_nil _)
  · obtain ⟨part, found, converts⟩ := renders.at? occurs
    rw [found, native_of_unfolds (converts.unfolds (occurs.acyclic acyclic) occurs.above)]

/-- An object holds itself, and an array that holds one other array twice. -/
theorem native_cuts_only_circles_of_object :
    let memory : Memory := ⟨#[#[.array 1, .array 1], #[.bool true]], #[[("self", .object 0), ("shared", .array 0)]], #[]⟩
    let value : Value := .object 0
    let pair : Json := .array [.array [.bool true], .array [.bool true]]
    value.Placed memory ∧ value.native memory = .object [("self", .null), ("shared", pair)] ∧
    Renders memory [] value (.object [("self", .null), ("shared", pair)]) ∧
    value.Occurs memory [.key "self"] [.object 0] (.object 0) ∧
    (value.native memory).at? [.key "self"] = some .null ∧ ¬ value.Acyclic memory := by
  intro memory value pair
  have placed : value.Placed memory := by
    let held : List Container := [.object 0, .array 0, .array 1]
    have closed : ∀ outer ∈ held, ∀ inner ∈ memory.contents outer, ∀ next ∈ inner.container?, next ∈ held := by decide
    have there : ∀ container ∈ held, memory.cell? container.place ≠ none := by
      simp [held, memory, Memory.cell?, Container.place]
    rintro container ⟨first, ⟨⟩, below⟩
    refine there container ?_
    induction below with
    | refl => exact .head _
    | tail _ inside ih =>
      obtain ⟨inner, member, names⟩ := inside
      exact closed _ ih inner member _ names
  have native : value.native memory = .object [("self", .null), ("shared", pair)] := rfl
  obtain ⟨renders, -, occurs, -⟩ := native_cuts_only_circles placed
  have self : value.Occurs memory [.key "self"] [.object 0] (.object 0) := .inside .whole rfl (List.not_mem_nil) rfl
  refine ⟨placed, native, (renders _).mpr rfl, self, ((occurs _ _ _ self).2 _ rfl).1.mpr (.head _), ?_⟩
  exact fun acyclic => acyclic (.object 0) (.self rfl) (.single ⟨.object 0, .head _, rfl⟩)

end Value

end RuleScript
