import RuleScript.Proofs.Document.Distinct

/-! Searching a host document.

A search answers the places of one holder of the name. It is the first one that has any, among the objects that can be
reached from element to element without going below a holder.
-/

set_option autoImplicit false

namespace RuleScript

namespace Json

/-- The order of a document: a node before what is in it, items by position, and members in the order of their names. -/
inductive Before : Json → Path → Path → Prop where
  | root {node : Json} {step : Step} {rest : Path} : Before node [] (step :: rest)
  | item {items : List Json} {i j : Nat} {path other : Path} (less : i < j) :
    Before (.array items) (.index i :: path) (.index j :: other)
  | member {members : List (String × Json)} {name second : String} {path other : Path}
      (order : [name, second].Sublist (members.map Prod.fst)) :
    Before (.object members) (.key name :: path) (.key second :: other)
  | inside {node next : Json} {step : Step} {path other : Path} (child : node.child? step = some next)
      (before : Before next path other) : Before node (step :: path) (step :: other)

def elementsOf (key : String) : Json → List (Path × Json)
  | .array items => items.zipIdx.map fun item => ([.key key, .index item.2], item.1)
  | _ => []

/-- The elements of all arrays that an object has, in the order of its names and then of their positions. -/
def elements : Json → List (Path × Json)
  | .object members => members.flatMap fun member => elementsOf member.1 member.2
  | _ => []

variable {node next : Json} {step : Step} {path other : Path}

theorem Before.ne (before : node.Before path other) (distinct : node.Distinct) : path ≠ other := by
  induction before with
  | root => exact nofun
  | item less =>
    intro same
    cases same
    exact Nat.lt_irrefl _ less
  | @member members name second _ _ order =>
    intro same
    cases same
    simpa using order.nodup (distinct [] members rfl)
  | @inside node next step _ _ child _ ih =>
    intro same
    exact ih ((distinct_iff.mp distinct).2 step next child) (List.cons.inj same).2

theorem Before.append (before : next.Before path other) {above : Path} (found : node.at? above = some next) :
    node.Before (above ++ path) (above ++ other) := by
  induction above generalizing node with
  | nil =>
    cases found
    exact before
  | cons step rest ih =>
    rw [at?_cons] at found
    obtain ⟨child, there, found⟩ := Option.bind_eq_some_iff.mp found
    exact .inside there (ih found)

theorem sizeOf_child? (child : node.child? step = some next) : sizeOf next < sizeOf node := by
  cases node with
  | array items =>
    cases step with
    | index position =>
      have smaller := List.sizeOf_lt_of_mem (List.mem_of_getElem? child)
      simp only [array.sizeOf_spec]
      omega
    | key => cases child
  | object members =>
    cases step with
    | index => cases child
    | key name =>
      have smaller := List.sizeOf_lt_of_mem (Fields.mem_of_get? child)
      simp only [object.sizeOf_spec, Prod.mk.sizeOf_spec] at smaller ⊢
      omega
  | _ => cases child

theorem sizeOf_at? (found : node.at? (step :: path) = some next) : sizeOf next < sizeOf node := by
  induction path generalizing node step with
  | nil =>
    rw [at?_cons] at found
    obtain ⟨last, child, found⟩ := Option.bind_eq_some_iff.mp found
    cases found
    exact sizeOf_child? child
  | cons second rest ih =>
    rw [at?_cons] at found
    obtain ⟨below, child, found⟩ := Option.bind_eq_some_iff.mp found
    exact Nat.lt_trans (ih found) (sizeOf_child? child)

theorem mem_elements {members : List (String × Json)} {element : Path × Json} :
    element ∈ (object members).elements ↔
      ∃ key items position, (key, .array items) ∈ members ∧
        items[position]? = some element.2 ∧ element.1 = [.key key, .index position] := by
  obtain ⟨path, item⟩ := element
  rw [elements, List.mem_flatMap]
  constructor
  · rintro ⟨⟨key, value⟩, member, inside⟩
    cases value with
    | array items =>
      obtain ⟨⟨item, position⟩, held, same⟩ := List.mem_map.mp inside
      cases same
      exact ⟨key, items, position, member, List.mem_zipIdx_iff_getElem?.mp held, rfl⟩
    | _ => cases inside
  · rintro ⟨key, items, position, member, held, rfl⟩
    exact ⟨(key, .array items), member, List.mem_map.mpr ⟨(item, position), List.mem_zipIdx_iff_getElem?.mpr held, rfl⟩⟩

theorem at?_of_mem_elements {element : Path × Json} (distinct : node.Distinct) (inside : element ∈ node.elements) :
    node.at? element.1 = some element.2 := by
  cases node with
  | object members =>
    obtain ⟨path, item⟩ := element
    obtain ⟨key, items, position, member, held, rfl⟩ := mem_elements.mp inside
    have child : (object members).child? (.key key) = some (.array items) :=
      Fields.get?_of_mem (distinct [] members rfl) member
    rw [at?_cons, child, Option.bind_some, at?_cons]
    exact congrArg (Option.bind · _) held
  | _ => cases inside

end Json

def firstFound {α : Type} (answers : List (List α)) : List α :=
  (answers.find? fun answer => !answer.isEmpty).getD []

section Answers

variable {α : Type} {answers others : List (List α)}

theorem firstFound_cons (answer : List α) (answers : List (List α)) :
    firstFound (answer :: answers) =
      match answer with
      | [] => firstFound answers
      | found => found := by
  cases answer <;> rfl

theorem firstFound_append (answers others : List (List α)) :
    firstFound (answers ++ others) =
      match firstFound answers with
      | [] => firstFound others
      | found => found := by
  induction answers with
  | nil => rfl
  | cons answer answers ih =>
    rw [List.cons_append, firstFound_cons, firstFound_cons]
    cases answer with
    | nil => exact ih
    | cons => rfl

theorem firstFound_map {β : Type} (f : α → β) (answers : List (List α)) :
    firstFound (answers.map (List.map f)) = (firstFound answers).map f := by
  induction answers with
  | nil => rfl
  | cons answer answers ih =>
    rw [List.map_cons, firstFound_cons, firstFound_cons]
    cases answer with
    | nil => exact ih
    | cons => rfl

theorem firstFound_eq_nil : firstFound answers = [] ↔ ∀ answer ∈ answers, answer = [] := by
  induction answers with
  | nil => simp [firstFound]
  | cons answer answers ih =>
    rw [firstFound_cons, List.forall_mem_cons]
    cases answer with
    | nil => simpa using ih
    | cons => simp

theorem firstFound_mem (found : firstFound answers ≠ []) : firstFound answers ∈ answers := by
  induction answers with
  | nil => exact absurd rfl found
  | cons answer answers ih =>
    rw [firstFound_cons] at found ⊢
    cases answer with
    | nil => exact List.mem_cons_of_mem _ (ih found)
    | cons => exact List.mem_cons_self

end Answers

namespace Json

theorem searchItems_eq (name : String) (position : Nat) (items : List Json) :
    searchItems name position items =
      firstFound ((items.zipIdx position).map fun item => (search name item.1).map (.index item.2 :: ·)) := by
  induction items generalizing position with
  | nil => rfl
  | cons item rest ih =>
    rw [searchItems, ih, List.zipIdx_cons, List.map_cons, firstFound_cons]
    cases search name item <;> rfl

theorem searchArray_eq (name key : String) (value : Json) :
    (searchArray name value).map (.key key :: ·) =
      firstFound ((elementsOf key value).map fun element => (search name element.2).map (element.1 ++ ·)) := by
  cases value with
  | array items =>
    rw [searchArray, searchItems_eq, ← firstFound_map, elementsOf, List.map_map, List.map_map]
    congr 2
    funext item
    simp
  | _ => rfl

theorem searchMembers_eq (name : String) (members : List (String × Json)) :
    searchMembers name members =
      firstFound ((object members).elements.map fun element => (search name element.2).map (element.1 ++ ·)) := by
  induction members with
  | nil => rfl
  | cons member rest ih =>
    obtain ⟨key, value⟩ := member
    change _ = firstFound ((elementsOf key value ++ (object rest).elements).map _)
    rw [List.map_append, firstFound_append, ← ih, ← searchArray_eq, searchMembers]
    cases searchArray name value <;> rfl

theorem placesOf_eq_nil {name : String} {value : Json} : placesOf name value = [] ↔ value = .array [] := by
  cases value <;> simp [placesOf]

theorem pairwise_placesOf {members : List (String × Json)} {name : String} {value : Json}
    (holds : Fields.get? members name = some value) : (placesOf name value).Pairwise (object members).Before := by
  cases value with
  | array items =>
    exact List.pairwise_map.mpr (List.pairwise_lt_range.imp fun less => .inside holds (.item less))
  | _ => exact List.pairwise_singleton _ _

theorem at?_of_mem_placesOf {members : List (String × Json)} {name : String} {value : Json} {place : Path}
    (holds : Fields.get? members name = some value) (member : place ∈ placesOf name value) :
    (object members).at? place ≠ none := by
  have child : (object members).child? (.key name) = some value := holds
  cases value with
  | array items =>
    obtain ⟨position, inside, rfl⟩ := List.mem_map.mp member
    rw [at?_cons, child, Option.bind_some, at?_cons]
    simpa [child?, at?] using inside
  | _ =>
    cases List.mem_singleton.mp member
    rw [at?_cons, child]
    exact Option.some_ne_none _

end Json

namespace View

def below (view : View) (path : Path) : View :=
  { view with path := view.path ++ path }

def elements (view : View) (memory : Memory) : List View :=
  match view.node? memory with
  | some node => node.elements.map fun element => view.below element.1
  | none => []

/-- What can be reached by going to an element again and again, but never from a holder of the name. -/
inductive Reaches (name : String) (memory : Memory) : View → View → Prop where
  | here {view : View} : Reaches name memory view view
  | through {view element last : View} (absent : view.has name memory = false)
      (inside : element ∈ view.elements memory) (reaches : Reaches name memory element last) :
    Reaches name memory view last

variable {view element : View} {name : String} {memory : Memory} {node : Json} {members : List (String × Json)}

theorem node?_below (view : View) (path : Path) (memory : Memory) :
    (view.below path).node? memory = (view.node? memory).bind (·.at? path) :=
  Json.at?_append _ _ _

theorem search_of_node (name : String) (found : view.node? memory = some node) :
    view.search name memory = (node.search name).map view.below := by
  rw [search, found]
  rfl

theorem mem_elements : element ∈ view.elements memory ↔
    ∃ node entry, view.node? memory = some node ∧ entry ∈ node.elements ∧ view.below entry.1 = element := by
  rw [elements]
  cases view.node? memory with
  | none => simp
  | some node => simp

theorem sizeOf_element (inside : element ∈ view.elements memory) :
    element.document = view.document ∧ sizeOf (element.node? memory) < sizeOf (view.node? memory) := by
  obtain ⟨node, ⟨path, item⟩, found, held, rfl⟩ := mem_elements.mp inside
  refine ⟨rfl, ?_⟩
  cases node with
  | object members =>
    obtain ⟨key, items, position, -, -, rfl⟩ := Json.mem_elements.mp held
    rw [node?_below, found, Option.bind_some, Option.some.sizeOf_spec]
    cases below : (Json.object members).at? [.key key, .index position] with
    | none =>
      rw [Option.none.sizeOf_spec, Json.object.sizeOf_spec]
      omega
    | some item =>
      have smaller := Json.sizeOf_at? below
      rw [Option.some.sizeOf_spec]
      omega
  | _ => cases held

/-- What holds of a view whenever it holds of all its elements holds of every view: an element is a smaller node. -/
theorem elements_induction {P : View → Prop} (memory : Memory)
    (step : ∀ view : View, (∀ element ∈ view.elements memory, P element) → P view) (view : View) : P view :=
  (measure fun view : View => sizeOf (view.node? memory)).wf.induction view fun view ih =>
    step view fun element inside => ih element (sizeOf_element inside).2

theorem search_of_holder {value : Json} (found : view.node? memory = some (.object members))
    (holds : Fields.get? members name = some value) :
    view.search name memory = (Json.placesOf name value).map view.below := by
  rw [search_of_node name found, Json.search, holds]

theorem search_of_absent (distinct : (memory.document view.document).Distinct) (absent : view.has name memory = false) :
    view.search name memory = firstFound ((view.elements memory).map fun element => element.search name memory) := by
  cases found : view.node? memory with
  | none => simp [search, elements, found, firstFound]
  | some node =>
    cases node with
    | object members =>
      have none : Fields.get? members name = none := by
        simpa [has, found, Fields.contains_eq_isSome] using absent
      rw [search_of_node name found, Json.search, none, elements, found]
      dsimp only
      rw [Json.searchMembers_eq, ← firstFound_map, List.map_map, List.map_map]
      congr 1
      -- An element that is searched in the tree is searched below the view as well.
      refine List.map_congr_left fun ⟨path, item⟩ inside => ?_
      have there : (view.below path).node? memory = some item := by
        rw [node?_below, found, Option.bind_some]
        exact Json.at?_of_mem_elements (distinct.at found) inside
      change ((Json.search name item).map (path ++ ·)).map view.below = (view.below path).search name memory
      rw [search_of_node name there, List.map_map]
      congr 1
      funext rest
      simp [below]
    | _ => simp [search, elements, found, Json.search, Json.elements, firstFound]

/-- What is found is the places of one holder. -/
theorem search_reaches (distinct : (memory.document view.document).Distinct) (name : String) :
    view.search name memory = [] ∨
      ∃ holder members value, view.Reaches name memory holder ∧ holder.document = view.document ∧
        holder.node? memory = some (.object members) ∧ Fields.get? members name = some value ∧
        view.search name memory = (Json.placesOf name value).map holder.below := by
  induction view using elements_induction memory with
  | step view ih =>
    cases absent : view.has name memory with
    | true =>
      obtain ⟨members, value, found, holds⟩ := has_iff_get?.mp absent
      exact .inr ⟨view, members, value, .here, rfl, found, holds, search_of_holder found holds⟩
    | false =>
      rw [search_of_absent distinct absent]
      by_cases found : firstFound ((view.elements memory).map fun element => element.search name memory) = []
      · exact .inl found
      -- The first answer that is not empty is that of one element.
      obtain ⟨element, inside, same⟩ := List.mem_map.mp (firstFound_mem found)
      have here := (sizeOf_element inside).1
      obtain none | ⟨holder, members, value, reaches, document, there, holds, places⟩ :=
        ih element inside (here ▸ distinct)
      · exact absurd (same.symm.trans none) found
      · exact .inr ⟨holder, members, value, .through absent inside reaches, document.trans here, there, holds,
          same.symm.trans places⟩

theorem search_eq_nil_iff (distinct : (memory.document view.document).Distinct) (name : String) :
    view.search name memory = [] ↔ ∀ holder, view.Reaches name memory holder → ∀ members value,
      holder.node? memory = some (.object members) → Fields.get? members name = some value → value = .array [] := by
  induction view using elements_induction memory with
  | step view ih =>
    cases absent : view.has name memory with
    | true =>
      obtain ⟨members, value, found, holds⟩ := has_iff_get?.mp absent
      rw [search_of_holder found holds, List.map_eq_nil_iff, Json.placesOf_eq_nil]
      -- Nothing can be reached from a holder but itself.
      refine ⟨fun empty holder reaches => ?_, fun all => all view .here members value found holds⟩
      cases reaches with
      | here =>
        intro others other there second
        cases found.symm.trans there
        cases holds.symm.trans second
        exact empty
      | through none => cases absent.symm.trans none
    | false =>
      rw [search_of_absent distinct absent, firstFound_eq_nil, List.forall_mem_map]
      -- Every holder is reached through an element, and the elements are smaller.
      have still : ∀ element ∈ view.elements memory, (memory.document element.document).Distinct :=
        fun element inside => (sizeOf_element inside).1 ▸ distinct
      constructor
      · intro empty holder reaches members value there holds
        cases reaches with
        | here =>
          have has : view.has name memory = true := has_iff_get?.mpr ⟨members, value, there, holds⟩
          cases has.symm.trans absent
        | @through _ element _ _ inside reaches =>
          have none := (ih element inside (still element inside)).mp (empty element inside)
          exact none holder reaches members value there holds
      · intro all element inside
        exact (ih element inside (still element inside)).mpr fun holder reaches =>
          all holder (.through absent inside reaches)

/-- Where objects have each name once, a search answers places of the document, in its order and each once. If the
viewed object has the name itself, they are the items of an array, or else the one member. If not, they are what an
element finds: the first one, by the order of the arrays and then of their items, that finds anything. Nothing is found
exactly if no object that can be reached from element to element, not going below one that has the name, has it with
anything but an array of nothing. -/
theorem search_finds_first_holder (distinct : (memory.document view.document).Distinct) (name : String) :
    (∀ place ∈ view.search name memory, place.document = view.document ∧ place.node? memory ≠ none) ∧
    (view.search name memory).Pairwise
      (fun first second => (memory.document view.document).Before first.path second.path) ∧
    (view.search name memory).Nodup ∧
    (∀ members items, view.node? memory = some (.object members) → Fields.get? members name = some (.array items) →
      view.search name memory =
        (List.range items.length).map fun position => (view.child (.key name)).child (.index position)) ∧
    (∀ members value, view.node? memory = some (.object members) → Fields.get? members name = some value →
      (∀ items, value ≠ .array items) → view.search name memory = [view.child (.key name)]) ∧
    (view.has name memory = false →
      view.search name memory =
        firstFound ((view.elements memory).map fun element => element.search name memory)) ∧
    (view.search name memory = [] ↔ ∀ holder, view.Reaches name memory holder → ∀ members value,
      holder.node? memory = some (.object members) → Fields.get? members name = some value → value = .array []) := by
  -- All that is found are the places of one holder, so what holds of these holds of the answer.
  have ordered : (view.search name memory).Pairwise
      (fun first second => (memory.document view.document).Before first.path second.path) := by
    obtain none | ⟨holder, members, value, -, here, found, holds, places⟩ := search_reaches distinct name
    · rw [none]
      exact .nil
    · rw [places]
      refine List.pairwise_map.mpr ((Json.pairwise_placesOf holds).imp fun before => ?_)
      exact before.append (here ▸ found)
  refine ⟨fun place member => ?_, ordered, ordered.imp fun before same => ?_, fun members items found holds => ?_,
    fun members value found holds other => ?_, search_of_absent distinct, search_eq_nil_iff distinct name⟩
  · obtain none | ⟨holder, members, value, -, here, found, holds, places⟩ := search_reaches distinct name
    · rw [none] at member
      cases member
    · rw [places] at member
      obtain ⟨path, among, rfl⟩ := List.mem_map.mp member
      refine ⟨here, ?_⟩
      rw [node?_below, found]
      exact Json.at?_of_mem_placesOf holds among
  · exact before.ne distinct (congrArg path same)
  · rw [search_of_holder found holds, Json.placesOf, List.map_map]
    refine List.map_congr_left fun position _ => ?_
    simp [below, child]
  · rw [search_of_holder found holds]
    cases value with
    | array items => exact absurd rfl (other items)
    | _ => rfl

/-- The first of two groups has no items, so those of the second are found. -/
theorem search_finds_first_holder_past_empty :
    let group (items : List Json) : Json := .object [("Items", .array items)]
    let document : Json := .object [("Name", .string "a"), ("Groups", .array [group [], group [.null, .bool true]])]
    let memory : Memory := .ofDocument document
    let view : View := ⟨0, []⟩
    document.Distinct ∧ view.has "Items" memory = false ∧
      view.search "Items" memory = [⟨0, [.key "Groups", .index 1, .key "Items", .index 0]⟩,
        ⟨0, [.key "Groups", .index 1, .key "Items", .index 1]⟩] := by
  intro group document memory view
  have groups (items : List Json) (all : ∀ item ∈ items, item.Distinct) : (group items).Distinct :=
    Json.distinct_object (by simp) (by simpa using Json.distinct_array all)
  have plain : Json.null.Distinct ∧ (Json.bool true).Distinct ∧ (Json.string "a").Distinct :=
    ⟨Json.distinct_of_plain nofun nofun, Json.distinct_of_plain nofun nofun, Json.distinct_of_plain nofun nofun⟩
  have distinct : document.Distinct := by
    refine Json.distinct_object (by decide) (List.forall_mem_cons.mpr ⟨plain.2.2, ?_⟩)
    have each : ∀ node ∈ [group [], group [.null, .bool true]], node.Distinct := by
      simpa using ⟨groups [] nofun, groups _ (by simpa using ⟨plain.1, plain.2.1⟩)⟩
    simpa using Json.distinct_array each
  have absent : view.has "Items" memory = false := by decide
  obtain ⟨-, -, -, -, -, first, -⟩ := @search_finds_first_holder view memory distinct "Items"
  exact ⟨distinct, absent, (first absent).trans (by decide)⟩

end View

end RuleScript
