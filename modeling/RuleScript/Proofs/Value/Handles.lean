import RuleScript.Evaluation.Range
import RuleScript.Library.Basic

/-! Where the scopes in values come from.

A closure and a scope value name a scope; no other value does. Messages, look-ups in documents and library
functions make no such value of their own: what they answer and what they store is found among their arguments and
in memory before. All this is said for an arbitrary property that every value without a scope has.
-/

set_option autoImplicit false

namespace RuleScript

namespace Fields

variable {α : Type} {fields : Fields α} {name : String} {value : α}

theorem mem_of_get? (found : get? fields name = some value) : (name, value) ∈ fields := by
  induction fields with
  | nil => cases found
  | cons head rest ih =>
    rw [get?] at found
    split at found
    case isTrue same =>
      cases found
      exact same ▸ List.mem_cons_self
    case isFalse => exact List.mem_cons_of_mem _ (ih found)

theorem mem_put {pair : String × α} (member : pair ∈ put fields name value) :
    pair = (name, value) ∨ pair ∈ fields := by
  induction fields with
  | nil => exact .inl (List.mem_singleton.mp member)
  | cons head rest ih =>
    rw [put] at member
    split at member
    case isTrue same =>
      rcases List.mem_cons.mp member with rfl | old
      · exact .inl (by rw [same])
      · exact .inr (List.mem_cons_of_mem _ old)
    case isFalse =>
      rcases List.mem_cons.mp member with rfl | later
      · exact .inr List.mem_cons_self
      · exact (ih later).imp_right (List.mem_cons_of_mem _)

theorem put_all {Q : α → Prop} (old : ∀ pair ∈ fields, Q pair.2) (new : Q value) :
    ∀ pair ∈ put fields name value, Q pair.2 := by
  intro pair member
  rcases mem_put member with rfl | before
  · exact new
  · exact old pair before

theorem ofList_all {Q : α → Prop} {pairs : List (String × α)} (all : ∀ pair ∈ pairs, Q pair.2) :
    ∀ pair ∈ ofList pairs, Q pair.2 := by
  unfold ofList
  -- The fields are put one after another, so the induction speaks of any fields before.
  suffices ∀ start : Fields α, (∀ pair ∈ start, Q pair.2) →
      ∀ pair ∈ pairs.foldl (fun fields pair => put fields pair.1 pair.2) start, Q pair.2 from
    this [] (by simp)
  induction pairs with
  | nil => exact fun _ old => old
  | cons head rest ih =>
    intro start old
    exact ih (fun pair member => all pair (List.mem_cons_of_mem _ member)) _
      (put_all old (all head List.mem_cons_self))

end Fields

def Value.handle? : Value → Option ScopeId
  | .closure c => some c.scope
  | .scope id => some id
  | _ => none

structure Memory.All (Q : Value → Prop) (memory : Memory) : Prop where
  items : ∀ place, ∀ value ∈ memory.items place, Q value
  members : ∀ place, ∀ pair ∈ memory.members place, Q pair.2

namespace Memory.All

variable {Q : Value → Prop} {memory : Memory}

theorem ofDocument (document : Json) : (Memory.ofDocument document).All Q :=
  ⟨fun _ _ member => by simp [Memory.items, Memory.ofDocument] at member,
    fun _ _ member => by simp [Memory.members, Memory.ofDocument] at member⟩

theorem imp {R : Value → Prop} (all : memory.All Q) (weaker : ∀ value, Q value → R value) :
    memory.All R :=
  ⟨fun place value member => weaker _ (all.items place value member),
    fun place pair member => weaker _ (all.members place pair member)⟩

theorem addArray (all : memory.All Q) {items : Array Value} (new : ∀ value ∈ items, Q value) :
    (memory.addArray items).2.All Q where
  members := all.members
  items place value member := by
    simp only [Memory.items, Memory.addArray, Array.getD_eq_getD_getElem?, Array.getElem?_push] at member
    split at member
    · exact new value member
    · exact all.items place value (by simpa [Memory.items, Array.getD_eq_getD_getElem?] using member)

theorem addObject (all : memory.All Q) {members : Fields Value} (new : ∀ pair ∈ members, Q pair.2) :
    (memory.addObject members).2.All Q where
  items := all.items
  members place pair member := by
    simp only [Memory.members, Memory.addObject, Array.getD_eq_getD_getElem?, Array.getElem?_push] at member
    split at member
    · exact new pair member
    · exact all.members place pair (by simpa [Memory.members, Array.getD_eq_getD_getElem?] using member)

theorem modifyArray (all : memory.All Q) {place : Nat} {f : Array Value → Array Value}
    (new : ∀ items : Array Value, (∀ value ∈ items, Q value) → ∀ value ∈ f items, Q value) :
    Memory.All Q { memory with arrays := memory.arrays.modify place f } where
  members := all.members
  items other value member := by
    have old := all.items other
    simp only [Memory.items, Array.getD_eq_getD_getElem?, Array.getElem?_modify] at member old
    split at member
    · cases found : memory.arrays[other]? with
      | none => simp [found] at member
      | some items =>
        simp only [found, Option.map_some, Option.getD_some] at member old
        exact new items old value member
    · exact old value member

theorem modifyObject (all : memory.All Q) {place : Nat} {f : Fields Value → Fields Value}
    (new : ∀ members : Fields Value, (∀ pair ∈ members, Q pair.2) → ∀ pair ∈ f members, Q pair.2) :
    Memory.All Q { memory with objects := memory.objects.modify place f } where
  items := all.items
  members other pair member := by
    have old := all.members other
    simp only [Memory.members, Array.getD_eq_getD_getElem?, Array.getElem?_modify] at member old
    split at member
    · cases found : memory.objects[other]? with
      | none => simp [found] at member
      | some members =>
        simp only [found, Option.map_some, Option.getD_some] at member old
        exact new members old pair member
    · exact old pair member

theorem item (all : memory.All Q) (empty : Q .empty) (place position : Nat) :
    Q ((memory.items place).getD position .empty) := by
  rw [Array.getD_eq_getD_getElem?]
  cases found : (memory.items place)[position]? with
  | none => exact empty
  | some value => exact all.items place value (Array.mem_of_getElem? found)

theorem member (all : memory.All Q) (empty : Q .empty) (place : Nat) (name : String) :
    Q ((Fields.get? (memory.members place) name).getD .empty) := by
  cases found : Fields.get? (memory.members place) name with
  | none => exact empty
  | some value => exact all.members place _ (Fields.mem_of_get? found)

theorem setDocuments (all : memory.All Q) (documents : Array Json) :
    Memory.All Q { memory with documents } :=
  ⟨all.items, all.members⟩

end Memory.All

/-- From memory where every stored value has `Q`, an action leads to such memory, and what it answers has
`post`. -/
def Action.Ensures {α : Type} (Q : Value → Prop) (act : Action α) (post : α → Prop) : Prop :=
  ∀ memory : Memory, memory.All Q →
    (act memory).2.All Q ∧ ∀ result, (act memory).1 = .ok result → post result

theorem Action.bind_apply {α β : Type} (act : Action α) (next : α → Action β) (memory : Memory) :
    (act >>= next) memory =
      match (act memory).1 with
      | .ok result => next result (act memory).2
      | .error failure => (.error failure, (act memory).2) := by
  change (match act memory with | (result, later) => ExceptT.bindCont next result later) = _
  rcases act memory with ⟨_ | _, _⟩ <;> rfl

namespace Action.Ensures

variable {α β : Type} {Q : Value → Prop} {post : α → Prop} {after : β → Prop}

theorem pure {result : α} (good : post result) : Ensures Q (pure result) post :=
  fun _ all => ⟨all, fun _ same => Except.ok.inj same ▸ good⟩

theorem throw (failure : Failure) : Ensures Q (throw failure : Action α) post :=
  fun _ all => ⟨all, by rintro _ ⟨⟩⟩

theorem bind {act : Action α} {next : α → Action β} (first : Ensures Q act post)
    (rest : ∀ result, post result → Ensures Q (next result) after) : Ensures Q (act >>= next) after := by
  intro memory all
  obtain ⟨kept, answered⟩ := first memory all
  rw [Action.bind_apply]
  cases ran : (act memory).1 with
  | error failure => exact ⟨kept, by simp⟩
  | ok result => exact rest result (answered result ran) _ kept

theorem andThen {act : Action α} {next : α → Action β} (first : Ensures Q act fun _ => True)
    (rest : ∀ result, Ensures Q (next result) after) : Ensures Q (act >>= next) after :=
  .bind first fun result _ => rest result

theorem get : Ensures Q (MonadState.get : Action Memory) (Memory.All Q) :=
  fun _ all => ⟨all, fun _ same => Except.ok.inj same ▸ all⟩

theorem lift {act : StateM Memory α}
    (runs : ∀ memory : Memory, memory.All Q → (act memory).2.All Q ∧ post (act memory).1) :
    Ensures Q (ExceptT.lift act) post :=
  fun memory all => ⟨(runs memory all).1, fun _ same => Except.ok.inj same ▸ (runs memory all).2⟩

theorem ofExcept {result : Except Failure α} (good : ∀ value, result = .ok value → post value) :
    Ensures Q (.ofExcept result) post := by
  cases result with
  | error failure => exact throw failure
  | ok value => exact pure (good value rfl)

theorem imp {weaker : α → Prop} {act : Action α} (ensures : Ensures Q act post)
    (implies : ∀ result, post result → weaker result) : Ensures Q act weaker :=
  fun memory all => ⟨(ensures memory all).1, fun result same => implies _ ((ensures memory all).2 result same)⟩

end Action.Ensures

theorem Action.newArray_ensures {Q : Value → Prop} (plain : ∀ value : Value, value.handle? = none → Q value)
    {items : Array Value} (new : ∀ value ∈ items, Q value) : Ensures Q (newArray items) Q :=
  fun _ stored => ⟨stored.addArray new, fun _ same => Except.ok.inj same ▸ plain _ rfl⟩

theorem Action.newObject_ensures {Q : Value → Prop} (plain : ∀ value : Value, value.handle? = none → Q value)
    {members : Fields Value} (new : ∀ pair ∈ members, Q pair.2) : Ensures Q (newObject members) Q :=
  fun _ stored => ⟨stored.addObject new, fun _ same => Except.ok.inj same ▸ plain _ rfl⟩

namespace Json

variable {Q : Value → Prop}

theorem handle?_project (json : Json) (view : View) (memory : Memory) :
    (json.project view memory).1.handle? = none := by
  cases json with
  | string text =>
    change Value.handle? (if text.isEmpty then .empty else .text text) = none
    split <;> rfl
  | _ => rfl

mutual

theorem project_all (plain : ∀ value : Value, value.handle? = none → Q value) (view : View)
    (json : Json) (memory : Memory) (all : memory.All Q) :
    (json.project view memory).2.All Q ∧ Q (json.project view memory).1 := by
  cases json with
  | null | bool | integer | float | object => exact ⟨all, plain _ rfl⟩
  | string text => exact ⟨all, plain _ (handle?_project ..)⟩
  | array items =>
    obtain ⟨kept, made⟩ := projectItems_all plain view 0 items memory all
    exact ⟨kept.addArray fun value member => made value (by simpa using member), plain _ rfl⟩

theorem projectItems_all (plain : ∀ value : Value, value.handle? = none → Q value) (view : View)
    (position : Nat) (items : List Json) (memory : Memory) (all : memory.All Q) :
    (Json.projectItems view position items memory).2.All Q ∧
      ∀ value ∈ (Json.projectItems view position items memory).1, Q value := by
  cases items with
  | nil => exact ⟨all, List.forall_mem_nil _⟩
  | cons item rest =>
    obtain ⟨kept, made⟩ := project_all plain (view.child (.index position)) item memory all
    obtain ⟨later, others⟩ := projectItems_all plain view (position + 1) rest _ kept
    refine ⟨later, fun value member => ?_⟩
    rcases List.mem_cons.mp member with rfl | old
    · exact made
    · exact others value old

end

end Json

namespace View

variable {Q : Value → Prop} {memory : Memory}

theorem project_apply (view : View) (memory : Memory) :
    view.project memory =
      match view.node? memory with
      | some node => node.project view memory
      | none => (.empty, memory) := by
  change (match view.node? memory with
    | some node => node.project view
    | none => pure .empty : StateM Memory Value) memory = _
  cases view.node? memory <;> rfl

theorem get_apply (view : View) (name : String) (memory : Memory) :
    view.get name memory =
      match (view.node? memory).bind (stepTo? name) with
      | some step => (view.child step).project memory
      | none => (.empty, memory) := by
  change (match (view.node? memory).bind (stepTo? name) with
    | some step => (view.child step).project
    | none => pure .empty : StateM Memory Value) memory = _
  cases (view.node? memory).bind (stepTo? name) <;> rfl

theorem handle?_get (view : View) (name : String) (memory : Memory) :
    (view.get name memory).1.handle? = none := by
  rw [get_apply]
  split
  · rw [project_apply]
    split
    · exact Json.handle?_project ..
    · rfl
  · rfl

theorem project_all (plain : ∀ value : Value, value.handle? = none → Q value) (view : View)
    (all : memory.All Q) : (view.project memory).2.All Q ∧ Q (view.project memory).1 := by
  rw [project_apply]
  split
  · exact Json.project_all plain view _ memory all
  · exact ⟨all, plain _ rfl⟩

theorem get_all (plain : ∀ value : Value, value.handle? = none → Q value) (view : View) (name : String)
    (all : memory.All Q) : (view.get name memory).2.All Q ∧ Q (view.get name memory).1 := by
  rw [get_apply]
  split
  · exact project_all plain _ all
  · exact ⟨all, plain _ rfl⟩

theorem set_apply (view : View) (name : String) (value : Value) (memory : Memory) :
    view.set name value memory =
      match Json.putAt? name (value.native memory) (memory.document view.document) view.path with
      | some document =>
        (value, { memory with documents := memory.documents.setIfInBounds view.document document })
      | none => (.empty, memory) := rfl

theorem set_all (plain : ∀ value : Value, value.handle? = none → Q value) (view : View) (name : String)
    (all : memory.All Q) {value : Value} (good : Q value) :
    (view.set name value memory).2.All Q ∧ Q (view.set name value memory).1 := by
  rw [set_apply]
  split
  · exact ⟨all.setDocuments _, good⟩
  · exact ⟨all, plain _ rfl⟩

end View

namespace Value

variable {Q : Value → Prop} (plain : ∀ value : Value, value.handle? = none → Q value)

include plain

theorem ensures_plain {value : Value} (none : value.handle? = .none) :
    Action.Ensures Q (pure value) Q :=
  .pure (plain value none)

theorem argument_of_all {arguments : List Value} (all : ∀ value ∈ arguments, Q value) (position : Nat) :
    Q (argument arguments position) := by
  unfold argument
  rw [List.getD_eq_getElem?_getD]
  cases found : arguments[position]? with
  | none => exact plain _ rfl
  | some value => exact all value (List.mem_of_getElem? found)

omit plain in
theorem handle?_ofOrdering (order : Ordering) : (ofOrdering order).handle? = none := by
  cases order <;> rfl

-- Numbers, texts, truth values and dates answer with plain values or not at all, whatever the message.
theorem sendNumber_ensures (x : Float) (message : Message) (arguments : List Value) :
    Action.Ensures Q (sendNumber x message arguments) Q := by
  unfold sendNumber
  dsimp only
  repeat' split
  all_goals first
    | exact .throw _
    | exact ensures_plain plain rfl
    | exact ensures_plain plain (handle?_ofOrdering _)

theorem sendText_ensures (s : String) (message : Message) (arguments : List Value) :
    Action.Ensures Q (sendText s message arguments) Q := by
  unfold sendText
  refine .bind .get fun memory _ => ?_
  dsimp only
  split
  all_goals first
    | exact .throw _
    | exact ensures_plain plain rfl
    | exact ensures_plain plain (handle?_ofOrdering _)

theorem sendBool_ensures (b : Bool) (message : Message) (arguments : List Value) :
    Action.Ensures Q (sendBool b message arguments) Q := by
  unfold sendBool
  refine .bind .get fun memory _ => ?_
  dsimp only
  repeat' split
  all_goals first
    | exact .throw _
    | exact ensures_plain plain rfl
    | exact ensures_plain plain (handle?_ofOrdering _)

theorem sendDate_ensures (d : Date) (message : Message) (arguments : List Value) :
    Action.Ensures Q (sendDate d message arguments) Q := by
  unfold sendDate
  dsimp only
  repeat' split
  all_goals first
    | exact .throw _
    | exact ensures_plain plain rfl
    | exact ensures_plain plain (handle?_ofOrdering _)
    | exact .andThen (.ofExcept fun _ _ => trivial) fun _ => ensures_plain plain rfl

theorem sendDateTime_ensures (t : DateTime) (message : Message) (arguments : List Value) :
    Action.Ensures Q (sendDateTime t message arguments) Q := by
  unfold sendDateTime
  dsimp only
  repeat' split
  all_goals first
    | exact .throw _
    | exact ensures_plain plain rfl
    | exact ensures_plain plain (handle?_ofOrdering _)
    | exact .andThen (.ofExcept fun _ _ => trivial) fun _ => ensures_plain plain rfl

theorem writeItem_all {items : Array Value} {position : Nat} {value : Value}
    (old : ∀ item ∈ items, Q item) (new : Q value) : ∀ item ∈ writeItem items position value, Q item := by
  intro item member
  unfold writeItem at member
  split at member
  · rcases Array.mem_or_eq_of_mem_setIfInBounds member with stored | rfl
    · exact old item stored
    · exact new
  · rcases Array.mem_push.mp member with stored | rfl
    · rcases Array.mem_append.mp stored with stored | filled
      · exact old item stored
      · exact (Array.mem_replicate.mp filled).2 ▸ plain _ rfl
    · exact new

theorem sendArray_ensures (place : Nat) (message : Message) {arguments : List Value}
    (all : ∀ value ∈ arguments, Q value) :
    Action.Ensures Q (sendArray place message arguments) Q := by
  unfold sendArray
  split
  case h_1 =>
    refine .bind .get fun memory stored => ?_
    split
    · exact .pure (stored.item (plain _ rfl) place _)
    · exact ensures_plain plain rfl
  -- Only `set` stores, and what it stores and answers is its second argument.
  case h_2 =>
    refine .bind .get fun memory stored => ?_
    dsimp only
    split
    · split
      · refine .andThen (fun memory stored => ?_) fun _ =>
          .pure (argument_of_all plain all 1)
        exact ⟨stored.modifyArray fun items old => writeItem_all plain old (argument_of_all plain all 1),
          fun _ _ => trivial⟩
      · exact .throw _
    · exact .throw _
  case h_3 => exact .bind .get fun _ _ => ensures_plain plain rfl
  case h_4 => exact .bind .get fun _ _ => ensures_plain plain rfl
  case h_5 => exact .throw _

theorem sendObject_ensures (place : Nat) (message : Message) {arguments : List Value}
    (all : ∀ value ∈ arguments, Q value) :
    Action.Ensures Q (sendObject place message arguments) Q := by
  unfold sendObject
  refine .bind .get fun memory stored => ?_
  dsimp only
  split
  -- `get` answers what was in memory, `set` with its argument, the others with plain values.
  case h_1 => exact .pure (stored.member (plain _ rfl) place _)
  case h_2 =>
    split
    · exact .throw _
    · refine .andThen (fun memory stored => ?_) fun _ => .pure (argument_of_all plain all 1)
      exact ⟨stored.modifyObject fun members old => Fields.put_all old (argument_of_all plain all 1),
        fun _ _ => trivial⟩
  all_goals first | exact .throw _ | exact ensures_plain plain rfl

theorem sendView_ensures (view : View) (message : Message) {arguments : List Value}
    (all : ∀ value ∈ arguments, Q value) :
    Action.Ensures Q (sendView view message arguments) Q := by
  unfold sendView
  refine .bind .get fun memory stored => ?_
  dsimp only
  split
  case h_1 => exact .lift fun _ => View.get_all plain view _
  case h_2 => exact .lift fun _ kept => View.set_all plain view _ kept (argument_of_all plain all 1)
  all_goals first | exact .throw _ | exact ensures_plain plain rfl

/-- What a value answers is one of the arguments, was in memory, or names no scope. -/
theorem send_ensures (receiver : Value) (message : Message) {arguments : List Value}
    (all : ∀ value ∈ arguments, Q value) :
    Action.Ensures Q (receiver.send message arguments) Q := by
  unfold send
  split
  · exact ensures_plain plain rfl
  · cases receiver with
    | empty => exact ensures_plain plain (by split <;> rfl)
    | number x => exact sendNumber_ensures plain x message arguments
    | text s => exact sendText_ensures plain s message arguments
    | bool b => exact sendBool_ensures plain b message arguments
    | array place => exact sendArray_ensures plain place message all
    | object place => exact sendObject_ensures plain place message all
    | date d => exact sendDate_ensures plain d message arguments
    | dateTime t => exact sendDateTime_ensures plain t message arguments
    | data view => exact sendView_ensures plain view message all
    | closure c => exact .throw _
    | scope id => exact .throw _

end Value

theorem rangeOf_numbers {first last : Value} {items : Array Value} (made : rangeOf first last = .ok items) :
    ∀ value ∈ items, ∃ x, value = .number x := by
  unfold rangeOf at made
  split at made
  case h_2 => cases made
  case h_1 =>
    split at made
    · cases made
    · split at made
      · cases made
        exact fun _ member => by simp at member
      · dsimp only at made
        split at made
        · cases made
        · cases made
          intro value member
          obtain ⟨step, rfl⟩ := Array.mem_ofFn.mp member
          exact ⟨_, rfl⟩

theorem rangeOf_plain {first last : Value} {items : Array Value} (made : rangeOf first last = .ok items) :
    ∀ value ∈ items, value.handle? = none := by
  intro value member
  obtain ⟨x, rfl⟩ := rangeOf_numbers made value member
  rfl

section Libraries

variable {Q : Value → Prop} (plain : ∀ value : Value, value.handle? = none → Q value)

mutual

theorem Given.make_ensures (plain : ∀ value : Value, value.handle? = none → Q value) (given : Given) :
    Action.Ensures Q given.make Q := by
  cases given with
  | empty | bool | number | text => exact Value.ensures_plain plain rfl
  | array items =>
    exact .bind (Given.makeItems_ensures plain items) fun values made =>
      Action.newArray_ensures plain fun value member => made value (by simpa using member)
  | object members =>
    exact .bind (Given.makeMembers_ensures plain members) fun values made =>
      Action.newObject_ensures plain (Fields.ofList_all made)
  | date | dateTime =>
    exact .andThen (.ofExcept fun _ _ => trivial) fun _ => Value.ensures_plain plain rfl
  | native document =>
    refine .andThen (fun memory stored => ?_) fun view => .lift fun _ => View.project_all plain view
    exact ⟨⟨stored.items, stored.members⟩, fun _ _ => trivial⟩

theorem Given.makeItems_ensures (plain : ∀ value : Value, value.handle? = none → Q value)
    (items : List Given) :
    Action.Ensures Q (Given.makeItems items) fun values => ∀ value ∈ values, Q value := by
  cases items with
  | nil => exact .pure (List.forall_mem_nil _)
  | cons item rest =>
    refine .bind (Given.make_ensures plain item) fun value made => ?_
    refine .bind (Given.makeItems_ensures plain rest) fun values others => .pure ?_
    simpa using ⟨made, others⟩

theorem Given.makeMembers_ensures (plain : ∀ value : Value, value.handle? = none → Q value)
    (members : List (String × Given)) :
    Action.Ensures Q (Given.makeMembers members) fun pairs => ∀ pair ∈ pairs, Q pair.2 := by
  cases members with
  | nil => exact .pure (List.forall_mem_nil _)
  | cons pair rest =>
    refine .bind (Given.make_ensures plain pair.2) fun value made => ?_
    refine .bind (Given.makeMembers_ensures plain rest) fun values others => .pure ?_
    intro other member
    rcases List.mem_cons.mp member with rfl | old
    · exact made
    · exact others other old

end

include plain

theorem Standard.extreme_ensures (replaces : Float → Bool) {best : Value} {items : List Value}
    (good : Q best) (all : ∀ value ∈ items, Q value) :
    Action.Ensures Q (Standard.extreme replaces best items) Q := by
  induction items generalizing best with
  | nil => exact .pure good
  | cons next rest ih =>
    have nextGood := all next List.mem_cons_self
    have restGood := fun value (member : value ∈ rest) => all value (List.mem_cons_of_mem _ member)
    unfold Standard.extreme
    refine .andThen ((Value.send_ensures plain best .compare (by simpa using nextGood)).imp
      fun _ _ => trivial) fun order => ?_
    split
    · refine ih ?_ restGood
      split <;> assumption
    · exact ih good restGood

theorem Standard.addAll_ensures {total : Value} {items : List Value}
    (good : Q total) (all : ∀ value ∈ items, Q value) :
    Action.Ensures Q (Standard.addAll total items) Q := by
  induction items generalizing total with
  | nil => exact .pure good
  | cons next rest ih =>
    unfold Standard.addAll
    refine .bind (Value.send_ensures plain total .add (by simpa using all next List.mem_cons_self)) ?_
    exact fun value made => ih made fun other member => all other (List.mem_cons_of_mem _ member)

theorem Standard.onItems_ensures {f : Value → List Value → Action Value} {items : List Value}
    (all : ∀ value ∈ items, Q value)
    (each : ∀ head rest, Q head → (∀ value ∈ rest, Q value) → Action.Ensures Q (f head rest) Q) :
    Action.Ensures Q (Standard.onItems f items) Q := by
  cases items with
  | nil => exact Value.ensures_plain plain rfl
  | cons head rest =>
    exact each head rest (all head List.mem_cons_self) fun value member =>
      all value (List.mem_cons_of_mem _ member)

omit plain in
theorem Standard.items_all {memory : Memory} (stored : memory.All Q) (value : Value) :
    ∀ item ∈ Standard.items memory value, Q item := by
  unfold Standard.items
  split
  · exact fun item member => stored.items _ item (by simpa using member)
  · exact List.forall_mem_nil _

theorem Standard.call_ensures (clock : Clock) (function : Standard) (arguments : List Value) :
    Action.Ensures Q (function.call clock arguments) Q := by
  unfold Standard.call
  refine .bind .get fun memory stored => ?_
  have all := Standard.items_all stored (Value.argument arguments 0)
  dsimp only
  split
  -- The conversions and the count make plain values.
  case h_1 => exact .pure (plain _ (by unfold Standard.toString; dsimp only; split <;> rfl))
  case h_2 => exact .pure (plain _ (by unfold Standard.toNumber; repeat' split <;> try rfl))
  case h_3 => exact .pure (plain _ (by unfold Standard.toBool; split <;> rfl))
  case h_4 => exact Value.ensures_plain plain rfl
  -- The extremes and the sum send messages to items.
  case h_5 | h_6 =>
    exact Standard.onItems_ensures plain all fun _ _ good rest => Standard.extreme_ensures plain _ good rest
  case h_7 =>
    exact Standard.onItems_ensures plain all fun _ _ good rest => Standard.addAll_ensures plain good rest
  -- The first and the last item were in memory.
  case h_8 =>
    refine .pure ?_
    cases found : (Standard.items memory (Value.argument arguments 0)).head? with
    | none => exact plain _ rfl
    | some item => exact all item (List.mem_of_mem_head? found)
  case h_9 =>
    refine .pure ?_
    cases found : (Standard.items memory (Value.argument arguments 0)).getLast? with
    | none => exact plain _ rfl
    | some item => exact all item (List.mem_of_getLast? found)
  -- A concatenation starts with a text.
  case h_10 =>
    split
    · exact Value.ensures_plain plain rfl
    · rename_i head rest items
      refine Standard.addAll_ensures plain (plain _ ?_) fun value member => all value ?_
      · unfold Standard.toString; dsimp only; split <;> rfl
      · rw [items]; exact List.mem_cons_of_mem _ member
  all_goals exact .andThen (.ofExcept fun _ _ => trivial) fun _ => Value.ensures_plain plain rfl

theorem Library.answer_ensures (clock : Clock) (library : Library) (function : String)
    {arguments : List Value} (all : ∀ value ∈ arguments, Q value) :
    Action.Ensures Q (library.answer clock function arguments) Q := by
  cases library with
  | standard =>
    unfold Library.answer
    dsimp only
    split
    · exact Standard.call_ensures plain clock _ arguments
    · exact Value.ensures_plain plain rfl
  | suspending => exact .pure (Value.argument_of_all plain all 0)
  | table name functions =>
    unfold Library.answer
    dsimp only
    split
    case h_2 => exact .throw _
    case h_1 behaviour found =>
      cases behaviour with
      | answer given => exact given.make_ensures plain
      | argument position => exact .pure (Value.argument_of_all plain all position)
      | arguments =>
        exact Action.newArray_ensures plain fun value member => all value (by simpa using member)
      | now | today =>
        exact .andThen (.ofExcept fun _ _ => trivial) fun _ => Value.ensures_plain plain rfl
      | fail name => exact .throw _

end Libraries

end RuleScript
