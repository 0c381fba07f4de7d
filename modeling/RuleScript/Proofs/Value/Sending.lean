import RuleScript.Proofs.Document.Writing
import RuleScript.Proofs.Value.Growing

/-! What a message changes.

Of all messages only `set` changes what is in memory, and only where it is sent: the array, the object, or one key of the
viewed object. A message that fails changes nothing at all. What is read from a document as an array is a copy of its own:
nothing that is done to it reaches the document, and it stays as it was read whatever is done elsewhere, but for the
objects in it, which stay views.
-/

set_option autoImplicit false

namespace RuleScript

def Memory.AgreesBut (memory later : Memory) (place : Place) : Prop :=
  ∀ other, other ≠ place → later.cell? other = memory.cell? other

namespace Memory

variable {memory later : Memory} {place : Place} {index : Nat}

theorem AgreesBut.refl (memory : Memory) (place : Place) : memory.AgreesBut memory place :=
  fun _ _ => rfl

theorem agreesBut_arrays (index : Nat) (f : Array Value → Array Value) :
    memory.AgreesBut { memory with arrays := memory.arrays.modify index f } (.array index) := by
  intro other different
  cases other with
  | array other =>
    have apart : index ≠ other := fun same => different (congrArg Place.array same.symm)
    simp [cell?, Array.getElem?_modify, apart]
  | object | document => rfl

theorem agreesBut_objects (index : Nat) (f : Fields Value → Fields Value) :
    memory.AgreesBut { memory with objects := memory.objects.modify index f } (.object index) := by
  intro other different
  cases other with
  | object other =>
    have apart : index ≠ other := fun same => different (congrArg Place.object same.symm)
    simp [cell?, Array.getElem?_modify, apart]
  | array | document => rfl

theorem agreesBut_documents (index : Nat) (node : Json) :
    memory.AgreesBut { memory with documents := memory.documents.setIfInBounds index node } (.document index) := by
  intro other different
  cases other with
  | document other =>
    have apart : index ≠ other := fun same => different (congrArg Place.document same.symm)
    simp [cell?, apart]
  | array | object => rfl

theorem documents_eq (same : ∀ index, later.cell? (.document index) = memory.cell? (.document index)) :
    later.documents = memory.documents := by
  refine Array.ext_getElem? fun index => Option.map_injective (fun _ _ => Cell.node.inj) (same index)

end Memory

namespace Value

variable {message : Message} {arguments : List Value} {memory later : Memory}

/-- What a `set` may change: the array or the object that it is sent to, or in the viewed document the one key that it
names. -/
def SetsOnly (receiver : Value) (arguments : List Value) (memory later : Memory) : Prop :=
  match receiver with
  | .array place => memory.AgreesBut later (.array place)
  | .object place => memory.AgreesBut later (.object place)
  | .data view => memory.AgreesBut later (.document view.document) ∧ (later = memory ∨
      view.Writes ((argument arguments 0).toText memory) ((argument arguments 1).native memory) memory later)
  | _ => later = memory

theorem sendArray_set (place : Nat) (arguments : List Value) (memory : Memory) :
    (Value.array place).send .set arguments memory =
      (match position? (argument arguments 0) with
      | some position =>
        if position ≤ (memory.items place).size + maxGap then do
          modify fun memory =>
            { memory with arrays := memory.arrays.modify place (writeItem · position (argument arguments 1)) }
          pure (argument arguments 1)
        else mismatch .index .array (argument arguments 0)
      | none => mismatch .index .array (argument arguments 0) : Action Value) memory :=
  rfl

/-- A key that means a position no further than the gap past the end is written. -/
theorem send_set_near {place position : Nat} (means : position? (argument arguments 0) = some position)
    (near : position ≤ (memory.items place).size + maxGap) :
    (Value.array place).send .set arguments memory =
      (.ok (argument arguments 1),
        { memory with arrays := memory.arrays.modify place (writeItem · position (argument arguments 1)) }) := by
  rw [sendArray_set, means]
  exact congrFun (if_pos near) memory

theorem send_set_far {place : Nat} (far : ∀ position, position? (argument arguments 0) = some position →
      (memory.items place).size + maxGap < position) :
    (Value.array place).send .set arguments memory =
      (.error (.typeMismatch .index .array (argument arguments 0).variant), memory) := by
  rw [sendArray_set]
  cases means : position? (argument arguments 0) with
  | none => rfl
  | some position => exact congrFun (if_neg (Nat.not_le.mpr (far position means))) memory

theorem near_or_far (place : Nat) (key : Value) (memory : Memory) :
    (∃ position, position? key = some position ∧ position ≤ (memory.items place).size + maxGap) ∨
      ∀ position, position? key = some position → (memory.items place).size + maxGap < position := by
  by_cases near : ∃ position, position? key = some position ∧ position ≤ (memory.items place).size + maxGap
  · exact .inl near
  · exact .inr fun position means => Nat.not_le.mp fun le => near ⟨position, means, le⟩

/-- A key is written unless it leads back to the object, which is held for the write while the key is read. -/
theorem send_set_object (place : Nat) (arguments : List Value) (memory : Memory) :
    (Value.object place).send .set arguments memory =
      if (argument arguments 0).reads memory place then (.error (.crash .objectInUse), memory)
      else
        (.ok (argument arguments 1),
          { memory with
            objects := memory.objects.modify place
              (Fields.put · ((argument arguments 0).toText memory) (argument arguments 1)) }) := by
  change sendObject place .set arguments memory = _
  unfold sendObject
  change (if _ then _ else _ : Action Value) memory = _
  split <;> rfl

theorem send_set_data (view : View) (arguments : List Value) (memory : Memory) :
    (Value.data view).send .set arguments memory =
      (.ok (view.set ((argument arguments 0).toText memory) (argument arguments 1) memory).1,
        (view.set ((argument arguments 0).toText memory) (argument arguments 1) memory).2) :=
  rfl

end Value

theorem View.agreesBut_set (view : View) (name : String) (value : Value) (memory : Memory) :
    memory.AgreesBut (view.set name value memory).2 (.document view.document) := by
  rw [set_apply]
  split
  · exact Memory.agreesBut_documents _ _
  · exact .refl _ _

namespace Value

variable {message : Message} {memory later : Memory}

theorem send_set_only (receiver : Value) (arguments : List Value) (memory : Memory) :
    receiver.SetsOnly arguments memory (receiver.send .set arguments memory).2 := by
  cases receiver with
  | empty => rfl
  | number x => exact sendNumber_keeps x .set arguments memory
  | text s => exact sendText_keeps s .set arguments memory
  | bool b => exact sendBool_keeps b .set arguments memory
  | date d => exact sendDate_keeps d .set arguments memory
  | dateTime t => exact sendDateTime_keeps t .set arguments memory
  | closure | scope => rfl
  | array place =>
    change memory.AgreesBut _ _
    obtain ⟨position, means, near⟩ | far := near_or_far place (argument arguments 0) memory
    · rw [send_set_near means near]
      exact Memory.agreesBut_arrays _ _
    · rw [send_set_far far]
      exact .refl _ _
  | object place =>
    change memory.AgreesBut _ _
    rw [send_set_object]
    split
    · exact .refl _ _
    · exact Memory.agreesBut_objects _ _
  | data view =>
    refine ⟨view.agreesBut_set _ _ memory, ?_⟩
    rw [send_set_data]
    by_cases object : ∃ members, view.node? memory = some (.object members)
    · obtain ⟨members, found⟩ := object
      obtain ⟨later, answered, writes⟩ := View.set_of_object _ (argument arguments 1) found
      rw [answered]
      exact .inr writes
    · rw [View.set_of_no_object (not_exists.mp object)]
      exact .inl rfl

theorem send_failed {receiver : Value} {arguments : List Value} {failure : Failure}
    (failed : (receiver.send message arguments memory).1 = .error failure) :
    (receiver.send message arguments memory).2 = memory := by
  by_cases set : message = .set
  · subst set
    have only := send_set_only receiver arguments memory
    cases receiver with
    | array place =>
      obtain ⟨position, means, near⟩ | far := near_or_far place (argument arguments 0) memory
      · rw [send_set_near means near] at failed
        cases failed
      · rw [send_set_far far]
    | object place =>
      rw [send_set_object] at failed ⊢
      split at failed
      · rw [if_pos ‹_›]
      · cases failed
    | data => cases failed
    | _ => exact only
  · refine send_keeps set receiver (fun view is looks => ?_) arguments memory
    subst is looks
    cases failed

end Value

structure Sent where
  receiver : Value
  message : Message
  arguments : List Value

namespace Sent

def after (sent : Sent) (memory : Memory) : Memory :=
  (sent.receiver.send sent.message sent.arguments memory).2

def Sets (sent : Sent) (place : Place) : Prop :=
  sent.message = .set ∧
    match sent.receiver, place with
    | .array index, .array other => index = other
    | .object index, .object other => index = other
    | .data view, .document other => view.document = other
    | _, _ => False

/-- A place that a message does not write keeps what it holds. -/
theorem after_cell {sent : Sent} {place : Place} {cell : Cell} {memory : Memory} (other : ¬ sent.Sets place)
    (holds : memory.cell? place = some cell) : (sent.after memory).cell? place = some cell := by
  obtain ⟨receiver, message, arguments⟩ := sent
  by_cases set : message = .set
  · subst set
    have only := Value.send_set_only receiver arguments memory
    have apart := not_and.mp other rfl
    cases receiver with
    | array index => exact (only place fun same => apart (by subst same; rfl)).trans holds
    | object index => exact (only place fun same => apart (by subst same; rfl)).trans holds
    | data view => exact (only.1 place fun same => apart (by subst same; rfl)).trans holds
    | _ => exact (congrArg (Memory.cell? · place) only).trans holds
  · exact (Value.send_gains set receiver arguments memory).grows place cell holds

theorem after_documents {sent : Sent} {memory : Memory} (other : ∀ index, ¬ sent.Sets (.document index)) :
    (sent.after memory).documents = memory.documents := by
  obtain ⟨receiver, message, arguments⟩ := sent
  by_cases set : message = .set
  · subst set
    have only := Value.send_set_only receiver arguments memory
    cases receiver with
    | array index => exact Memory.documents_eq fun index => only (.document index) nofun
    | object index => exact Memory.documents_eq fun index => only (.document index) nofun
    | data view => exact absurd ⟨rfl, rfl⟩ (other view.document)
    | _ => exact congrArg Memory.documents only
  · exact (Value.send_gains set receiver arguments memory).documents

end Sent

namespace Memory

variable {memory : Memory} {messages : List Sent}

def afterAll (memory : Memory) (messages : List Sent) : Memory :=
  messages.foldl (fun memory sent => sent.after memory) memory

theorem afterAll_cell {place : Place} {cell : Cell} (others : ∀ sent ∈ messages, ¬ sent.Sets place)
    (holds : memory.cell? place = some cell) : (memory.afterAll messages).cell? place = some cell := by
  induction messages generalizing memory with
  | nil => exact holds
  | cons sent rest ih =>
    obtain ⟨first, others⟩ := List.forall_mem_cons.mp others
    exact ih others (sent.after_cell first holds)

theorem afterAll_documents (others : ∀ sent ∈ messages, ∀ index, ¬ sent.Sets (.document index)) :
    (memory.afterAll messages).documents = memory.documents := by
  induction messages generalizing memory with
  | nil => rfl
  | cons sent rest ih =>
    obtain ⟨first, others⟩ := List.forall_mem_cons.mp others
    exact (ih others).trans (sent.after_documents first)

end Memory

/-- A value that is a copy of a node at a view: the arrays are `made` for it, and objects are viewed in place. -/
inductive Copies (memory : Memory) (made : Nat → Prop) : View → Json → Value → Prop where
  | null (view : View) : Copies memory made view .null .empty
  | bool (view : View) (value : Bool) : Copies memory made view (.bool value) (.bool value)
  | integer (view : View) (n : Int) : Copies memory made view (.integer n) (.number (Float.ofInt n))
  | float (view : View) (x : Float) : Copies memory made view (.float x) (.number x)
  | emptyText (view : View) : Copies memory made view (.string "") .empty
  | text (view : View) {text : String} (filled : text ≠ "") : Copies memory made view (.string text) (.text text)
  | object (view : View) (members : List (String × Json)) : Copies memory made view (.object members) (.data view)
  | array {view : View} {items : List Json} {place : Nat} {values : List Value} (new : made place)
      (holds : memory.cell? (.array place) = some (.items values.toArray)) (size : values.length = items.length)
      (each : ∀ position item value, items[position]? = some item → values[position]? = some value →
        Copies memory made (view.child (.index position)) item value) :
      Copies memory made view (.array items) (.array place)

def Memory.Gained (memory later : Memory) (place : Nat) : Prop :=
  memory.arrays.size ≤ place ∧ place < later.arrays.size

section Copies

variable {memory later : Memory} {made wider : Nat → Prop} {view : View} {node : Json} {value : Value}

theorem Copies.mono (copies : Copies memory made view node value) (more : ∀ place, made place → wider place)
    (kept : ∀ place cell, made place → memory.cell? (.array place) = some cell →
      later.cell? (.array place) = some cell) : Copies later wider view node value := by
  induction copies with
  | null => exact .null _
  | bool _ value => exact .bool _ value
  | integer _ n => exact .integer _ n
  | float _ x => exact .float _ x
  | emptyText => exact .emptyText _
  | text _ filled => exact .text _ filled
  | object _ members => exact .object _ members
  | array new holds size _ ih => exact .array (more _ new) (kept _ _ new holds) size ih

theorem Memory.Gained.trans {memory later last : Memory} {place : Nat} (first : memory.GainsArrays later)
    (gained : later.Gained last place) : memory.Gained last place :=
  ⟨first.size_le.trans gained.1, gained.2⟩

theorem Memory.Gained.mono {memory later last : Memory} {place : Nat} (gained : memory.Gained later place)
    (more : later.GainsArrays last) : memory.Gained last place :=
  ⟨gained.1, gained.2.trans_le more.size_le⟩

mutual

theorem Json.project_copies (view : View) (node : Json) (memory : Memory) :
    Copies (node.project view memory).2 (memory.Gained (node.project view memory).2) view node
      (node.project view memory).1 := by
  cases node with
  | null => exact .null view
  | bool value => exact .bool view value
  | integer n => exact .integer view n
  | float x => exact .float view x
  | object members => exact .object view members
  | string text =>
    change Copies memory _ view _ (if text.isEmpty then .empty else .text text)
    by_cases empty : text = ""
    · subst empty
      exact .emptyText view
    · rw [if_neg (by simpa using empty)]
      exact .text view empty
  | array items =>
    have gains := Json.projectItems_gains view 0 items memory
    obtain ⟨size, each⟩ := Json.projectItems_copies view 0 items memory
    generalize made : Json.projectItems view 0 items memory = read at gains size each
    obtain ⟨values, later⟩ := read
    have project : (Json.array items).project view memory = later.addArray values.toArray :=
      congrArg (fun read : List Value × Memory => read.2.addArray read.1.toArray) made
    rw [project]
    -- The array itself is the last one made, behind those of its items.
    have last := Memory.GainsArrays.addArray later values.toArray
    refine .array ⟨gains.size_le, ?_⟩ ?_ size fun position item value listed there => ?_
    · simp [Memory.addArray]
    · rw [later.puts_addArray values.toArray, if_pos rfl]
    · have copies := each position item value listed there
      rw [Nat.zero_add] at copies
      exact copies.mono (fun _ gained => gained.mono last) fun _ cell _ holds => last.grows _ cell holds

theorem Json.projectItems_copies (view : View) (position : Nat) (items : List Json) (memory : Memory) :
    (Json.projectItems view position items memory).1.length = items.length ∧
      ∀ offset item value, items[offset]? = some item →
        (Json.projectItems view position items memory).1[offset]? = some value →
        Copies (Json.projectItems view position items memory).2
          (memory.Gained (Json.projectItems view position items memory).2)
          (view.child (.index (position + offset))) item value := by
  cases items with
  | nil => exact ⟨rfl, nofun⟩
  | cons item rest =>
    have first := Json.project_gains (view.child (.index position)) item memory
    have head := Json.project_copies (view.child (.index position)) item memory
    obtain ⟨size, each⟩ := Json.projectItems_copies view (position + 1) rest
      (Json.project (view.child (.index position)) item memory).2
    have tail := Json.projectItems_gains view (position + 1) rest
      (Json.project (view.child (.index position)) item memory).2
    refine ⟨congrArg Nat.succ size, fun offset other value listed there => ?_⟩
    cases offset with
    | zero =>
      cases listed
      cases there
      exact head.mono (fun _ gained => gained.mono tail) fun _ cell _ holds => tail.grows _ cell holds
    | succ offset =>
      have copies := each offset other value listed there
      rw [Nat.add_right_comm, Nat.add_assoc] at copies
      exact copies.mono (fun _ gained => gained.trans first) fun _ _ _ holds => holds

end

end Copies

theorem View.project_copies {view : View} {node : Json} {memory : Memory} (found : view.node? memory = some node) :
    Copies (view.project memory).2 (memory.Gained (view.project memory).2) view node (view.project memory).1 := by
  rw [project_apply, found]
  exact Json.project_copies view node memory

theorem View.get_eq_project (view : View) (name : String) (memory : Memory) :
    view.get name memory = (.empty, memory) ∨ ∃ step, view.get name memory = (view.child step).project memory := by
  rw [get_apply]
  split
  · exact .inr ⟨_, rfl⟩
  · exact .inl rfl

/-- Messages write only where they are sent. No message but `set` changes an array, an object or a document, a `set` changes
at most the array or object that it is sent to or the one key of the viewed object, and a message that fails changes
nothing.

What is read from a document is a copy of the node, in arrays that are new. Whatever messages are sent, none of which is a
`set` to a view, the documents stay as they are; whatever messages are sent, none of which is a `set` to these arrays,
the copy stays one of the node that was read, all but the objects in it, which are views. -/
theorem Value.send_writes_receiver_only :
    (∀ (receiver : Value) (message : Message) (arguments : List Value) (memory : Memory),
      (message ≠ .set → memory.GainsArrays (receiver.send message arguments memory).2) ∧
      (message = .set → receiver.SetsOnly arguments memory (receiver.send message arguments memory).2) ∧
      ∀ failure, (receiver.send message arguments memory).1 = .error failure →
        (receiver.send message arguments memory).2 = memory) ∧
    ∀ (view : View) (memory : Memory),
      (∀ name, view.get name memory = (.empty, memory) ∨
        ∃ step, view.get name memory = (view.child step).project memory) ∧
      ∀ value read, view.project memory = (value, read) →
        memory.GainsArrays read ∧
        ∀ messages : List Sent,
          ((∀ sent ∈ messages, ∀ index, ¬ sent.Sets (.document index)) →
            (read.afterAll messages).documents = memory.documents) ∧
          ∀ node, view.node? memory = some node →
            (∀ sent ∈ messages, ∀ place, memory.Gained read place → ¬ sent.Sets (.array place)) →
            Copies (read.afterAll messages) (memory.Gained read) view node value := by
  refine ⟨fun receiver message arguments memory => ⟨fun reads => send_gains reads receiver arguments memory, ?_,
    fun failure failed => send_failed failed⟩, fun view memory => ⟨fun name => view.get_eq_project name memory, ?_⟩⟩
  · rintro rfl
    exact send_set_only receiver arguments memory
  · intro value read projected
    have gains := view.project_gains memory
    rw [projected] at gains
    refine ⟨gains, fun messages => ⟨fun others => ?_, fun node found others => ?_⟩⟩
    · exact (Memory.afterAll_documents others).trans gains.documents
    · -- The copy is made of new arrays, and the messages write none of these.
      have copies := View.project_copies found
      rw [projected] at copies
      refine copies.mono (fun _ => id) fun place cell new holds => ?_
      exact Memory.afterAll_cell (fun sent member => others sent member place new) holds

/-- A list is read. A write to what was read leaves the document, a write to the document leaves what was read, and a key
that is no position changes nothing. -/
theorem Value.send_writes_receiver_only_detached :
    let list : Json := .array [.string "x", .object [("k", .null)]]
    let memory : Memory := .ofDocument (.object [("list", list)])
    let read : Memory := { memory with arrays := #[#[.text "x", .data ⟨0, [.key "list", .index 1]⟩]] }
    let toCopy : Sent := ⟨.array 0, .set, [.text "0", .empty]⟩
    let toDocument : Sent := ⟨.data ⟨0, []⟩, .set, [.text "list", .bool true]⟩
    (View.mk 0 [.key "list"]).project memory = (.array 0, read) ∧
    (read.afterAll [toCopy]).documents = memory.documents ∧
    (read.afterAll [toCopy]).items 0 ≠ read.items 0 ∧
    Copies (read.afterAll [toDocument]) (memory.Gained read) ⟨0, [.key "list"]⟩ list (.array 0) ∧
    (read.afterAll [toDocument]).document 0 = .object [("list", .bool true)] ∧
    ((Value.array 0).send .set [.bool true, .empty] read).2 = read ∧
    memory.GainsArrays ((Value.data ⟨0, []⟩).send .get [.text "list"] memory).2 ∧
    (Value.array 0).SetsOnly [.text "0", .empty] read (toCopy.after read) := by
  intro list memory read toCopy toDocument
  obtain ⟨each, reads⟩ := send_writes_receiver_only
  have projected : (View.mk 0 [.key "list"]).project memory = (.array 0, read) := rfl
  obtain ⟨-, runs⟩ := (reads ⟨0, [.key "list"]⟩ memory).2 _ _ projected
  have noDocument : ∀ sent ∈ [toCopy], ∀ index, ¬ sent.Sets (.document index) := by
    simp [toCopy, Sent.Sets]
  have noArray : ∀ sent ∈ [toDocument], ∀ place, memory.Gained read place → ¬ sent.Sets (.array place) := by
    simp [toDocument, Sent.Sets]
  refine ⟨projected, (runs [toCopy]).1 noDocument, ?_, (runs [toDocument]).2 list rfl noArray, rfl,
    (each _ .set [.bool true, .empty] read).2.2 _ rfl, (each _ .get _ memory).1 nofun,
    (each _ .set [.text "0", .empty] read).2.1 rfl⟩
  have before : read.items 0 = #[.text "x", .data ⟨0, [.key "list", .index 1]⟩] := rfl
  have after : (read.afterAll [toCopy]).items 0 = #[.empty, .data ⟨0, [.key "list", .index 1]⟩] := rfl
  rw [before, after]
  simp

end RuleScript
