import RuleScript.Evaluation.Range
import RuleScript.Proofs.Value.Handles
import RuleScript.Proofs.Value.Places

/-! Actions that write nothing.

Of all messages only `set` writes where something is. The others, look-ups in documents and all functions of libraries
leave every array, object and document as it was, and put what they make at new places.
-/

set_option autoImplicit false

namespace RuleScript

/-- An action that keeps everything in memory as it is, also if it fails. -/
def Action.Grows {α : Type} (act : Action α) : Prop :=
  ∀ memory : Memory, memory.Grows (act memory).2

namespace Action

variable {α β : Type}

namespace Grows

theorem pure (result : α) : Grows (pure result) :=
  fun memory => .refl memory

theorem throw (failure : Failure) : Grows (throw failure : Action α) :=
  fun memory => .refl memory

theorem bind {act : Action α} {next : α → Action β} (first : act.Grows) (rest : ∀ result, (next result).Grows) :
    Grows (act >>= next) := by
  intro memory
  have grown := first memory
  rw [bind_apply]
  cases (act memory).1 with
  | error failure => exact grown
  | ok result => exact grown.trans (rest result _)

theorem get : Grows (MonadState.get : Action Memory) :=
  fun memory => .refl memory

theorem lift {act : StateM Memory α} (runs : ∀ memory : Memory, memory.Grows (act memory).2) :
    Grows (ExceptT.lift act) :=
  runs

theorem ofExcept (result : Except Failure α) : Grows (.ofExcept result) := by
  cases result with
  | error failure => exact throw failure
  | ok value => exact pure value

end Grows

theorem newArray_grows (items : Array Value) : (newArray items).Grows :=
  fun memory => (memory.puts_addArray items).grows Memory.cell?_new_array

theorem newObject_grows (members : Fields Value) : (newObject members).Grows :=
  fun memory => (memory.puts_addObject members).grows Memory.cell?_new_object

end Action

def Action.Keeps {α : Type} (act : Action α) : Prop :=
  ∀ memory : Memory, (act memory).2 = memory

namespace Action.Keeps

variable {α β : Type} {memory : Memory}

theorem pure (result : α) : Keeps (pure result) :=
  fun _ => rfl

theorem throw (failure : Failure) : Keeps (throw failure : Action α) :=
  fun _ => rfl

theorem bind {act : Action α} {next : α → Action β} (first : act.Keeps) (rest : ∀ result, (next result).Keeps) :
    Keeps (act >>= next) := by
  intro memory
  rw [bind_apply]
  cases (act memory).1 with
  | error failure => exact first memory
  | ok result => exact (rest result _).trans (first memory)

theorem get : Keeps (MonadState.get : Action Memory) :=
  fun _ => rfl

theorem ofExcept (result : Except Failure α) : Keeps (.ofExcept result) := by
  cases result with
  | error failure => exact throw failure
  | ok value => exact pure value

end Action.Keeps

/-- Memory with new arrays behind those that were there, and nothing else new or changed. -/
structure Memory.GainsArrays (memory later : Memory) : Prop where
  arrays : ∃ new, later.arrays = memory.arrays ++ new
  objects : later.objects = memory.objects
  documents : later.documents = memory.documents

namespace Memory.GainsArrays

variable {memory later last : Memory}

theorem refl (memory : Memory) : memory.GainsArrays memory :=
  ⟨⟨#[], Array.append_empty.symm⟩, rfl, rfl⟩

theorem trans (first : memory.GainsArrays later) (second : later.GainsArrays last) : memory.GainsArrays last := by
  obtain ⟨new, arrays⟩ := first.arrays
  obtain ⟨newer, more⟩ := second.arrays
  refine ⟨⟨new ++ newer, ?_⟩, second.objects.trans first.objects, second.documents.trans first.documents⟩
  rw [more, arrays, Array.append_assoc]

theorem addArray (memory : Memory) (items : Array Value) : memory.GainsArrays (memory.addArray items).2 :=
  ⟨⟨#[items], Array.push_eq_append⟩, rfl, rfl⟩

theorem grows (gains : memory.GainsArrays later) : memory.Grows later := by
  obtain ⟨new, arrays⟩ := gains.arrays
  intro place cell holds
  cases place with
  | array index =>
    have inside := array_lt_of_cell holds
    rwa [cell?, arrays, Array.getElem?_append_left inside]
  | object index => rwa [cell?, gains.objects]
  | document index => rwa [cell?, gains.documents]

theorem size_le (gains : memory.GainsArrays later) : memory.arrays.size ≤ later.arrays.size := by
  obtain ⟨new, arrays⟩ := gains.arrays
  rw [arrays, Array.size_append]
  exact Nat.le_add_right _ _

end Memory.GainsArrays

mutual

theorem Json.project_gains (view : View) (node : Json) (memory : Memory) :
    memory.GainsArrays (node.project view memory).2 := by
  cases node with
  | null | bool | integer | float | string | object => exact .refl memory
  | array items => exact (Json.projectItems_gains view 0 items memory).trans (.addArray _ _)

theorem Json.projectItems_gains (view : View) (position : Nat) (items : List Json) (memory : Memory) :
    memory.GainsArrays (Json.projectItems view position items memory).2 := by
  cases items with
  | nil => exact .refl memory
  | cons item rest =>
    exact (Json.project_gains (view.child (.index position)) item memory).trans
      (Json.projectItems_gains view (position + 1) rest _)

end

namespace View

theorem project_gains (view : View) (memory : Memory) : memory.GainsArrays (view.project memory).2 := by
  rw [project_apply]
  split
  · exact Json.project_gains view _ memory
  · exact .refl memory

theorem get_gains (view : View) (name : String) (memory : Memory) : memory.GainsArrays (view.get name memory).2 := by
  rw [get_apply]
  split
  · exact project_gains _ memory
  · exact .refl memory

end View

namespace Value

-- Numbers, texts, truth values and dates make no use of memory but to read it.
theorem sendNumber_keeps (x : Float) (message : Message) (arguments : List Value) :
    (sendNumber x message arguments).Keeps := by
  unfold sendNumber
  dsimp only
  repeat' split
  all_goals first
    | exact .pure _
    | exact .throw _

theorem sendText_keeps (s : String) (message : Message) (arguments : List Value) :
    (sendText s message arguments).Keeps := by
  unfold sendText
  refine .bind .get fun memory => ?_
  dsimp only
  split
  all_goals first
    | exact .pure _
    | exact .throw _

theorem sendBool_keeps (b : Bool) (message : Message) (arguments : List Value) :
    (sendBool b message arguments).Keeps := by
  unfold sendBool
  refine .bind .get fun memory => ?_
  dsimp only
  repeat' split
  all_goals first
    | exact .pure _
    | exact .throw _

theorem sendDate_keeps (d : Date) (message : Message) (arguments : List Value) :
    (sendDate d message arguments).Keeps := by
  unfold sendDate
  dsimp only
  repeat' split
  all_goals first
    | with_reducible exact .pure _
    | with_reducible exact .bind (.ofExcept _) fun _ => .pure _
    | exact .throw _

theorem sendDateTime_keeps (t : DateTime) (message : Message) (arguments : List Value) :
    (sendDateTime t message arguments).Keeps := by
  unfold sendDateTime
  dsimp only
  repeat' split
  all_goals first
    | with_reducible exact .pure _
    | with_reducible exact .bind (.ofExcept _) fun _ => .pure _
    | exact .throw _

variable {message : Message} (reads : message ≠ .set)

include reads

theorem sendArray_keeps (place : Nat) (arguments : List Value) : (sendArray place message arguments).Keeps := by
  unfold sendArray
  split
  case h_1 =>
    refine .bind .get fun memory => ?_
    split <;> exact .pure _
  case h_2 => exact absurd rfl reads
  case h_3 | h_4 => exact .bind .get fun _ => .pure _
  case h_5 => exact .throw _

theorem sendObject_keeps (place : Nat) (arguments : List Value) : (sendObject place message arguments).Keeps := by
  unfold sendObject
  refine .bind .get fun memory => ?_
  dsimp only
  split
  case h_2 => exact absurd rfl reads
  all_goals first
    | exact .pure _
    | exact .throw _

theorem sendView_keeps (looks : message ≠ .get) (view : View) (arguments : List Value) :
    (sendView view message arguments).Keeps := by
  unfold sendView
  refine .bind .get fun memory => ?_
  dsimp only
  split
  case h_1 => exact absurd rfl looks
  case h_2 => exact absurd rfl reads
  all_goals first
    | exact .pure _
    | exact .throw _

/-- A message that writes nothing leaves memory as it is, but a look-up in a document may need new arrays. -/
theorem send_keeps (receiver : Value) (looks : ∀ view, receiver = .data view → message ≠ .get)
    (arguments : List Value) : (receiver.send message arguments).Keeps := by
  unfold send
  split
  · exact .pure _
  · cases receiver with
    | empty => exact .pure _
    | number x => exact sendNumber_keeps x message arguments
    | text s => exact sendText_keeps s message arguments
    | bool b => exact sendBool_keeps b message arguments
    | array place => exact sendArray_keeps reads place arguments
    | object place => exact sendObject_keeps reads place arguments
    | date d => exact sendDate_keeps d message arguments
    | dateTime t => exact sendDateTime_keeps t message arguments
    | data view => exact sendView_keeps reads (looks view rfl) view arguments
    | closure | scope => exact .throw _

/-- Every message but `set` leaves what is in memory. -/
theorem send_gains (receiver : Value) (arguments : List Value) (memory : Memory) :
    memory.GainsArrays (receiver.send message arguments memory).2 := by
  by_cases looks : ∃ view, receiver = .data view ∧ message = .get
  · obtain ⟨view, rfl, rfl⟩ := looks
    exact view.get_gains _ memory
  · have keeps := send_keeps reads receiver (fun view is same => looks ⟨view, is, same⟩) arguments memory
    rw [keeps]
    exact .refl memory

theorem send_grows (receiver : Value) (arguments : List Value) : (receiver.send message arguments).Grows :=
  fun memory => (send_gains reads receiver arguments memory).grows

end Value

mutual

theorem Given.make_grows (given : Given) : given.make.Grows := by
  cases given with
  | empty | bool | number | text => exact .pure _
  | array items => exact .bind (Given.makeItems_grows items) fun _ => Action.newArray_grows _
  | object members => exact .bind (Given.makeMembers_grows members) fun _ => Action.newObject_grows _
  | date | dateTime => exact .bind (.ofExcept _) fun _ => .pure _
  | native document =>
    refine .bind (fun memory => ?_) fun view => .lift fun memory => (view.project_gains memory).grows
    exact (memory.puts_addDocument document).grows Memory.cell?_new_document

theorem Given.makeItems_grows (items : List Given) : (Given.makeItems items).Grows := by
  cases items with
  | nil => exact .pure _
  | cons item rest =>
    exact .bind (Given.make_grows item) fun _ => .bind (Given.makeItems_grows rest) fun _ => .pure _

theorem Given.makeMembers_grows (members : List (String × Given)) : (Given.makeMembers members).Grows := by
  cases members with
  | nil => exact .pure _
  | cons pair rest =>
    exact .bind (Given.make_grows pair.2) fun _ => .bind (Given.makeMembers_grows rest) fun _ => .pure _

end

namespace Standard

theorem extreme_grows (replaces : Float → Bool) (best : Value) (items : List Value) :
    (extreme replaces best items).Grows := by
  induction items generalizing best with
  | nil => exact .pure _
  | cons next rest ih =>
    unfold extreme
    refine .bind (Value.send_grows (by decide) best [next]) fun order => ?_
    split <;> exact ih _

theorem addAll_grows (total : Value) (items : List Value) : (addAll total items).Grows := by
  induction items generalizing total with
  | nil => exact .pure _
  | cons next rest ih => exact .bind (Value.send_grows (by decide) total [next]) ih

theorem onItems_grows {f : Value → List Value → Action Value} (each : ∀ head rest, (f head rest).Grows)
    (items : List Value) : (onItems f items).Grows := by
  cases items with
  | nil => exact .pure _
  | cons head rest => exact each head rest

theorem call_grows (clock : Clock) (function : Standard) (arguments : List Value) :
    (function.call clock arguments).Grows := by
  unfold call
  refine .bind .get fun memory => ?_
  dsimp only
  split
  case h_5 | h_6 => exact onItems_grows (extreme_grows _) _
  case h_7 => exact onItems_grows addAll_grows _
  case h_10 =>
    split
    · exact .pure _
    · exact addAll_grows _ _
  all_goals first
    | with_reducible exact .pure _
    | exact .bind (.ofExcept _) fun _ => .pure _

end Standard

theorem Library.answer_grows (clock : Clock) (library : Library) (function : String) (arguments : List Value) :
    (library.answer clock function arguments).Grows := by
  cases library with
  | standard =>
    unfold Library.answer
    dsimp only
    split
    · exact Standard.call_grows clock _ arguments
    · exact .pure _
  | suspending => exact .pure _
  | table name functions =>
    unfold Library.answer
    dsimp only
    split
    case h_2 => exact .throw _
    case h_1 behaviour _ =>
      cases behaviour with
      | answer given => exact given.make_grows
      | argument => exact .pure _
      | arguments => exact Action.newArray_grows _
      | now | today => exact .bind (.ofExcept _) fun _ => .pure _
      | fail => exact .throw _

end RuleScript
