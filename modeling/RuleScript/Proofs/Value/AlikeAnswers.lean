import RuleScript.Proofs.Value.Reading

/-! Actions on memories that are alike.

An action that is given alike values in alike memories answers alike, and the memories are alike again: whatever it
makes is new on both sides and paired. What this says of an action follows from what it says of its parts.
-/

set_option autoImplicit false

namespace RuleScript

inductive Results {α β : Type} (post : α → β → Prop) : Except Failure α → Except Failure β → Prop where
  | ok {result other : _} (alike : post result other) : Results post (.ok result) (.ok other)
  | error (failure : Failure) : Results post (.error failure) (.error failure)

/-- From alike memories, two actions lead to alike memories and to results as `post` says. -/
def Action.Alike {α β : Type} (fits : Closure → Prop) (writes : Prop) (paired : Pairing) (act : Action α)
    (other : Action β) (post : Pairing → α → β → Prop) : Prop :=
  ∀ memory copy, memory.Alike fits paired copy →
    ∃ wider, Onward writes paired memory copy wider (act memory).2 (other copy).2 ∧
      (act memory).2.Alike fits wider (other copy).2 ∧ Results (post wider) (act memory).1 (other copy).1

variable {fits : Closure → Prop} {writes : Prop} {paired wider : Pairing}

namespace Action.Alike

variable {α β γ δ : Type} {act : Action α} {other : Action β} {next : α → Action γ} {onward : β → Action δ}
  {post : Pairing → α → β → Prop} {after : Pairing → γ → δ → Prop}

theorem pure {result : α} {like : β} (alike : post paired result like) :
    Action.Alike fits writes paired (pure result) (pure like) post :=
  fun _ _ memories => ⟨paired, .refl .., memories, .ok alike⟩

theorem throw (failure : Failure) :
    Action.Alike fits writes paired (throw failure : Action α) (throw failure : Action β) post :=
  fun _ _ memories => ⟨paired, .refl .., memories, .error failure⟩

theorem bind (first : Action.Alike fits writes paired act other post)
    (rest : ∀ wider, (∀ left right, paired left right → wider left right) → ∀ result like, post wider result like →
      Action.Alike fits writes wider (next result) (onward like) after) :
    Action.Alike fits writes paired (act >>= next) (other >>= onward) after := by
  intro memory copy memories
  obtain ⟨wider, made, alike, results⟩ := first memory copy memories
  rw [Action.bind_apply, Action.bind_apply]
  generalize act memory = ran at made alike results ⊢
  generalize other copy = copied at made alike results ⊢
  obtain ⟨result, later⟩ := ran
  obtain ⟨like, final⟩ := copied
  cases results with
  | error failure => exact ⟨wider, made, alike, .error failure⟩
  | ok same =>
    obtain ⟨widest, again, final, answers⟩ := rest wider made.widens _ _ same _ _ alike
    exact ⟨widest, made.trans again, final, answers⟩

theorem read {next onward : Memory → Action γ} {after : Pairing → γ → γ → Prop}
    (rest : ∀ memory copy, memory.Alike fits paired copy →
      Action.Alike fits writes paired (next memory) (onward copy) after) :
    Action.Alike fits writes paired (do next (← get)) (do onward (← get)) after :=
  fun memory copy memories => rest memory copy memories memory copy memories

theorem lift {act : StateM Memory α} {other : StateM Memory β}
    (runs : ∀ memory copy, memory.Alike fits paired copy →
      ∃ wider, Onward writes paired memory copy wider (act memory).2 (other copy).2 ∧
        (act memory).2.Alike fits wider (other copy).2 ∧ post wider (act memory).1 (other copy).1) :
    Action.Alike fits writes paired (ExceptT.lift act) (ExceptT.lift other) post := by
  intro memory copy memories
  obtain ⟨wider, made, alike, same⟩ := runs memory copy memories
  exact ⟨wider, made, alike, .ok same⟩

theorem ofExcept {result : Except Failure α} {next onward : α → Action γ} {after : Pairing → γ → γ → Prop}
    (rest : ∀ value, Action.Alike fits writes paired (next value) (onward value) after) :
    Action.Alike fits writes paired (do next (← Action.ofExcept result)) (do onward (← Action.ofExcept result))
      after := by
  cases result with
  | error failure => exact throw failure
  | ok value => exact rest value

end Action.Alike

abbrev Action.AnswersAlike (fits : Closure → Prop) (writes : Prop) (paired : Pairing) (act other : Action Value) :
    Prop :=
  act.Alike fits writes paired other (Value.Alike fits)

theorem Action.newArray_alike {items others : Array Value}
    (all : List.Forall₂ (Value.Alike fits paired) items.toList others.toList) :
    AnswersAlike fits writes paired (newArray items) (newArray others) := by
  intro memory copy memories
  obtain ⟨made, alike⟩ := memories.allocate (memory.puts_addArray items) (copy.puts_addArray others)
    Memory.cell?_new_array Memory.cell?_new_array (.items all)
  exact ⟨_, made, alike, .ok (.array (.inr ⟨rfl, rfl⟩))⟩

theorem Action.newObject_alike {members others : Fields Value} (all : MembersAlike fits paired members others) :
    AnswersAlike fits writes paired (newObject members) (newObject others) := by
  intro memory copy memories
  obtain ⟨made, alike⟩ := memories.allocate (memory.puts_addObject members) (copy.puts_addObject others)
    Memory.cell?_new_object Memory.cell?_new_object (.members all)
  exact ⟨_, made, alike, .ok (.object (.inr ⟨rfl, rfl⟩))⟩

namespace MembersAlike

variable {members others : Fields Value}

theorem get? (alike : MembersAlike fits paired members others) (name : String) :
    Option.Rel (Value.Alike fits paired) (Fields.get? members name) (Fields.get? others name) := by
  induction alike with
  | nil => exact .none
  | cons head rest ih =>
    rw [Fields.get?, Fields.get?, head.1]
    split
    · exact .some head.2
    · exact ih

theorem getD (alike : MembersAlike fits paired members others) (name : String) :
    ((Fields.get? members name).getD .empty).Alike fits paired ((Fields.get? others name).getD .empty) := by
  have found := alike.get? name
  generalize Fields.get? members name = left at found ⊢
  generalize Fields.get? others name = right at found ⊢
  cases found with
  | none => exact .empty
  | some same => exact same

theorem contains (alike : MembersAlike fits paired members others) (name : String) :
    Fields.contains members name = Fields.contains others name := by
  rw [Fields.contains_eq_isSome, Fields.contains_eq_isSome]
  have found := alike.get? name
  generalize Fields.get? members name = left at found ⊢
  generalize Fields.get? others name = right at found ⊢
  cases found <;> rfl

theorem put (alike : MembersAlike fits paired members others) (name : String) {value like : Value}
    (same : value.Alike fits paired like) :
    MembersAlike fits paired (Fields.put members name value) (Fields.put others name like) := by
  induction alike with
  | nil => exact .cons ⟨rfl, same⟩ .nil
  | cons head rest ih =>
    rw [Fields.put, Fields.put, head.1]
    split
    · exact .cons ⟨rfl, same⟩ rest
    · exact .cons ⟨rfl, head.2⟩ ih

theorem ofList {pairs twins : List (String × Value)} (alike : MembersAlike fits paired pairs twins) :
    MembersAlike fits paired (Fields.ofList pairs) (Fields.ofList twins) := by
  unfold Fields.ofList
  suffices ∀ start startTwin, MembersAlike fits paired start startTwin →
      MembersAlike fits paired (pairs.foldl (fun fields pair => Fields.put fields pair.1 pair.2) start)
        (twins.foldl (fun fields pair => Fields.put fields pair.1 pair.2) startTwin) from this [] [] .nil
  induction alike with
  | nil => exact fun _ _ same => same
  | @cons pair twin _ _ head rest ih =>
    intro start startTwin same
    rw [List.foldl_cons, List.foldl_cons, head.1]
    exact ih _ _ (same.put twin.1 head.2)

theorem zip {values likes : List Value} (names : List String)
    (all : List.Forall₂ (Value.Alike fits paired) values likes) :
    MembersAlike fits paired (names.zip values) (names.zip likes) := by
  induction all generalizing names with
  | nil => cases names <;> exact .nil
  | cons head _ ih =>
    cases names with
    | nil => exact .nil
    | cons name names => exact .cons ⟨rfl, head⟩ (ih names)

end MembersAlike

section Documents

variable {document twin : Nat}

mutual

theorem Json.project_alike (node : Json) (path : Path) {paired : Pairing} {memory copy : Memory}
    (pair : paired (.document document) (.document twin)) (memories : memory.Alike fits paired copy) :
    ∃ wider, Onward writes paired memory copy wider (node.project ⟨document, path⟩ memory).2
        (node.project ⟨twin, path⟩ copy).2 ∧
      (node.project ⟨document, path⟩ memory).2.Alike fits wider (node.project ⟨twin, path⟩ copy).2 ∧
      (node.project ⟨document, path⟩ memory).1.Alike fits wider (node.project ⟨twin, path⟩ copy).1 := by
  cases node with
  | null => exact ⟨paired, .refl .., memories, .empty⟩
  | bool b => exact ⟨paired, .refl .., memories, .bool b⟩
  | integer n => exact ⟨paired, .refl .., memories, .number _⟩
  | float x => exact ⟨paired, .refl .., memories, .number x⟩
  | string text =>
    refine ⟨paired, .refl .., memories, ?_⟩
    change Value.Alike fits paired (if text.isEmpty then .empty else .text text)
      (if text.isEmpty then .empty else .text text)
    split
    · exact .empty
    · exact .text text
  | array items =>
    obtain ⟨wider, made, alike, values⟩ := Json.projectItems_alike items path 0 pair memories
    obtain ⟨again, final⟩ := alike.allocate
      (Memory.puts_addArray _ (Json.projectItems ⟨document, path⟩ 0 items memory).1.toArray)
      (Memory.puts_addArray _ (Json.projectItems ⟨twin, path⟩ 0 items copy).1.toArray)
      Memory.cell?_new_array Memory.cell?_new_array (.items values)
    exact ⟨_, made.trans again, final, .array (.inr ⟨rfl, rfl⟩)⟩
  | object members => exact ⟨paired, .refl .., memories, .data path pair⟩

theorem Json.projectItems_alike (items : List Json) (path : Path) (position : Nat) {paired : Pairing}
    {memory copy : Memory} (pair : paired (.document document) (.document twin))
    (memories : memory.Alike fits paired copy) :
    ∃ wider, Onward writes paired memory copy wider (Json.projectItems ⟨document, path⟩ position items memory).2
        (Json.projectItems ⟨twin, path⟩ position items copy).2 ∧
      (Json.projectItems ⟨document, path⟩ position items memory).2.Alike fits wider
        (Json.projectItems ⟨twin, path⟩ position items copy).2 ∧
      List.Forall₂ (Value.Alike fits wider) (Json.projectItems ⟨document, path⟩ position items memory).1
        (Json.projectItems ⟨twin, path⟩ position items copy).1 := by
  cases items with
  | nil => exact ⟨paired, .refl .., memories, .nil⟩
  | cons item rest =>
    obtain ⟨wider, made, alike, value⟩ := Json.project_alike item (path ++ [.index position]) pair memories
    obtain ⟨widest, again, final, values⟩ :=
      Json.projectItems_alike rest path (position + 1) (made.widens _ _ pair) alike
    exact ⟨widest, made.trans again, final, .cons (value.mono again.widens) values⟩

end

namespace View

variable {memory copy : Memory} (path : Path)

theorem project_alike (pair : paired (.document document) (.document twin)) (memories : memory.Alike fits paired copy) :
    ∃ wider, Onward writes paired memory copy wider (project ⟨document, path⟩ memory).2 (project ⟨twin, path⟩ copy).2 ∧
      (project ⟨document, path⟩ memory).2.Alike fits wider (project ⟨twin, path⟩ copy).2 ∧
      (project ⟨document, path⟩ memory).1.Alike fits wider (project ⟨twin, path⟩ copy).1 := by
  rw [project_apply, project_apply, node?_alike path memories pair]
  split
  · exact Json.project_alike _ path pair memories
  · exact ⟨paired, .refl .., memories, .empty⟩

theorem get_alike (name : String) (pair : paired (.document document) (.document twin))
    (memories : memory.Alike fits paired copy) :
    ∃ wider, Onward writes paired memory copy wider (get ⟨document, path⟩ name memory).2
        (get ⟨twin, path⟩ name copy).2 ∧
      (get ⟨document, path⟩ name memory).2.Alike fits wider (get ⟨twin, path⟩ name copy).2 ∧
      (get ⟨document, path⟩ name memory).1.Alike fits wider (get ⟨twin, path⟩ name copy).1 := by
  rw [get_apply, get_apply, node?_alike path memories pair]
  split
  · exact project_alike _ pair memories
  · exact ⟨paired, .refl .., memories, .empty⟩

theorem set_alike (allowed : writes) (name : String) {value like : Value} (same : value.Alike fits paired like)
    (pair : paired (.document document) (.document twin)) (memories : memory.Alike fits paired copy) :
    ∃ wider, Onward writes paired memory copy wider (set ⟨document, path⟩ name value memory).2
        (set ⟨twin, path⟩ name like copy).2 ∧
      (set ⟨document, path⟩ name value memory).2.Alike fits wider (set ⟨twin, path⟩ name like copy).2 ∧
      (set ⟨document, path⟩ name value memory).1.Alike fits wider (set ⟨twin, path⟩ name like copy).1 := by
  obtain ⟨_, _, left, right, -⟩ := memories.cells _ _ pair
  rw [set_apply, set_apply]
  dsimp only
  rw [Value.native_alike memories same, memories.document pair]
  split
  case h_1 node _ =>
    obtain ⟨made, alike⟩ := memories.write (Memory.puts_documents node (Memory.document_lt_of_cell left))
      (Memory.puts_documents node (Memory.document_lt_of_cell right)) pair (.node node) allowed
    exact ⟨paired, made, alike, same⟩
  case h_2 => exact ⟨paired, .refl .., memories, .empty⟩

end View

end Documents

namespace Value

variable {arguments others : List Value}

theorem argument_alike (all : List.Forall₂ (Value.Alike fits paired) arguments others) (position : Nat) :
    (argument arguments position).Alike fits paired (argument others position) := by
  unfold argument
  induction all generalizing position with
  | nil => exact .empty
  | cons head rest ih =>
    cases position with
    | zero => exact head
    | succ position => exact ih position

theorem isEmpty_alike {value like : Value} (same : value.Alike fits paired like) : value.isEmpty = like.isEmpty := by
  cases same <;> rfl

theorem ofOrdering_alike (order : Ordering) : (ofOrdering order).Alike fits paired (ofOrdering order) := by
  cases order <;> exact .number _

-- Numbers, texts, truth values and dates look at the variant of an argument, or at its text or truth.
theorem sendNumber_alike (x : Float) (message : Message)
    (all : List.Forall₂ (Value.Alike fits paired) arguments others) :
    Action.AnswersAlike fits writes paired (sendNumber x message arguments) (sendNumber x message others) := by
  have first := argument_alike all 0
  unfold sendNumber
  generalize argument arguments 0 = left at first ⊢
  generalize argument others 0 = right at first ⊢
  cases message with
  | add | sub | mul | div =>
    cases first <;> first | exact .throw _ | exact .pure (.number _) | exact .pure (.text _)
  | compare => cases first <;> first | exact .throw _ | exact .pure (ofOrdering_alike _)
  | neg => exact .pure (.number _)
  | isEmpty => exact .pure (.bool _)
  | _ => exact .throw _

theorem sendText_alike (s : String) (message : Message)
    (all : List.Forall₂ (Value.Alike fits paired) arguments others) :
    Action.AnswersAlike fits writes paired (sendText s message arguments) (sendText s message others) := by
  refine .read fun memory copy memories => ?_
  have text := toText_alike memories (argument_alike all 0)
  dsimp only
  cases message with
  | add =>
    rw [text]
    exact .pure (.text _)
  | compare =>
    rw [text]
    exact .pure (ofOrdering_alike _)
  | isEmpty => exact .pure (.bool _)
  | toUpper | toLower => exact .pure (.text _)
  | length => exact .pure (.number _)
  | _ => exact .throw _

theorem sendBool_alike (b : Bool) (message : Message)
    (all : List.Forall₂ (Value.Alike fits paired) arguments others) :
    Action.AnswersAlike fits writes paired (sendBool b message arguments) (sendBool b message others) := by
  refine .read fun memory copy memories => ?_
  have first := argument_alike all 0
  have truth := isTruthy_alike memories first
  generalize argument arguments 0 = left at first truth ⊢
  generalize argument others 0 = right at first truth ⊢
  dsimp only
  cases message with
  | and | or =>
    rw [truth]
    exact .pure (.bool _)
  | neg | isEmpty => exact .pure (.bool _)
  | compare => cases first <;> first | exact .throw _ | exact .pure (ofOrdering_alike _)
  | _ => exact .throw _

theorem date_alike (result : Except Failure Date) :
    Action.AnswersAlike fits writes paired (do return .date (← Action.ofExcept result))
      (do return .date (← Action.ofExcept result)) :=
  .ofExcept fun _ => .pure (.date _)

theorem dateTime_alike (result : Except Failure DateTime) :
    Action.AnswersAlike fits writes paired (do return .dateTime (← Action.ofExcept result))
      (do return .dateTime (← Action.ofExcept result)) :=
  .ofExcept fun _ => .pure (.dateTime _)

theorem sendDate_alike (d : Date) (message : Message)
    (all : List.Forall₂ (Value.Alike fits paired) arguments others) :
    Action.AnswersAlike fits writes paired (sendDate d message arguments) (sendDate d message others) := by
  have first := argument_alike all 0
  unfold sendDate
  generalize argument arguments 0 = left at first ⊢
  generalize argument others 0 = right at first ⊢
  cases message with
  | add | sub => cases first <;> first | exact date_alike _ | exact .pure (.number _) | exact .pure .empty
  | compare => cases first <;> first | exact .throw _ | exact .pure (ofOrdering_alike _)
  | start | finish => exact .pure (.dateTime _)
  | isEmpty => exact .pure (.bool _)
  | _ => exact .throw _

theorem sendDateTime_alike (t : DateTime) (message : Message)
    (all : List.Forall₂ (Value.Alike fits paired) arguments others) :
    Action.AnswersAlike fits writes paired (sendDateTime t message arguments) (sendDateTime t message others) := by
  have first := argument_alike all 0
  unfold sendDateTime
  generalize argument arguments 0 = left at first ⊢
  generalize argument others 0 = right at first ⊢
  cases message with
  | add | sub => cases first <;> first | exact dateTime_alike _ | exact .pure (.number _) | exact .pure .empty
  | compare => cases first <;> first | exact .throw _ | exact .pure (ofOrdering_alike _)
  | date => exact .pure (.date _)
  | isEmpty => exact .pure (.bool _)
  | _ => exact .throw _

theorem position?_alike {value like : Value} (same : value.Alike fits paired like) :
    position? value = position? like := by
  cases same <;> rfl

theorem mismatch_alike {α : Type} {post : Pairing → α → α → Prop} (operation : Operation) (variant : Variant)
    {value like : Value} (same : value.Alike fits paired like) :
    Action.Alike fits writes paired (mismatch operation variant value) (mismatch operation variant like) post := by
  cases same <;> exact .throw _

theorem getD_alike {items others : Array Value}
    (all : List.Forall₂ (Value.Alike fits paired) items.toList others.toList) (position : Nat) :
    (items.getD position .empty).Alike fits paired (others.getD position .empty) := by
  have same := argument_alike all position
  simpa [argument, Array.getD_eq_getD_getElem?] using same

theorem set_alike {values twins : List Value} (all : List.Forall₂ (Value.Alike fits paired) values twins)
    (position : Nat) {value like : Value} (same : value.Alike fits paired like) :
    List.Forall₂ (Value.Alike fits paired) (values.set position value) (twins.set position like) := by
  induction all generalizing position with
  | nil => exact .nil
  | cons head rest ih =>
    cases position with
    | zero => exact .cons same rest
    | succ position => exact .cons head (ih position)

theorem writeItem_alike {items others : Array Value}
    (all : List.Forall₂ (Value.Alike fits paired) items.toList others.toList) (position : Nat) {value like : Value}
    (same : value.Alike fits paired like) :
    List.Forall₂ (Value.Alike fits paired) (writeItem items position value).toList
      (writeItem others position like).toList := by
  have size : items.size = others.size := all.length_eq
  unfold writeItem
  rw [size]
  split
  · simpa using set_alike all position same
  · have gap : List.Forall₂ (Value.Alike fits paired) (List.replicate (position - others.size) .empty)
        (List.replicate (position - others.size) .empty) :=
      List.forall₂_same.mpr fun _ member => List.eq_of_mem_replicate member ▸ .empty
    simpa using List.rel_append all (List.rel_append gap (.cons same .nil))

theorem sendArray_alike {place twin : Nat} (pair : paired (.array place) (.array twin)) (message : Message)
    (allowed : message = .set → writes) (all : List.Forall₂ (Value.Alike fits paired) arguments others) :
    Action.AnswersAlike fits writes paired (sendArray place message arguments) (sendArray twin message others) := by
  have first := argument_alike all 0
  have second := argument_alike all 1
  have size : ∀ {memory copy : Memory}, memory.Alike fits paired copy →
      (memory.items place).size = (copy.items twin).size := fun memories => (memories.items pair).length_eq
  unfold sendArray
  cases message with
  | get =>
    refine .read fun memory copy memories => ?_
    rw [position?_alike first]
    split
    · exact .pure (getD_alike (memories.items pair) _)
    · exact .pure .empty
  | set =>
    refine .read fun memory copy memories => ?_
    dsimp only
    rw [position?_alike first, size memories]
    split
    · split
      · rename_i position _ _
        intro memory copy memories
        obtain ⟨_, _, left, right, -⟩ := memories.cells _ _ pair
        obtain ⟨made, alike⟩ := memories.write
          (Memory.puts_arrays (writeItem · position (argument arguments 1)) (Memory.array_lt_of_cell left))
          (Memory.puts_arrays (writeItem · position (argument others 1)) (Memory.array_lt_of_cell right)) pair
          (.items (writeItem_alike (memories.items pair) position second)) (allowed rfl)
        exact ⟨paired, made, alike, .ok second⟩
      · exact mismatch_alike .index .array first
    · exact mismatch_alike .index .array first
  | length =>
    refine .read fun memory copy memories => ?_
    rw [size memories]
    exact .pure (.number _)
  | isEmpty =>
    refine .read fun memory copy memories => ?_
    rw [Array.isEmpty, Array.isEmpty, size memories]
    exact .pure (.bool _)
  | _ => exact .throw _

theorem sendObject_alike {place twin : Nat} (pair : paired (.object place) (.object twin)) (message : Message)
    (allowed : message = .set → writes) (all : List.Forall₂ (Value.Alike fits paired) arguments others) :
    Action.AnswersAlike fits writes paired (sendObject place message arguments) (sendObject twin message others) := by
  have second := argument_alike all 1
  refine .read fun memory copy memories => ?_
  have name := toText_alike memories (argument_alike all 0)
  have members := memories.members pair
  dsimp only
  rw [name]
  cases message with
  | get => exact .pure (members.getD _)
  | set =>
    dsimp only
    rw [reads_alike memories pair (argument_alike all 0)]
    split
    · exact .throw _
    intro memory copy memories
    obtain ⟨_, _, left, right, -⟩ := memories.cells _ _ pair
    obtain ⟨made, alike⟩ := memories.write
      (Memory.puts_objects (Fields.put · _ (argument arguments 1)) (Memory.object_lt_of_cell left))
      (Memory.puts_objects (Fields.put · _ (argument others 1)) (Memory.object_lt_of_cell right)) pair
      (.members ((memories.members pair).put _ second)) (allowed rfl)
    exact ⟨paired, made, alike, .ok second⟩
  | has =>
    dsimp only
    rw [members.contains]
    exact .pure (.bool _)
  | length =>
    dsimp only
    rw [members.length_eq]
    exact .pure (.number _)
  | isEmpty =>
    have empty : (memory.members place).isEmpty = (copy.members twin).isEmpty := by
      generalize memory.members place = left at members ⊢
      generalize copy.members twin = right at members ⊢
      cases members <;> rfl
    dsimp only
    rw [empty]
    exact .pure (.bool _)
  | _ => exact .throw _

theorem sendView_alike {document twin : Nat} (path : Path) (pair : paired (.document document) (.document twin))
    (message : Message) (allowed : message = .set → writes)
    (all : List.Forall₂ (Value.Alike fits paired) arguments others) :
    Action.AnswersAlike fits writes paired (sendView ⟨document, path⟩ message arguments)
      (sendView ⟨twin, path⟩ message others) := by
  refine .read fun memory copy memories => ?_
  have name := toText_alike memories (argument_alike all 0)
  dsimp only
  rw [name]
  cases message with
  | get => exact .lift fun memory copy memories => View.get_alike path _ pair memories
  | set =>
    exact .lift fun memory copy memories =>
      View.set_alike path (allowed rfl) _ (argument_alike all 1) pair memories
  | has =>
    dsimp only
    rw [View.has_alike path memories pair]
    exact .pure (.bool _)
  | isEmpty =>
    dsimp only
    rw [View.isEmpty_alike path memories pair]
    exact .pure (.bool _)
  | _ => exact .throw _

/-- Alike values answer a message alike. Only `set` writes. -/
theorem send_alike {receiver twin : Value} (same : receiver.Alike fits paired twin) (message : Message)
    (allowed : message = .set → writes) (all : List.Forall₂ (Value.Alike fits paired) arguments others) :
    Action.AnswersAlike fits writes paired (receiver.send message arguments) (twin.send message others) := by
  unfold send
  rw [isEmpty_alike (argument_alike all 0)]
  split
  · exact .pure .empty
  · cases same with
    | empty =>
      refine .pure ?_
      split
      · exact .bool true
      · exact .empty
    | number x => exact sendNumber_alike x message all
    | text s => exact sendText_alike s message all
    | bool b => exact sendBool_alike b message all
    | array pair => exact sendArray_alike pair message allowed all
    | object pair => exact sendObject_alike pair message allowed all
    | date d => exact sendDate_alike d message all
    | dateTime t => exact sendDateTime_alike t message all
    | data path pair => exact sendView_alike path pair message allowed all
    | closure | scope => exact .throw _

theorem compare_alike {left leftTwin right rightTwin : Value} (same : left.Alike fits paired leftTwin)
    (like : right.Alike fits paired rightTwin) :
    Action.AnswersAlike fits writes paired (left.compare right) (leftTwin.compare rightTwin) :=
  send_alike same .compare (by simp) (.cons like .nil)

theorem add_alike {left leftTwin right rightTwin : Value} (same : left.Alike fits paired leftTwin)
    (like : right.Alike fits paired rightTwin) :
    Action.AnswersAlike fits writes paired (left.add right) (leftTwin.add rightTwin) :=
  send_alike same .add (by simp) (.cons like .nil)

end Value

theorem relate_alike (operator : String) {order like : Value} (same : order.Alike fits paired like) :
    relate operator order = relate operator like := by
  cases same <;> rfl

theorem comparison_alike {left leftTwin right rightTwin : Value} (same : left.Alike fits paired leftTwin)
    (like : right.Alike fits paired rightTwin) (operator : String) :
    Action.AnswersAlike fits writes paired
      (do let order ← left.compare right; return .bool (← Action.ofExcept (relate operator order)))
      (do let order ← leftTwin.compare rightTwin; return .bool (← Action.ofExcept (relate operator order))) := by
  refine .bind (Value.compare_alike same like) fun wider _ order twin orders => ?_
  rw [relate_alike operator orders]
  exact .ofExcept fun b => .pure (.bool b)

theorem rangeOf_alike {first last firstTwin lastTwin : Value} (same : first.Alike fits paired firstTwin)
    (like : last.Alike fits paired lastTwin) : rangeOf first last = rangeOf firstTwin lastTwin := by
  cases same <;> cases like <;> rfl

theorem range_alike {first last firstTwin lastTwin : Value} (same : first.Alike fits paired firstTwin)
    (like : last.Alike fits paired lastTwin) :
    Action.AnswersAlike fits writes paired (do Action.newArray (← Action.ofExcept (rangeOf first last)))
      (do Action.newArray (← Action.ofExcept (rangeOf firstTwin lastTwin))) := by
  rw [← rangeOf_alike same like]
  cases made : rangeOf first last with
  | error failure => exact .throw failure
  | ok items =>
    refine Action.newArray_alike (List.forall₂_same.mpr fun value member => ?_)
    obtain ⟨x, rfl⟩ := rangeOf_numbers made value (Array.mem_toList_iff.mp member)
    exact .number x

end RuleScript
