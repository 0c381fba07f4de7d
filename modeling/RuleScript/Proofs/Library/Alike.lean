import RuleScript.Proofs.Value.AlikeAnswers

/-! Library functions on memories that are alike, and libraries that do not suspend. -/

set_option autoImplicit false

namespace RuleScript

variable {fits : Closure → Prop} {writes : Prop} {paired : Pairing}

namespace Standard

section Read

variable {memory copy : Memory} (memories : memory.Alike fits paired copy) {value like : Value}
  (same : value.Alike fits paired like)

include memories same

theorem toString_alike : (toString memory value).Alike fits paired (toString copy like) := by
  unfold toString
  dsimp only
  rw [Value.toText_alike memories same]
  split
  · exact .empty
  · exact .text _

theorem toNumber_alike : (toNumber memory value).Alike fits paired (toNumber copy like) := by
  have text := Value.toText_alike memories same
  unfold toNumber
  cases same <;> dsimp only
  case number x => exact .number x
  all_goals
    rw [text]
    split
    · exact .number _
    · exact .empty

theorem toBool_alike : (toBool memory value).Alike fits paired (toBool copy like) := by
  have truth := Value.isTruthy_alike memories same
  have equal : toBool memory value = toBool copy like := by
    cases same with
    | number => rfl
    | text s => by_cases no : s = "false" <;> simp [toBool, no, truth]
    | _ => exact congrArg Value.bool truth
  obtain ⟨b, made⟩ : ∃ b, toBool copy like = .bool b := by
    unfold toBool
    split <;> exact ⟨_, rfl⟩
  rw [equal, made]
  exact .bool b

theorem items_alike : List.Forall₂ (Value.Alike fits paired) (items memory value) (items copy like) := by
  cases same with
  | array pair => exact memories.items pair
  | _ => exact .nil

end Read

theorem extreme_alike (replaces : Float → Bool) {paired : Pairing} {best twin : Value}
    (same : best.Alike fits paired twin) {rest others : List Value}
    (all : List.Forall₂ (Value.Alike fits paired) rest others) :
    Action.AnswersAlike fits writes paired (extreme replaces best rest) (extreme replaces twin others) := by
  induction rest generalizing paired best twin others with
  | nil =>
    cases all
    exact .pure same
  | cons next rest ih =>
    cases all with
    | cons head tail =>
      refine .bind (Value.compare_alike same head) fun wider widens order like orders => ?_
      have tail := Value.Alike.mono_list widens tail
      cases orders with
      | number x =>
        refine ih ?_ tail
        split
        · exact head.mono widens
        · exact same.mono widens
      | _ => exact ih (same.mono widens) tail

theorem addAll_alike {paired : Pairing} {total twin : Value} (same : total.Alike fits paired twin)
    {rest others : List Value} (all : List.Forall₂ (Value.Alike fits paired) rest others) :
    Action.AnswersAlike fits writes paired (addAll total rest) (addAll twin others) := by
  induction rest generalizing paired total twin others with
  | nil =>
    cases all
    exact .pure same
  | cons next rest ih =>
    cases all with
    | cons head tail =>
      exact .bind (Value.add_alike same head) fun wider widens _ _ sums =>
        ih sums (Value.Alike.mono_list widens tail)

theorem onItems_alike {f : Value → List Value → Action Value} {items others : List Value}
    (all : List.Forall₂ (Value.Alike fits paired) items others)
    (each : ∀ head twin rest twins, head.Alike fits paired twin → List.Forall₂ (Value.Alike fits paired) rest twins →
      Action.AnswersAlike fits writes paired (f head rest) (f twin twins)) :
    Action.AnswersAlike fits writes paired (onItems f items) (onItems f others) := by
  cases all with
  | nil => exact .pure .empty
  | cons head tail => exact each _ _ _ _ head tail

theorem head_alike {items others : List Value} (all : List.Forall₂ (Value.Alike fits paired) items others) :
    (items.head?.getD .empty).Alike fits paired (others.head?.getD .empty) := by
  cases all with
  | nil => exact .empty
  | cons head tail => exact head

theorem last_alike {items others : List Value} (all : List.Forall₂ (Value.Alike fits paired) items others) :
    (items.getLast?.getD .empty).Alike fits paired (others.getLast?.getD .empty) := by
  rw [← List.head?_reverse, ← List.head?_reverse]
  exact head_alike (List.rel_reverse all)

theorem call_alike (clock : Clock) (function : Standard) {arguments others : List Value}
    (all : List.Forall₂ (Value.Alike fits paired) arguments others) :
    Action.AnswersAlike fits writes paired (function.call clock arguments) (function.call clock others) := by
  have first := Value.argument_alike all 0
  refine .read fun memory copy memories => ?_
  have items := items_alike memories first
  dsimp only
  cases function with
  | string => exact .pure (toString_alike memories first)
  | number => exact .pure (toNumber_alike memories first)
  | bool => exact .pure (toBool_alike memories first)
  | count =>
    dsimp only
    rw [items.length_eq]
    exact .pure (.number _)
  | min | max => exact onItems_alike items fun _ _ _ _ same rest => extreme_alike _ same rest
  | sum => exact onItems_alike items fun _ _ _ _ same rest => addAll_alike same rest
  | first => exact .pure (head_alike items)
  | last => exact .pure (last_alike items)
  | concat =>
    dsimp only
    generalize Standard.items memory (Value.argument arguments 0) = left at items ⊢
    generalize Standard.items copy (Value.argument others 0) = right at items ⊢
    cases items with
    | nil => exact .pure (.text "")
    | cons head tail => exact addAll_alike (toString_alike memories head) tail
  | now => exact Value.dateTime_alike _
  | today => exact Value.date_alike _

end Standard

namespace Library

def prompt : Library → Library
  | suspending name functions => table name (functions.map fun function => (function, .argument 0))
  | library => library

end Library

mutual

theorem Given.make_alike (given : Given) {paired : Pairing} :
    Action.AnswersAlike fits writes paired given.make given.make := by
  cases given with
  | empty => exact .pure .empty
  | bool b => exact .pure (.bool b)
  | number x => exact .pure (.number x)
  | text s => exact .pure (.text s)
  | array items =>
    exact .bind (Given.makeItems_alike items) fun wider _ _ _ values => Action.newArray_alike values
  | object members =>
    exact .bind (Given.makeMembers_alike members) fun wider _ _ _ values =>
      Action.newObject_alike (MembersAlike.ofList values)
  | date written zone => exact Value.date_alike _
  | dateTime written zone => exact Value.dateTime_alike _
  | native document =>
    intro memory copy memories
    obtain ⟨made, alike⟩ := memories.allocate (memory.puts_addDocument document) (copy.puts_addDocument document)
      Memory.cell?_new_document Memory.cell?_new_document (.node document)
    obtain ⟨wider, again, final, value⟩ := View.project_alike [] (.inr ⟨rfl, rfl⟩) alike
    exact ⟨wider, made.trans again, final, .ok value⟩

theorem Given.makeItems_alike (items : List Given) {paired : Pairing} :
    Action.Alike fits writes paired (Given.makeItems items) (Given.makeItems items)
      fun wider => List.Forall₂ (Value.Alike fits wider) := by
  cases items with
  | nil => exact .pure .nil
  | cons item rest =>
    refine .bind (Given.make_alike item) fun wider _ value like same => ?_
    refine .bind (Given.makeItems_alike rest) fun widest again _ _ values => ?_
    exact .pure (.cons (same.mono again) values)

theorem Given.makeMembers_alike (members : List (String × Given)) {paired : Pairing} :
    Action.Alike fits writes paired (Given.makeMembers members) (Given.makeMembers members)
      fun wider => MembersAlike fits wider := by
  cases members with
  | nil => exact .pure .nil
  | cons member rest =>
    obtain ⟨name, item⟩ := member
    refine .bind (Given.make_alike item) fun wider _ value like same => ?_
    refine .bind (Given.makeMembers_alike rest) fun widest again _ _ values => ?_
    exact .pure (.cons ⟨rfl, same.mono again⟩ values)

end

theorem Library.answer_alike (clock : Clock) (library : Library) (function : String) {arguments others : List Value}
    (all : List.Forall₂ (Value.Alike fits paired) arguments others) :
    Action.AnswersAlike fits writes paired (library.answer clock function arguments)
      (library.answer clock function others) := by
  cases library with
  | standard =>
    unfold Library.answer
    dsimp only
    split
    · exact Standard.call_alike clock _ all
    · exact .pure .empty
  | suspending => exact .pure (Value.argument_alike all 0)
  | table name functions =>
    unfold Library.answer
    dsimp only
    split
    case h_2 => exact .throw _
    case h_1 behaviour found =>
      cases behaviour with
      | answer given => exact Given.make_alike given
      | argument position => exact .pure (Value.argument_alike all position)
      | arguments => exact Action.newArray_alike all
      | now => exact Value.dateTime_alike _
      | today => exact Value.date_alike _
      | fail name => exact .throw _

namespace Library

theorem contains_map (functions : List String) (function : String) :
    Fields.contains (functions.map fun name => (name, Behaviour.argument 0)) function =
      functions.contains function := by
  induction functions with
  | nil => rfl
  | cons first rest ih => simp [Fields.contains, ih, eq_comm]

theorem has_prompt (library : Library) (function : String) : library.prompt.has function = library.has function := by
  cases library with
  | suspending name functions => exact contains_map functions function
  | standard | table => rfl

theorem suspensions_prompt (library : Library) (arguments : List Value) : library.prompt.suspensions arguments = 0 := by
  cases library <;> simp [prompt, suspensions]

theorem prompt_prompt (library : Library) : library.prompt.prompt = library.prompt := by
  cases library <;> rfl

theorem answer_prompt (clock : Clock) (library : Library) {function : String} (has : library.has function = true)
    (arguments : List Value) :
    library.prompt.answer clock function arguments = library.answer clock function arguments := by
  cases library with
  | standard | table => rfl
  | suspending name functions =>
    have found : Fields.contains (functions.map fun name => (name, Behaviour.argument 0)) function = true :=
      (contains_map functions function).trans has
    obtain ⟨behaviour, same⟩ := Option.isSome_iff_exists.mp ((Fields.contains_eq_isSome _ _).symm.trans found)
    obtain ⟨other, -, pair⟩ := List.mem_map.mp (Fields.mem_of_get? same)
    obtain rfl := (Prod.ext_iff.mp pair).2
    simp only [prompt, answer, same]
    rfl

end Library

end RuleScript
