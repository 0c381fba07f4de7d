import RuleScript.Library.Basic
import RuleScript.Proofs.Value.Reading
import RuleScript.Proofs.Value.Sending

/-! The messages that crash.

A message crashes in two cases: it tells an object to hold something under a key that leads back to it, or it shifts a
date-time past the days of the calendar on the clock of its own offset. Of all functions of libraries only the sum sends
such a message.
-/

set_option autoImplicit false

namespace RuleScript

/-- So many days later there is a day in UTC, but none on the clock of the date-time's own offset. -/
def DateTime.LeavesCalendar (t : DateTime) (days : Float) : Prop :=
  DateTime.daysToMillis days ≠ Decimal.int64Min ∧
    ∃ instant, t.instant.shift? (DateTime.daysToMillis days) = some instant ∧ ¬ instant.localDay.isSupported

theorem DateTime.addDays_crash_iff {t : DateTime} {days : Float} {cause : Crash} :
    t.addDays days = .error (.crash cause) ↔ cause = .dayOutOfRange ∧ t.LeavesCalendar days := by
  unfold addDays LeavesCalendar
  dsimp only
  by_cases least : daysToMillis days = Decimal.int64Min
  · simp [least]
  · rw [if_neg least]
    cases t.instant.shift? (daysToMillis days) with
    | none => simp
    | some instant =>
      dsimp only
      by_cases supported : instant.localDay.isSupported
      · rw [if_pos supported]
        refine ⟨nofun, fun ⟨_, _, other, same, leaves⟩ => ?_⟩
        exact absurd (Option.some.inj same ▸ supported) leaves
      · rw [if_neg supported]
        refine ⟨fun same => ?_, fun ⟨same, _⟩ => same ▸ rfl⟩
        cases same
        exact ⟨rfl, least, instant, rfl, supported⟩

/-- A message that crashes, with its cause. -/
inductive Value.Crashes (memory : Memory) : Value → Message → List Value → Crash → Prop where
  | held {place : Nat} {arguments : List Value} (leads : (argument arguments 0).Reaches memory (.object place)) :
    Crashes memory (.object place) .set arguments .objectInUse
  | later {t : DateTime} {arguments : List Value} {days : Float} (given : argument arguments 0 = .number days)
      (leaves : t.LeavesCalendar days) : Crashes memory (.dateTime t) .add arguments .dayOutOfRange
  | earlier {t : DateTime} {arguments : List Value} {days : Float} (given : argument arguments 0 = .number days)
      (leaves : t.LeavesCalendar (-days)) : Crashes memory (.dateTime t) .sub arguments .dayOutOfRange

/-- An action that fails in no other way than a host is told of. -/
def Action.Steady {α : Type} (act : Action α) : Prop :=
  ∀ memory cause, (act memory).1 ≠ .error (.crash cause)

namespace Action.Steady

variable {α β : Type} {act : Action α} {next : α → Action β}

theorem pure (result : α) : Steady (pure result) :=
  fun _ _ => nofun

theorem throw {failure : Failure} (told : ∀ cause, failure ≠ .crash cause) : Steady (throw failure : Action α) :=
  fun _ cause same => told cause (Except.error.inj same)

theorem bind (first : act.Steady) (rest : ∀ result, (next result).Steady) : Steady (act >>= next) := by
  intro memory cause
  rw [Action.bind_apply]
  cases ran : (act memory).1 with
  | ok result => exact rest result _ cause
  | error failure =>
    intro same
    cases same
    exact first memory cause ran

theorem get : Steady (MonadState.get : Action Memory) :=
  fun _ _ => nofun

theorem lift (act : StateM Memory α) : Steady (ExceptT.lift act) :=
  fun _ _ => nofun

theorem ofExcept {result : Except Failure α} (told : ∀ cause, result ≠ .error (.crash cause)) :
    Steady (Action.ofExcept result) := by
  cases result with
  | ok value => exact pure value
  | error failure => exact throw fun cause same => told cause (congrArg _ same)

end Action.Steady

open Action

theorem Date.read_told (text : String) (zone : Option String) (cause : Crash) :
    Date.read text zone ≠ .error (.crash cause) := by
  unfold Date.read
  split <;> nofun

theorem DateTime.read_told (text : String) (zone : Option String) (cause : Crash) :
    DateTime.read text zone ≠ .error (.crash cause) := by
  unfold DateTime.read
  split <;> nofun

theorem Date.addDays_told (d : Date) (days : Float) (cause : Crash) : d.addDays days ≠ .error (.crash cause) := by
  unfold Date.addDays
  split <;> nofun

namespace Value

variable {memory : Memory} {message : Message} {arguments : List Value} {cause : Crash}

theorem sendNumber_steady (x : Float) (message : Message) (arguments : List Value) :
    (sendNumber x message arguments).Steady := by
  unfold sendNumber
  dsimp only
  repeat' split
  all_goals first
    | exact .pure _
    | exact .throw nofun

theorem sendText_steady (s : String) (message : Message) (arguments : List Value) :
    (sendText s message arguments).Steady := by
  unfold sendText
  refine .bind .get fun memory => ?_
  dsimp only
  split
  all_goals first
    | exact .pure _
    | exact .throw nofun

theorem sendBool_steady (b : Bool) (message : Message) (arguments : List Value) :
    (sendBool b message arguments).Steady := by
  unfold sendBool
  refine .bind .get fun memory => ?_
  dsimp only
  repeat' split
  all_goals first
    | exact .pure _
    | exact .throw nofun

theorem sendArray_steady (place : Nat) (message : Message) (arguments : List Value) :
    (sendArray place message arguments).Steady := by
  unfold sendArray
  split
  case h_2 =>
    refine .bind .get fun memory => ?_
    dsimp only
    split
    · split
      · exact fun _ _ => nofun
      · exact .throw nofun
    · exact .throw nofun
  case h_1 =>
    refine .bind .get fun memory => ?_
    split <;> exact .pure _
  case h_3 | h_4 => exact .bind .get fun memory => .pure _
  case h_5 => exact .throw nofun

theorem sendDate_steady (d : Date) (message : Message) (arguments : List Value) :
    (sendDate d message arguments).Steady := by
  unfold sendDate
  dsimp only
  repeat' split
  all_goals first
    | with_reducible exact .pure _
    | with_reducible exact .bind (.ofExcept (d.addDays_told _)) fun _ => .pure _
    | exact .throw nofun

theorem sendView_steady (view : View) (message : Message) (arguments : List Value) :
    (sendView view message arguments).Steady := by
  unfold sendView
  refine .bind .get fun memory => ?_
  dsimp only
  split
  all_goals first
    | with_reducible exact .pure _
    | exact .lift _
    | exact .throw nofun

theorem sendObject_steady (place : Nat) (asks : message ≠ .set) (arguments : List Value) :
    (sendObject place message arguments).Steady := by
  unfold sendObject
  refine .bind .get fun memory => ?_
  dsimp only
  split
  case h_2 => exact absurd rfl asks
  all_goals first
    | exact .pure _
    | exact .throw nofun

theorem shift_crash_iff {result : Except Failure DateTime} {failure : Failure} :
    ((do return .dateTime (← Action.ofExcept result) : Action Value) memory).1 = .error failure ↔
      result = .error failure := by
  cases result with
  | ok t => exact ⟨nofun, nofun⟩
  | error other =>
    change (Except.error other : Except Failure Value) = _ ↔ _
    simp

theorem crashes_of_sendDateTime {t : DateTime}
    (crashed : (sendDateTime t message arguments memory).1 = .error (.crash cause)) :
    Crashes memory (.dateTime t) message arguments cause := by
  cases message with
  | add =>
    cases given : argument arguments 0 with
    | number days =>
      simp only [sendDateTime, given, shift_crash_iff, DateTime.addDays_crash_iff] at crashed
      exact crashed.1 ▸ .later given crashed.2
    | _ =>
      simp only [sendDateTime, given] at crashed
      cases crashed
  | sub =>
    cases given : argument arguments 0 with
    | number days =>
      simp only [sendDateTime, given, shift_crash_iff, DateTime.addDays_crash_iff] at crashed
      exact crashed.1 ▸ .earlier given crashed.2
    | _ =>
      simp only [sendDateTime, given] at crashed
      cases crashed
  | compare => cases given : argument arguments 0 <;> simp only [sendDateTime, given] at crashed <;> cases crashed
  | _ => cases crashed

/-- A message crashes for the reasons that there are, and for no other. -/
theorem send_crash_iff {receiver : Value} :
    (receiver.send message arguments memory).1 = .error (.crash cause) ↔
      receiver.Crashes memory message arguments cause := by
  constructor
  · intro crashed
    unfold send at crashed
    split at crashed
    · cases crashed
    · cases receiver with
      | empty => cases crashed
      | number x => exact absurd crashed (sendNumber_steady x message arguments memory cause)
      | text s => exact absurd crashed (sendText_steady s message arguments memory cause)
      | bool b => exact absurd crashed (sendBool_steady b message arguments memory cause)
      | array place => exact absurd crashed (sendArray_steady place message arguments memory cause)
      | date d => exact absurd crashed (sendDate_steady d message arguments memory cause)
      | data view => exact absurd crashed (sendView_steady view message arguments memory cause)
      | closure | scope => cases crashed
      | dateTime t => exact crashes_of_sendDateTime crashed
      | object place =>
        -- Of all messages to an object `set` alone reads a key while the object is held.
        by_cases sets : message = .set
        · subst sets
          change ((object place).send .set arguments memory).1 = _ at crashed
          rw [send_set_object] at crashed
          split at crashed
          · rename_i reads
            cases crashed
            exact .held (reads_iff.mp reads)
          · cases crashed
        · exact absurd crashed (sendObject_steady place sets arguments memory cause)
  · intro crashes
    cases crashes with
    | held leads => rw [send_set_object, if_pos (reads_iff.mpr leads)]
    | later given leaves =>
      change (sendDateTime _ .add arguments memory).1 = _
      unfold sendDateTime
      dsimp only
      rw [given]
      exact shift_crash_iff.mpr (DateTime.addDays_crash_iff.mpr ⟨rfl, leaves⟩)
    | earlier given leaves =>
      change (sendDateTime _ .sub arguments memory).1 = _
      unfold sendDateTime
      dsimp only
      rw [given]
      exact shift_crash_iff.mpr (DateTime.addDays_crash_iff.mpr ⟨rfl, leaves⟩)

theorem send_steady (receiver : Value) (arguments : List Value)
    (harmless : message ≠ .set ∧ message ≠ .add ∧ message ≠ .sub) : (receiver.send message arguments).Steady := by
  intro memory cause crashed
  cases send_crash_iff.mp crashed with
  | held => exact harmless.1 rfl
  | later => exact harmless.2.1 rfl
  | earlier => exact harmless.2.2 rfl

end Value

namespace Standard

theorem extreme_steady (replaces : Float → Bool) (best : Value) (rest : List Value) :
    (extreme replaces best rest).Steady := by
  induction rest generalizing best with
  | nil => exact .pure _
  | cons next rest ih =>
    refine .bind (best.send_steady _ ⟨nofun, nofun, nofun⟩) fun order => ?_
    split <;> exact ih _

theorem crashes_of_addAll {total : Value} {items : List Value} {memory : Memory} {cause : Crash}
    (crashed : (addAll total items memory).1 = .error (.crash cause)) :
    cause = .dayOutOfRange ∧ ∃ before days after t, items = before ++ .number days :: after ∧
      (addAll total before memory).1 = .ok (.dateTime t) ∧ t.LeavesCalendar days := by
  induction items generalizing total memory with
  | nil => cases crashed
  | cons next rest ih =>
    unfold addAll at crashed
    rw [Action.bind_apply] at crashed
    cases ran : (total.add next memory).1 with
    | error failure =>
      rw [ran] at crashed
      cases crashed
      -- An addition that crashes is one of days to a date-time.
      cases Value.send_crash_iff.mp ran with
      | later given leaves =>
        obtain rfl : next = _ := given
        exact ⟨rfl, [], _, rest, _, rfl, rfl, leaves⟩
    | ok sum =>
      rw [ran] at crashed
      obtain ⟨same, before, days, after, t, rfl, sums, leaves⟩ := ih crashed
      refine ⟨same, next :: before, days, after, t, rfl, ?_, leaves⟩
      rw [addAll, Action.bind_apply, ran]
      exact sums

theorem addAll_steady {total : Value} (plain : total = .empty ∨ ∃ s, total = .text s) (items : List Value) :
    (addAll total items).Steady := by
  intro memory cause crashed
  induction items generalizing total memory with
  | nil => cases crashed
  | cons next rest ih =>
    unfold addAll at crashed
    obtain rfl | ⟨s, rfl⟩ := plain
    · exact ih (.inl rfl) _ crashed
    · exact ih (.inr ⟨_, rfl⟩) _ crashed

theorem toString_plain (memory : Memory) (value : Value) :
    toString memory value = .empty ∨ ∃ s, toString memory value = .text s := by
  unfold toString
  dsimp only
  split
  · exact .inl rfl
  · exact .inr ⟨_, rfl⟩

/-- The items of an array add up to a date-time before one of them, which shifts it too far. -/
def SumLeaves (memory : Memory) (value : Value) : Prop :=
  ∃ head before days after t, items memory value = head :: before ++ .number days :: after ∧
    (addAll head before memory).1 = .ok (.dateTime t) ∧ t.LeavesCalendar days

theorem crashes_of_call {clock : Clock} {function : Standard} {arguments : List Value} {memory : Memory} {cause : Crash}
    (crashed : (function.call clock arguments memory).1 = .error (.crash cause)) :
    function = .sum ∧ cause = .dayOutOfRange ∧ SumLeaves memory (Value.argument arguments 0) := by
  -- All functions but the sum only compare, convert or append, and none of that crashes.
  have never : ∀ act : Action Value, act.Steady → (act memory).1 = .error (.crash cause) → False :=
    fun _ steady => steady memory cause
  have extremes : ∀ replaces list, (onItems (extreme replaces) list).Steady := by
    intro replaces list
    cases list with
    | nil => exact .pure _
    | cons head rest => exact extreme_steady replaces head rest
  cases function with
  | sum =>
    change (onItems addAll (items memory (Value.argument arguments 0)) memory).1 = _ at crashed
    unfold SumLeaves
    cases listed : items memory (Value.argument arguments 0) with
    | nil =>
      rw [listed] at crashed
      cases crashed
    | cons head rest =>
      rw [listed] at crashed
      obtain ⟨same, before, days, after, t, rfl, sums, leaves⟩ := crashes_of_addAll crashed
      exact ⟨rfl, same, head, before, days, after, t, rfl, sums, leaves⟩
  | min => exact (never _ (extremes (0.0 < ·) _) crashed).elim
  | max => exact (never _ (extremes (· < 0.0) _) crashed).elim
  | concat =>
    refine (never (call clock .concat arguments) ?_ crashed).elim
    unfold call
    refine .bind .get fun memory => ?_
    dsimp only
    split
    · exact .pure _
    · exact addAll_steady (toString_plain memory _) _
  | now =>
    refine (never (do return .dateTime (← Action.ofExcept clock.now)) ?_ crashed).elim
    exact .bind (.ofExcept (DateTime.read_told _ _)) fun _ => .pure _
  | today =>
    refine (never (do return .date (← Action.ofExcept clock.today)) ?_ crashed).elim
    exact .bind (.ofExcept (Date.read_told _ _)) fun _ => .pure _
  | string | number | bool | count | first | last => cases crashed

end Standard

mutual

theorem Given.make_steady (given : Given) : given.make.Steady := by
  cases given with
  | empty | bool | number | text => exact .pure _
  | array items => exact .bind (Given.makeItems_steady items) fun _ _ _ => nofun
  | object members => exact .bind (Given.makeMembers_steady members) fun _ _ _ => nofun
  | date => exact .bind (.ofExcept (Date.read_told _ _)) fun _ => .pure _
  | dateTime => exact .bind (.ofExcept (DateTime.read_told _ _)) fun _ => .pure _
  | native document => exact .bind (fun _ _ => nofun) fun view => .lift _

theorem Given.makeItems_steady (items : List Given) : (Given.makeItems items).Steady := by
  cases items with
  | nil => exact .pure _
  | cons item rest =>
    exact .bind (Given.make_steady item) fun _ => .bind (Given.makeItems_steady rest) fun _ => .pure _

theorem Given.makeMembers_steady (members : List (String × Given)) : (Given.makeMembers members).Steady := by
  cases members with
  | nil => exact .pure _
  | cons member rest =>
    exact .bind (Given.make_steady member.2) fun _ => .bind (Given.makeMembers_steady rest) fun _ => .pure _

end

theorem Behaviour.call_steady (clock : Clock) (arguments : List Value) (behaviour : Behaviour) :
    (behaviour.call clock arguments).Steady := by
  cases behaviour with
  | answer given => exact given.make_steady
  | argument => exact .pure _
  | arguments => exact fun _ _ => nofun
  | now => exact .bind (.ofExcept (DateTime.read_told _ _)) fun _ => .pure _
  | today => exact .bind (.ofExcept (Date.read_told _ _)) fun _ => .pure _
  | fail => exact .throw nofun

theorem Library.crashes_of_answer {clock : Clock} {library : Library} {function : String} {arguments : List Value}
    {memory : Memory} {cause : Crash}
    (crashed : (library.answer clock function arguments memory).1 = .error (.crash cause)) :
    library = .standard ∧ Standard.ofName? function = some .sum ∧ cause = .dayOutOfRange ∧
      Standard.SumLeaves memory (Value.argument arguments 0) := by
  cases library with
  | standard =>
    cases named : Standard.ofName? function with
    | none =>
      simp only [answer, named] at crashed
      cases crashed
    | some known =>
      simp only [answer, named] at crashed
      obtain ⟨rfl, rest⟩ := Standard.crashes_of_call crashed
      exact ⟨rfl, rfl, rest⟩
  | table name functions =>
    cases found : Fields.get? functions function with
    | none =>
      simp only [answer, found] at crashed
      cases crashed
    | some behaviour =>
      simp only [answer, found] at crashed
      exact absurd crashed (behaviour.call_steady clock arguments memory cause)
  | suspending => cases crashed

end RuleScript
