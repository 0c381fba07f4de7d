import RuleScript.Proofs.Run.Resuming
import RuleScript.Proofs.Run.Sequential

/-! Folds with logical operators.

A fold takes its operands from left to right and sends each one to what the operands before it gave. `and` is decided by
an operand that is not truthy, `or` by one that is. Missing data answers `or` with itself, so an `or` that starts with
missing data is never decided.
-/

set_option autoImplicit false

namespace RuleScript

structure Evaluated where
  value : Value
  memory : Memory

namespace Evaluated

def truthy (operand : Evaluated) : Bool :=
  operand.value.isTruthy operand.memory

inductive Takes : Evaluated → Prop where
  | bool (b : Bool) (memory : Memory) : Takes ⟨.bool b, memory⟩
  | empty (memory : Memory) : Takes ⟨.empty, memory⟩

end Evaluated

/-- Operands are evaluated one after another in a scope. None of them fails or breaks. -/
inductive Evaluator.InTurn (eval : Evaluator) (scope : ScopeId) :
    Machine → List Instruction → List Machine → List Evaluated → Machine → Prop where
  | none (machine : Machine) : InTurn eval scope machine [] [] [] machine
  | cons {machine middle later : Machine} {part : Instruction} {parts : List Instruction} {before after : List Machine}
    {flow : Flow} {values : List Evaluated} (first : (eval part scope machine).EndsIn before middle (.ok flow))
    (goes : flow ≠ .stop) (rest : InTurn eval scope middle parts after values later) :
    InTurn eval scope machine (part :: parts) (before ++ after) (⟨flow.toValue, middle.memory⟩ :: values) later

namespace Fold

def operators : Fold → List String
  | arithmetic => ["+", "-", "*", "/"]
  | conjunction => ["and", "&&"]
  | disjunction => ["or", "||"]

def word : Fold → Message
  | disjunction => .or
  | _ => .and

def decisive : Fold → Bool
  | disjunction => true
  | _ => false

/-- Missing data takes in all operands of an `or`. -/
def Absorbed (kind : Fold) (values : List Evaluated) : Prop :=
  kind = disjunction ∧ ∃ first ∈ values.head?, first.value = .empty

/-- No operand has decided the fold yet. -/
def Open (kind : Fold) (values : List Evaluated) : Prop :=
  kind.Absorbed values ∨ ∀ operand ∈ values, operand.truthy ≠ kind.decisive

/-- The first operand takes the message of the second. -/
def Taken (values : List Evaluated) : Prop :=
  2 ≤ values.length → ∀ first ∈ values.head?, first.Takes

def holds : Fold → List Evaluated → Bool
  | disjunction, values => values.any Evaluated.truthy
  | _, values => values.all Evaluated.truthy

/-- What operands are folded to: one by itself, more to their truth value unless missing data takes them in. -/
def answer (kind : Fold) : List Evaluated → Value
  | [] => .empty
  | [only] => only.value
  | first :: rest => if first.value.isEmpty then .empty else .bool (kind.holds (first :: rest))

/-- How a fold ends that has evaluated some operands on the way to a machine, while others remain. -/
inductive EndsAfter (kind : Fold) (eval : Evaluator) (scope : ScopeId) (values : List Evaluated) (machine : Machine)
    (remaining : List Instruction) : List Machine → Machine → Except Failure Flow → Prop where
  /-- No operand is left, or the last one decided. -/
  | answered (some : values ≠ []) (onward : kind.Open values.dropLast) (taken : Taken values)
    (complete : remaining = [] ∨ ¬ kind.Open values) :
    EndsAfter kind eval scope values machine remaining [] machine (.ok (.value (kind.answer values)))
  /-- The first operand does not take the second. -/
  | refused {first second : Evaluated} (two : values = [first, second]) (onward : kind.Open [first])
    (unknown : ¬ first.Takes) :
    EndsAfter kind eval scope values machine remaining [] machine
      (.error (.messageNotFound kind.word first.value.variant))
  /-- The next operand fails or breaks. -/
  | interrupted {part : Instruction} {rest : List Instruction} {after : List Machine} {later : Machine}
    {outcome : Except Failure Flow} (next : remaining = part :: rest) (onward : kind.Open values) (taken : Taken values)
    (ends : (eval part scope machine).EndsIn after later outcome) (interrupts : Evaluator.interrupts outcome = true) :
    EndsAfter kind eval scope values machine remaining after later outcome

section Values

variable {kind : Fold} {first operand : Evaluated} {values more : List Evaluated}

theorem absorbed_cons : kind.Absorbed (first :: values) ↔ kind = disjunction ∧ first.value = .empty := by
  simp [Absorbed]

theorem absorbed_append (some : values ≠ []) : kind.Absorbed (values ++ more) ↔ kind.Absorbed values := by
  cases values with
  | nil => exact absurd rfl some
  | cons first rest => simp [absorbed_cons]

theorem open_append (some : values ≠ []) (onward : kind.Open (values ++ more)) : kind.Open values := by
  rcases onward with absorbed | undecided
  · exact .inl ((absorbed_append some).mp absorbed)
  · exact .inr fun operand member => undecided operand (List.mem_append_left _ member)

theorem open_nil : kind.Open [] :=
  .inr (List.forall_mem_nil _)

theorem open_concat (onward : kind.Open values) (some : values ≠ []) :
    kind.Open (values ++ [operand]) ↔ kind.Absorbed values ∨ operand.truthy ≠ kind.decisive := by
  constructor
  · rintro (absorbed | undecided)
    · exact .inl ((absorbed_append some).mp absorbed)
    · exact .inr (undecided operand (by simp))
  · rintro (absorbed | undecided)
    · exact .inl ((absorbed_append some).mpr absorbed)
    · refine onward.imp (absorbed_append some).mpr fun before => ?_
      simpa [or_imp, forall_and] using ⟨before, undecided⟩

theorem truthy_bool (b : Bool) (memory : Memory) : Evaluated.truthy ⟨.bool b, memory⟩ = b := rfl

theorem truthy_empty (memory : Memory) : Evaluated.truthy ⟨.empty, memory⟩ = false := rfl

theorem open_single : kind.Open [first] ↔ first.truthy ≠ kind.decisive := by
  constructor
  · rintro (absorbed | undecided)
    · obtain ⟨rfl, missing⟩ := absorbed_cons.mp absorbed
      simp [Evaluated.truthy, missing, Value.isTruthy, decisive]
    · exact undecided first List.mem_cons_self
  · intro undecided
    exact .inr (by simpa using undecided)

theorem answer_bool (b : Bool) (memory : Memory) :
    kind.answer (⟨.bool b, memory⟩ :: values) = .bool (kind.holds (⟨.bool b, memory⟩ :: values)) := by
  cases values with
  | nil => cases kind <;> simp [answer, holds, truthy_bool]
  | cons second rest => rfl

theorem answer_empty (memory : Memory) : kind.answer (⟨.empty, memory⟩ :: values) = .empty := by
  cases values <;> rfl

theorem holds_concat (undecided : ∀ operand ∈ values, operand.truthy ≠ kind.decisive) :
    kind.holds (values ++ [operand]) = operand.truthy := by
  cases kind with
  | arithmetic | conjunction =>
    have all : values.all Evaluated.truthy = true := by simpa [decisive] using undecided
    simp [holds, all]
  | disjunction =>
    have none : values.any Evaluated.truthy = false := by simpa [decisive] using undecided
    simp [holds, none]

theorem send_word_bool (b : Bool) (value : Value) (memory : Memory) :
    (Value.bool b).send kind.word [value] memory =
      (.ok (.bool (if kind = disjunction then b || value.isTruthy memory else b && value.isTruthy memory)),
        memory) := by
  cases kind <;> rfl

theorem send_word_empty (value : Value) (memory : Memory) :
    Value.empty.send kind.word [value] memory = (.ok .empty, memory) := by
  cases kind <;> rfl

theorem send_word_unknown (unknown : ¬ first.Takes) (value : Value) (memory : Memory) :
    first.value.send kind.word [value] memory =
      (.error (.messageNotFound kind.word first.value.variant), memory) := by
  obtain ⟨receiver, before⟩ := first
  cases receiver with
  | bool b => exact absurd (.bool b before) unknown
  | empty => exact absurd (.empty before) unknown
  | _ => cases kind <;> rfl

theorem send_answer (takes : first.Takes) (value : Value) (memory : Memory) :
    (kind.answer (first :: values)).send kind.word [value] memory =
      (.ok (kind.answer (first :: values ++ [⟨value, memory⟩])), memory) := by
  cases takes with
  | empty before => rw [List.cons_append, answer_empty, answer_empty, send_word_empty]
  | bool b before =>
    rw [List.cons_append, answer_bool, answer_bool, send_word_bool]
    cases kind <;> simp [holds, Evaluated.truthy, Bool.and_assoc, Bool.or_assoc]

/-- The value so far is as truthy as the last operand, as long as the operands before it leave the fold open. -/
theorem truthy_answer (takes : first.Takes) (onward : kind.Open (first :: values)) (memory : Memory) :
    (kind.answer (first :: values ++ [operand])).isTruthy memory = kind.decisive ↔
      ¬ kind.Open (first :: values ++ [operand]) := by
  rw [open_concat onward (List.cons_ne_nil _ _)]
  cases takes with
  | empty before =>
    -- Missing data would have decided an `and`.
    have absorbed : kind.Absorbed (⟨.empty, before⟩ :: values) := by
      refine onward.elim id fun undecided => absorbed_cons.mpr ⟨?_, rfl⟩
      have here := undecided _ List.mem_cons_self
      cases kind <;> simp [truthy_empty, decisive] at here ⊢
    obtain ⟨rfl, -⟩ := absorbed_cons.mp absorbed
    simp [answer_empty, absorbed, Value.isTruthy, decisive]
  | bool b before =>
    have free : ¬ kind.Absorbed (⟨.bool b, before⟩ :: values) := fun absorbed => by
      simpa using (absorbed_cons.mp absorbed).2
    have undecided := onward.resolve_left free
    rw [List.cons_append, answer_bool, ← List.cons_append, holds_concat undecided]
    simp [free, Value.isTruthy]

end Values

namespace EndsAfter

variable {kind : Fold} {eval : Evaluator} {scope : ScopeId} {machine later : Machine} {prior more : List Evaluated}
  {remaining : List Instruction} {after : List Machine} {outcome : Except Failure Flow}

/-- Operands are evaluated only as long as those before them leave the fold open. -/
theorem open_prior (ends : EndsAfter kind eval scope (prior ++ more) machine remaining after later outcome)
    (some : prior ≠ []) (others : more ≠ []) : kind.Open prior := by
  cases ends with
  | answered _ onward =>
    rw [List.dropLast_append_of_ne_nil others] at onward
    exact open_append some onward
  | refused two onward =>
    cases prior with
    | nil => exact absurd rfl some
    | cons first rest =>
      obtain ⟨rfl, tail⟩ := List.cons_eq_cons.mp two
      rcases List.append_eq_singleton_iff.mp tail with ⟨rfl, -⟩ | ⟨-, rfl⟩
      · exact onward
      · exact absurd rfl others
  | interrupted _ onward => exact open_append some onward

/-- Nothing is evaluated after the operand that the first one does not take. -/
theorem refused_of_not_takes {first second : Evaluated} (unknown : ¬ first.Takes)
    (ends : EndsAfter kind eval scope (first :: second :: more) machine remaining after later outcome) :
    more = [] ∧ after = [] ∧ later = machine ∧
      outcome = .error (.messageNotFound kind.word first.value.variant) := by
  cases ends with
  | answered _ _ taken => exact absurd (taken (by simp) first rfl) unknown
  | refused two =>
    cases two
    exact ⟨rfl, rfl, rfl, rfl⟩
  | interrupted _ _ taken => exact absurd (taken (by simp) first rfl) unknown

end EndsAfter

end Fold

/-! ## Operands -/

section Runs

variable {clock : Clock} {eval : Evaluator} {scope : ScopeId} {machine later : Machine} {resumed : List Machine}
  {outcome : Except Failure Flow}

theorem Evaluator.endsIn_valueOf {part : Instruction} {next : Value → Run Flow} :
    (valueOf eval part scope next machine).EndsIn resumed later outcome ↔
      ((eval part scope machine).EndsIn resumed later outcome ∧ interrupts outcome = true) ∨
      ∃ before after middle flow, resumed = before ++ after ∧
        (eval part scope machine).EndsIn before middle (.ok flow) ∧ flow ≠ .stop ∧
        (next flow.toValue middle).EndsIn after later outcome := by
  refine Run.endsIn_bind.trans ?_
  constructor
  · rintro (⟨failure, ends, rfl⟩ | ⟨before, after, middle, flow, rfl, ends, rest⟩)
    · exact .inl ⟨ends, rfl⟩
    · cases flow with
      | stop =>
        obtain ⟨rfl, rfl, rfl⟩ : after = [] ∧ later = middle ∧ outcome = .ok .stop := Poll.endsIn_done.mp rest
        exact .inl ⟨by simpa using ends, rfl⟩
      | nothing | value v => exact .inr ⟨before, after, middle, _, rfl, ends, by simp, rest⟩
  · rintro (⟨ends, stops⟩ | ⟨before, after, middle, flow, rfl, ends, goes, rest⟩)
    · rcases outcome with failure | flow
      · exact .inl ⟨failure, ends, rfl⟩
      · cases flow with
        | stop => exact .inr ⟨resumed, [], later, .stop, by simp, ends, Poll.endsIn_done.mpr ⟨rfl, rfl, rfl⟩⟩
        | nothing | value v => cases stops
    · refine .inr ⟨before, after, middle, flow, rfl, ends, ?_⟩
      cases flow with
      | stop => exact absurd rfl goes
      | nothing | value v => exact rest

theorem Evaluator.foldTruth_cons {decisive : Bool} {total : Value} {operator : String} {part : Instruction}
    {rest : List (String × Instruction)} {message : Message} (known : Message.logical? operator = some message) :
    foldTruth eval decisive scope total ((operator, part) :: rest) machine =
      if total.isTruthy machine.memory = decisive then .done machine (.ok (.value total))
      else valueOf eval part scope (fun value => do
        foldTruth eval decisive scope (← Run.action (total.send message [value])) rest) machine := by
  rw [foldTruth, known]
  change (if total.isTruthy machine.memory = decisive then pure (.value total)
    else valueOf eval part scope fun value => do
      foldTruth eval decisive scope (← Run.action (total.send message [value])) rest : Run Flow) machine = _
  split <;> rfl

end Runs

namespace Fold

section Continues

variable {kind : Fold} {eval : Evaluator} {scope : ScopeId} {machine later : Machine} {prior earlier : List Evaluated}
  {first : Evaluated} {part : Instruction} {parts : List Instruction} {resumed : List Machine}
  {outcome : Except Failure Flow}

def Continues (kind : Fold) (eval : Evaluator) (scope : ScopeId) (prior : List Evaluated) (parts : List Instruction)
    (machine : Machine) (resumed : List Machine) (later : Machine) (outcome : Except Failure Flow) : Prop :=
  ∃ done remaining values before middle after, parts = done ++ remaining ∧ resumed = before ++ after ∧
    eval.InTurn scope machine done before values middle ∧
    EndsAfter kind eval scope (prior ++ values) middle remaining after later outcome

/-- A fold that has come to a machine with some operands, none of which the first one has refused. -/
structure Ready (kind : Fold) (prior : List Evaluated) (machine : Machine) : Prop where
  some : prior ≠ []
  onward : kind.Open prior.dropLast
  taken : Taken prior
  tells : (kind.answer prior).isTruthy machine.memory = kind.decisive ↔ ¬ kind.Open prior

theorem Ready.single (value : Value) : kind.Ready [⟨value, machine.memory⟩] machine where
  some := List.cons_ne_nil _ _
  onward := open_nil
  taken two := by simp at two
  tells := by
    rw [open_single, not_not]
    rfl

theorem Ready.concat (takes : first.Takes) (onward : kind.Open (first :: earlier)) (operand : Evaluated) :
    kind.Ready (first :: earlier ++ [operand]) machine where
  some := by simp
  onward := by rwa [List.dropLast_concat]
  taken _ head member := by
    obtain rfl : first = head := by simpa using member
    exact takes
  tells := truthy_answer takes onward machine.memory

theorem Ready.continues_complete (ready : kind.Ready prior machine) (complete : parts = [] ∨ ¬ kind.Open prior) :
    kind.Continues eval scope prior parts machine resumed later outcome ↔
      resumed = [] ∧ later = machine ∧ outcome = .ok (.value (kind.answer prior)) := by
  constructor
  · rintro ⟨done, remaining, values, before, middle, after, rfl, rfl, turns, ends⟩
    cases turns with
    | none =>
      rw [List.append_nil] at ends
      cases ends with
      | answered => exact ⟨rfl, rfl, rfl⟩
      | refused two _ unknown =>
        have taken := ready.taken
        rw [two] at taken
        exact absurd (taken (by simp) _ rfl) unknown
      | interrupted next onward => exact absurd onward (complete.resolve_left (by simp [next]))
    | cons =>
      have onward := ends.open_prior ready.some (List.cons_ne_nil _ _)
      exact absurd onward (complete.resolve_left (by simp))
  · rintro ⟨rfl, rfl, rfl⟩
    refine ⟨[], parts, [], [], later, [], rfl, rfl, .none _, ?_⟩
    rw [List.append_nil]
    exact .answered ready.some ready.onward ready.taken complete

theorem continues_cons (onward : kind.Open prior) (takes : ∀ first ∈ prior.head?, first.Takes) :
    kind.Continues eval scope prior (part :: parts) machine resumed later outcome ↔
      ((eval part scope machine).EndsIn resumed later outcome ∧ Evaluator.interrupts outcome = true) ∨
      ∃ before after middle flow, resumed = before ++ after ∧
        (eval part scope machine).EndsIn before middle (.ok flow) ∧ flow ≠ .stop ∧
        kind.Continues eval scope (prior ++ [⟨flow.toValue, middle.memory⟩]) parts middle after later outcome := by
  constructor
  · rintro ⟨done, remaining, values, before, middle, after, split, rfl, turns, ends⟩
    cases turns with
    | none =>
      -- No other operand is evaluated, so the fold ends here; only this one can have interrupted it.
      obtain rfl : part :: parts = remaining := split
      rw [List.append_nil] at ends
      cases ends with
      | answered _ _ _ complete => exact absurd onward (complete.resolve_left (by simp))
      | refused two _ unknown =>
        rw [two] at takes
        exact absurd (takes _ rfl) unknown
      | interrupted next _ _ ends stops =>
        cases next
        exact .inl ⟨ends, stops⟩
    | cons here goes rest =>
      obtain ⟨rfl, rfl⟩ := List.cons_eq_cons.mp split
      rw [List.append_cons] at ends
      exact .inr ⟨_, _, _, _, List.append_assoc _ _ _, here, goes, _, _, _, _, _, _, rfl, rfl, rest, ends⟩
  · rintro (⟨ends, stops⟩ | ⟨_, _, middle, flow, rfl, here, goes, done, remaining, values, before, last, after,
      rfl, rfl, turns, ends⟩)
    · refine ⟨[], part :: parts, [], [], machine, resumed, rfl, rfl, .none _, ?_⟩
      rw [List.append_nil]
      exact .interrupted rfl onward (fun _ => takes) ends stops
    · refine ⟨part :: done, remaining, _, _, last, after, rfl, (List.append_assoc ..).symm, .cons here goes turns, ?_⟩
      rwa [List.append_cons]

theorem continues_refused (onward : kind.Open [first]) (unknown : ¬ first.Takes) :
    kind.Continues eval scope [first] (part :: parts) machine resumed later outcome ↔
      ((eval part scope machine).EndsIn resumed later outcome ∧ Evaluator.interrupts outcome = true) ∨
      ∃ before after middle flow, resumed = before ++ after ∧
        (eval part scope machine).EndsIn before middle (.ok flow) ∧ flow ≠ .stop ∧ after = [] ∧ later = middle ∧
        outcome = .error (.messageNotFound kind.word first.value.variant) := by
  constructor
  · rintro ⟨done, remaining, values, before, middle, after, split, rfl, turns, ends⟩
    cases turns with
    | none =>
      obtain rfl : part :: parts = remaining := split
      cases ends with
      | answered _ _ _ complete => exact absurd onward (complete.resolve_left (by simp))
      | refused two => simp at two
      | interrupted next _ _ ends stops =>
        cases next
        exact .inl ⟨ends, stops⟩
    | cons here goes rest =>
      obtain ⟨rfl, rfl⟩ := List.cons_eq_cons.mp split
      -- With two operands the fold has been refused, and cannot have gone on.
      obtain ⟨rfl, rfl, rfl, rfl⟩ := ends.refused_of_not_takes unknown
      cases rest
      exact .inr ⟨_, [], _, _, by simp, here, goes, rfl, rfl, rfl⟩
  · rintro (⟨ends, stops⟩ | ⟨before, after, middle, flow, rfl, here, goes, rfl, rfl, rfl⟩)
    · refine ⟨[], part :: parts, [], [], machine, resumed, rfl, rfl, .none _, ?_⟩
      exact .interrupted rfl onward (fun two => by simp at two) ends stops
    · refine ⟨[part], parts, _, before ++ [], _, [], rfl, by simp, .cons here goes (.none _), ?_⟩
      exact .refused rfl onward unknown

end Continues

section Runs

variable {kind : Fold} {clock : Clock} {eval : Evaluator} {scope : ScopeId} {machine later : Machine}
  {resumed : List Machine} {outcome : Except Failure Flow} {first : Evaluated} {earlier : List Evaluated}
  {rest : List (String × Instruction)}

theorem foldTruth_sent (takes : first.Takes) (value : Value) :
    (do Evaluator.foldTruth eval kind.decisive scope
          (← Run.action ((kind.answer (first :: earlier)).send kind.word [value])) rest : Run Flow) machine =
      Evaluator.foldTruth eval kind.decisive scope
        (kind.answer (first :: earlier ++ [⟨value, machine.memory⟩])) rest machine := by
  rw [Run.bind_apply, Run.action_apply, send_answer takes]
  rfl

theorem foldTruth_refused (unknown : ¬ first.Takes) (value : Value) :
    (do Evaluator.foldTruth eval kind.decisive scope
          (← Run.action ((kind.answer [first]).send kind.word [value])) rest : Run Flow) machine =
      .done machine (.error (.messageNotFound kind.word first.value.variant)) := by
  rw [Run.bind_apply, Run.action_apply, answer, send_word_unknown unknown]
  rfl

/-- A fold that has taken some operands goes on with the others. -/
theorem foldTruth_iff {prior : List Evaluated} (known : ∀ pair ∈ rest, Message.logical? pair.1 = some kind.word)
    (ready : kind.Ready prior machine) :
    (Evaluator.foldTruth eval kind.decisive scope (kind.answer prior) rest machine).EndsIn resumed later outcome ↔
      kind.Continues eval scope prior (rest.map Prod.snd) machine resumed later outcome := by
  induction rest generalizing prior machine resumed with
  | nil => exact Poll.endsIn_done.trans (ready.continues_complete (.inl rfl)).symm
  | cons pair rest ih =>
    obtain ⟨operator, part⟩ := pair
    have others := fun pair member => known pair (List.mem_cons_of_mem _ member)
    rw [Evaluator.foldTruth_cons (known _ List.mem_cons_self), List.map_cons]
    by_cases decided : (kind.answer prior).isTruthy machine.memory = kind.decisive
    · rw [if_pos decided]
      exact Poll.endsIn_done.trans (ready.continues_complete (.inr (ready.tells.mp decided))).symm
    · have onward : kind.Open prior := not_not.mp (mt ready.tells.mpr decided)
      rw [if_neg decided]
      refine Evaluator.endsIn_valueOf.trans ?_
      obtain ⟨first, earlier, rfl⟩ := List.exists_cons_of_ne_nil ready.some
      -- An open fold evaluates the next operand, whatever comes of it.
      by_cases takes : first.Takes
      · rw [continues_cons onward (by simpa using takes)]
        simp only [foldTruth_sent takes, ih others (.concat takes onward _)]
      · -- One operand that takes no message: there cannot be others before it.
        obtain rfl : earlier = [] := by
          by_contra more
          have two : 2 ≤ (first :: earlier).length := by
            have := List.length_pos_iff.mpr more
            simp only [List.length_cons]
            omega
          exact takes (ready.taken two first rfl)
        rw [continues_refused onward takes]
        simp only [foldTruth_refused takes, Poll.endsIn_done]

end Runs

section Truth

variable {kind : Fold} {values : List Evaluated} {remaining : List Instruction}

theorem logical?_of_mem_operators {operator : String} (logical : kind ≠ arithmetic)
    (member : operator ∈ kind.operators) : Message.logical? operator = some kind.word := by
  cases kind with
  | arithmetic => exact absurd rfl logical
  | conjunction | disjunction =>
    simp only [operators, List.mem_cons, List.not_mem_nil, or_false] at member
    rcases member with rfl | rfl <;> rfl

theorem undecided_of_open (free : ¬ kind.Absorbed values) (onward : kind.Open values.dropLast) :
    ∀ operand ∈ values.dropLast, operand.truthy ≠ kind.decisive := by
  rcases onward with absorbed | undecided
  · rcases List.eq_nil_or_concat values with rfl | ⟨front, last, rfl⟩
    · exact List.forall_mem_nil _
    · rw [List.concat_eq_append, List.dropLast_concat] at absorbed
      rw [List.concat_eq_append] at free
      have some : front ≠ [] := by
        rintro rfl
        simp [Absorbed] at absorbed
      exact absurd ((absorbed_append some).mpr absorbed) free
  · exact undecided

theorem decided_of_not_open (some : values ≠ [])
    (undecided : ∀ operand ∈ values.dropLast, operand.truthy ≠ kind.decisive)
    (closed : ¬ kind.Open values) : ∃ operand ∈ values.getLast?, operand.truthy = kind.decisive := by
  obtain ⟨front, last, rfl⟩ := (List.eq_nil_or_concat values).resolve_left some
  rw [List.concat_eq_append] at closed undecided ⊢
  rw [List.dropLast_concat] at undecided
  refine ⟨last, by simp, ?_⟩
  by_contra other
  refine closed (.inr fun operand member => ?_)
  rcases List.mem_append.mp member with before | here
  · exact undecided operand before
  · obtain rfl : operand = last := by simpa using here
    exact other

/-- The answer of a fold is as truthy as its operands together, unless missing data takes them in. -/
theorem truthy_answer_eq (free : ¬ kind.Absorbed values) (some : values ≠ []) (onward : kind.Open values.dropLast)
    (taken : Taken values) {memory : Memory} (single : ∀ only, values = [only] → only.memory = memory) :
    (kind.answer values).isTruthy memory = kind.holds values := by
  match values with
  | [] => exact absurd rfl some
  | [only] =>
    rw [← single only rfl]
    cases kind <;> simp [answer, holds, Evaluated.truthy]
  | first :: second :: rest =>
    cases taken (by simp) first rfl with
    | bool b before =>
      rw [answer_bool]
      rfl
    | empty before =>
      -- Missing data has decided an `and`, and takes in the operands of an `or`.
      have here := undecided_of_open free onward ⟨.empty, before⟩ (by simp)
      cases kind <;> simp [truthy_empty, decisive, Absorbed] at here free

end Truth

end Fold

theorem Evaluator.InTurn.memory_of_single {eval : Evaluator} {scope : ScopeId} {machine later : Machine}
    {parts : List Instruction} {resumed : List Machine} {only : Evaluated}
    (turn : eval.InTurn scope machine parts resumed [only] later) : only.memory = later.memory := by
  cases turn with
  | cons first goes rest =>
    cases rest
    rfl

/-- How an `and` or an `or` ends. Its operands are evaluated from left to right, up to and including the first one that
decides it, and none after it. If they give an answer, that is truthy if all of them are, or one of them; only an `or`
whose first operand is missing data takes in all of them and answers missing data.

A fold ends early if an operand fails or breaks, or if the first one takes no logical message: that is found out once
the second has been evaluated. -/
theorem fold_logical {kind : Fold} (logical : kind ≠ .arithmetic) {clock : Clock} {depth : Nat} {first : Instruction}
    {rest : List (String × Instruction)} (operators : ∀ pair ∈ rest, pair.1 ∈ kind.operators) {scope : ScopeId}
    {machine later : Machine} {resumed : List Machine} (outcome : Except Failure Flow) :
    ((evaluate clock (depth + 1) (.fold kind first rest) scope machine).EndsIn resumed later outcome ↔
      kind.Continues (evaluate clock depth) scope [] (first :: rest.map Prod.snd) machine resumed later outcome) ∧
    ∀ answer, outcome = .ok (.value answer) →
      (evaluate clock (depth + 1) (.fold kind first rest) scope machine).EndsIn resumed later outcome →
      ∃ done remaining values, first :: rest.map Prod.snd = done ++ remaining ∧
        (evaluate clock depth).InTurn scope machine done resumed values later ∧ values ≠ [] ∧
        (kind.Absorbed values → remaining = [] ∧ answer = .empty) ∧
        (¬ kind.Absorbed values →
          (∀ operand ∈ values.dropLast, operand.truthy ≠ kind.decisive) ∧
          (remaining = [] ∨ ∃ operand ∈ values.getLast?, operand.truthy = kind.decisive) ∧
          answer.isTruthy later.memory = kind.holds values) := by
  have known := fun pair member => Fold.logical?_of_mem_operators logical (operators pair member)
  have goes : (evaluate clock (depth + 1) (.fold kind first rest) scope machine).EndsIn resumed later outcome ↔
      kind.Continues (evaluate clock depth) scope [] (first :: rest.map Prod.snd) machine resumed later outcome := by
    have rule : evaluate clock (depth + 1) (.fold kind first rest) scope =
        Evaluator.valueOf (evaluate clock depth) first scope fun value =>
          Evaluator.foldTruth (evaluate clock depth) kind.decisive scope value rest := by
      cases kind with
      | arithmetic => exact absurd rfl logical
      | conjunction | disjunction => rfl
    -- The first operand is taken like any other, by a fold that has taken none.
    have one : ∀ value (middle : Machine) (after : List Machine),
        (Evaluator.foldTruth (evaluate clock depth) kind.decisive scope value rest middle).EndsIn after later outcome ↔
          kind.Continues (evaluate clock depth) scope ([] ++ [⟨value, middle.memory⟩]) (rest.map Prod.snd) middle after
            later outcome := fun value middle after => Fold.foldTruth_iff known (.single value)
    rw [rule, Fold.continues_cons Fold.open_nil (by simp)]
    refine Evaluator.endsIn_valueOf.trans ?_
    simp only [one]
  refine ⟨goes, ?_⟩
  rintro answer rfl ends
  obtain ⟨done, remaining, values, before, middle, after, parts, rfl, turns, ends⟩ := goes.mp ends
  rw [List.nil_append] at ends
  -- A fold with an answer was neither refused nor interrupted.
  cases ends with
  | answered some onward taken complete =>
    refine ⟨done, remaining, values, parts, by simpa using turns, some, fun absorbed => ⟨?_, ?_⟩, fun free => ?_⟩
    · exact complete.resolve_right (not_not.mpr (.inl absorbed))
    · obtain ⟨-, head, member, missing⟩ := absorbed
      obtain ⟨value, memory⟩ := head
      obtain ⟨others, rfl⟩ := List.head?_eq_some_iff.mp member
      subst missing
      exact Fold.answer_empty memory
    · have undecided := Fold.undecided_of_open free onward
      refine ⟨undecided, complete.imp_right (Fold.decided_of_not_open some undecided), ?_⟩
      refine Fold.truthy_answer_eq free some onward taken fun only same => ?_
      subst same
      exact turns.memory_of_single
  | interrupted _ _ _ _ stops => cases stops

/-- The third operand is not truthy and decides, so the break after it is not seen. -/
theorem fold_logical_decided :
    let parts : List Instruction := [.truth true, .text "a", .truth false, .stop]
    let clock : Clock := ⟨"2024-01-01", none⟩
    let machine : Machine := ⟨.empty, .ofDocument .null⟩
    (evaluate clock 2 (.fold .conjunction (.truth true) [("and", .text "a"), ("&&", .truth false), ("and", .stop)]) ⟨0⟩
      machine).EndsIn [] machine (.ok (.value (.bool false))) ∧
    ∃ done remaining values, parts = done ++ remaining ∧ (evaluate clock 1).InTurn ⟨0⟩ machine done [] values machine ∧
      (∀ operand ∈ values.dropLast, operand.truthy ≠ false) ∧ Fold.conjunction.holds values = false := by
  intro parts clock machine
  have ends : (evaluate clock 2
      (.fold .conjunction (.truth true) [("and", .text "a"), ("&&", .truth false), ("and", .stop)]) ⟨0⟩ machine).EndsIn
      [] machine (.ok (.value (.bool false))) := .done _ _
  have operators : ∀ pair ∈ [("and", Instruction.text "a"), ("&&", .truth false), ("and", .stop)],
      pair.1 ∈ Fold.conjunction.operators := by simp [Fold.operators]
  obtain ⟨done, remaining, values, split, turns, -, -, free⟩ := (fold_logical (by simp) operators _).2 _ rfl ends
  obtain ⟨undecided, -, truth⟩ := free (by simp [Fold.Absorbed])
  exact ⟨ends, done, remaining, values, split, turns, undecided, truth.symm⟩

/-- After missing data an `or` is not truthy though its second operand is, and it comes to a break behind that. -/
theorem fold_missing_first :
    let missing : Instruction := .access .get [.scope, .text "missing"]
    let clock : Clock := ⟨"2024-01-01", none⟩
    let machine : Machine := ⟨⟨#[.blank], []⟩, .ofDocument .null⟩
    (evaluate clock 3).InTurn ⟨0⟩ machine [missing, .truth true] []
      [⟨.empty, machine.memory⟩, ⟨.bool true, machine.memory⟩] machine ∧
    (Value.bool true).isTruthy machine.memory = true ∧
    (evaluate clock 4 (.fold .disjunction missing [("or", .truth true)]) ⟨0⟩ machine).EndsIn [] machine
      (.ok (.value .empty)) ∧
    Value.empty.isTruthy machine.memory = false ∧
    (evaluate clock 4 (.fold .disjunction missing [("or", .truth true), ("or", .stop)]) ⟨0⟩ machine).EndsIn [] machine
      (.ok .stop) := by
  intro missing clock machine
  have first : (evaluate clock 3 missing ⟨0⟩ machine).EndsIn [] machine (.ok (.value .empty)) := .done _ _
  have second : (evaluate clock 3 (.truth true) ⟨0⟩ machine).EndsIn [] machine (.ok (.value (.bool true))) := .done _ _
  exact ⟨.cons first (by simp) (.cons second (by simp) (.none _)), rfl, .done _ _, rfl, .done _ _⟩

end RuleScript
