import RuleScript.Proofs.Run.Mirroring

/-! Members of a literal beside the same members one after another.

The members of a process move in any order, and the run has them in turn. All that they do is quiet, so each keeps to
its own turn of the run, whatever the others do meanwhile; and the machine at the end of all is abreast of the machine
after the last turn.
-/

set_option autoImplicit false

namespace RuleScript

open Process

theorem Poll.done_of_map {σ α β : Type} {poll : Poll σ α} {f : α → β} {state : σ} {result : β}
    (ended : poll.map f = .done state result) : ∃ first, poll = .done state first ∧ result = f first := by
  cases poll with
  | done middle first =>
    cases ended
    exact ⟨first, rfl, rfl⟩
  | waiting | exhausted => cases ended

theorem Task.all_done {σ α : Type} {tasks : List (Task σ α)} {state final : σ} {results : List α}
    (ended : Task.all tasks state = .done final results) :
    results.length = tasks.length ∧ ∃ states : Nat → σ, states 0 = state ∧ states tasks.length = final ∧
      ∀ (i : Nat) (task : Task σ α), tasks[i]? = some task →
        ∃ result, results[i]? = some result ∧ task (states i) = .done (states (i + 1)) result := by
  induction tasks generalizing state results with
  | nil =>
    cases ended
    exact ⟨rfl, fun _ => final, rfl, rfl, fun i task here => by cases here⟩
  | cons first rest ih =>
    unfold Task.all at ended
    obtain ⟨⟨result, others⟩, both, rfl⟩ := Poll.done_of_map ended
    cases ran : first state with
    | exhausted =>
      rw [ran] at both
      cases both
    | waiting middle resume =>
      rw [ran, Poll.both] at both
      -- A group with a member that waits does not end.
      split at both <;> cases both
    | done middle value =>
      rw [ran, Poll.both] at both
      obtain ⟨others, rest, same⟩ := Poll.done_of_map both
      cases same
      obtain ⟨length, states, start, stop, each⟩ := ih rest
      refine ⟨congrArg (· + 1) length, fun i => i.casesOn state states, rfl, stop, fun i task here => ?_⟩
      cases i with
      | zero =>
        cases here
        rw [← start] at ran
        exact ⟨_, rfl, ran⟩
      | succ i => exact each i task here

variable {outer : Option ScopeId} {scope : ScopeId} {count : Nat} {start machine later : Machine}
  {before history : History} {histories : Nat → History}

/-- What the members of a literal have done so far, each by itself and all together, since a start. -/
structure Gathered (outer : Option ScopeId) (scope : ScopeId) (count : Nat) (start : Machine) (before : History)
    (histories : Nat → History) (history : History) (machine : Machine) : Prop where
  grows : start.memory.Grows machine.memory
  since : ∀ place, before.made place → history.made place
  made : ∀ i place, (histories i).made place → history.made place ∧ machine.memory.cell? place ≠ none
  apart : ∀ i j place, (histories i).made place → (histories j).made place → i = j
  idle : ∀ i, (histories i).captured → i < count
  captured : history.captured ↔ before.captured ∨ ∃ i, (histories i).captured
  arena : ∃ captured, Arena.Captures captured scope start.arena machine.arena ∧
    (outer = none → (captured ↔ ∃ i, (histories i).captured))

namespace Gathered

theorem begin (outer : Option ScopeId) (scope : ScopeId) (count : Nat) (machine : Machine) (history : History) :
    Gathered outer scope count machine history (fun _ => History.start) history machine where
  grows := .refl _
  since _ := id
  made _ _ := False.elim
  apart _ _ _ := False.elim
  idle _ := False.elim
  captured := by simp [History.start]
  arena := ⟨False, .refl _ _, fun _ => by simp [History.start]⟩

theorem meanwhile (gathered : Gathered outer scope count start before histories history machine)
    (among : ∀ shared, outer = some shared → shared = scope) (passes : Meanwhile outer machine later) :
    Gathered outer scope count start before histories history later := by
  cases outer with
  | none =>
    cases passes
    exact gathered
  | some shared =>
    obtain rfl := among shared rfl
    obtain ⟨captured, grows, arena⟩ := passes
    obtain ⟨so, captures, -⟩ := gathered.arena
    refine { gathered with grows := gathered.grows.trans grows, made := fun i place made => ?_, arena := ?_ }
    · exact ⟨(gathered.made i place made).1, fun absent => (gathered.made i place made).2 (grows.none absent)⟩
    · exact ⟨so ∨ captured, captures.trans arena, fun none => nomatch none⟩

theorem step (gathered : Gathered outer scope count start before histories history machine) {i : Nat}
    (bound : i < count) {captured : Prop} (quiet : machine.Quiet scope captured later) :
    Gathered outer scope count start before
      (Function.update histories i ((histories i).after captured machine.memory later.memory))
      (history.after captured machine.memory later.memory) later := by
  -- What a member has made is old, or it is this member and the place is new.
  have cases : ∀ j place, (Function.update histories i
      ((histories i).after captured machine.memory later.memory) j).made place →
      (histories j).made place ∨ j = i ∧ machine.memory.cell? place = none ∧ later.memory.cell? place ≠ none := by
    intro j place made
    by_cases same : j = i
    · subst same
      rw [Function.update_self] at made
      exact made.imp_right fun new => ⟨rfl, new⟩
    · rw [Function.update_of_ne same] at made
      exact .inl made
  have captures : (∃ j, (Function.update histories i
      ((histories i).after captured machine.memory later.memory) j).captured) ↔
      (∃ j, (histories j).captured) ∨ captured := by
    constructor
    · rintro ⟨j, held⟩
      by_cases same : j = i
      · subst same
        rw [Function.update_self] at held
        exact held.imp_left fun old => ⟨j, old⟩
      · rw [Function.update_of_ne same] at held
        exact .inl ⟨j, held⟩
    · rintro (⟨j, held⟩ | now)
      · refine ⟨j, ?_⟩
        by_cases same : j = i
        · subst same
          rw [Function.update_self]
          exact .inl held
        · rwa [Function.update_of_ne same]
      · refine ⟨i, ?_⟩
        rw [Function.update_self]
        exact .inr now
  refine ⟨gathered.grows.trans quiet.grows, fun place made => .inl (gathered.since place made),
    fun j place made => ?_, fun j k place first second => ?_, fun j held => ?_, ?_, ?_⟩
  · rcases cases j place made with old | ⟨-, new⟩
    · obtain ⟨known, there⟩ := gathered.made j place old
      exact ⟨.inl known, fun absent => there (quiet.grows.none absent)⟩
    · exact ⟨.inr new, new.2⟩
  · rcases cases j place first with old | ⟨rfl, new, -⟩
    · rcases cases k place second with older | ⟨rfl, new, -⟩
      · exact gathered.apart j k place old older
      · exact absurd new (gathered.made j place old).2
    · rcases cases k place second with old | ⟨rfl, -⟩
      · exact absurd new (gathered.made k place old).2
      · rfl
  · by_cases same : j = i
    · exact same ▸ bound
    · rw [Function.update_of_ne same] at held
      exact gathered.idle j held
  · change history.captured ∨ captured ↔ _
    rw [captures, gathered.captured, or_assoc]
  · obtain ⟨so, arena, alone⟩ := gathered.arena
    refine ⟨so ∨ captured, arena.trans quiet.arena, fun none => ?_⟩
    rw [captures, alone none]

end Gathered

/-! ## Members in any order -/

namespace Process

variable {clock : Clock} {literal : Literal} {posts : Nat → History → Machine → Except Failure Flow → Prop}
  {post : History → Machine → Except Failure Flow → Prop}

theorem outcomes_of_move {members : List Process} {move : Move}
    (moves : (together literal members).move clock machine = some move) :
    ∃ outcomes : List (Except Failure Flow), members = outcomes.map .finished := by
  obtain ⟨outcomes, ended, -⟩ := Option.map_eq_some_iff.mp moves
  exact ⟨outcomes, members_of_outcomes ended⟩

/-- A literal attains what its members attain by themselves, whatever the others do. -/
theorem Attains.together (among : ∀ shared, outer = some shared → shared = scope) {steps : Nat}
    {members : List Process} (enough : members.length ≤ count)
    (attains : ∀ (i : Nat) (member : Process), members[i]? = some member →
      member.Attains clock (some scope) (posts i) steps (histories i) machine)
    (gathered : Gathered outer scope count start before histories history machine)
    (rest : ∀ histories history machine (outcomes : List (Except Failure Flow)),
      Gathered outer scope count start before histories history machine → outcomes.length = members.length →
      (∀ (i : Nat) outcome, outcomes[i]? = some outcome → posts i (histories i) machine outcome) →
      ∀ steps, Attains clock outer post steps history machine (.together literal (outcomes.map .finished))) :
    Attains clock outer post steps history machine (.together literal members) := by
  induction steps generalizing histories history machine members with
  | zero => trivial
  | succ steps ih =>
    by_cases ended : ∃ outcomes : List (Except Failure Flow), members = outcomes.map .finished
    · -- All members have ended, so the literal is what `rest` is about.
      obtain ⟨outcomes, rfl⟩ := ended
      refine rest histories history machine outcomes gathered (by simp) (fun i outcome here => ?_) _
      exact (attains i (.finished outcome) (by simp [here]) machine (.refl _ _)).1 outcome rfl
    · intro resumed passes
      refine ⟨fun outcome same => (nomatch same), fun next later step => ?_⟩
      have others : Meanwhile (some scope) machine resumed := by
        cases outer with
        | none =>
          cases passes
          exact .refl _ _
        | some shared =>
          obtain rfl := among shared rfl
          exact passes
      have gathered := gathered.meanwhile among passes
      cases step with
      | move _ applied =>
        obtain ⟨move, moves, -⟩ := Option.bind_eq_some_iff.mp applied
        exact absurd (outcomes_of_move moves) ended
      | @member _ front back member moved _ _ step =>
        have here : (front ++ member :: back)[front.length]? = some member := by simp
        obtain ⟨captured, allowed, onward⟩ := (attains front.length member here resumed others).2 moved later step
        have quiet := allowed scope rfl
        refine ⟨captured, fun shared same => among shared same ▸ quiet, ?_⟩
        have bound : front.length < count := Nat.lt_of_lt_of_le (by simp) enough
        refine ih (by simpa using enough) (fun i other there => ?_) (gathered.step bound quiet) (by simpa using rest)
        -- The member that has moved goes on from its step; to the others the step is one of those taken meanwhile.
        by_cases same : i = front.length
        · subst same
          obtain rfl : moved = other := by simpa using there
          rw [Function.update_self]
          exact onward
        · rw [Function.update_of_ne same]
          have before : (front ++ member :: back)[i]? = some other := by
            rw [List.getElem?_append] at there ⊢
            split at there
            · rename_i less
              rwa [if_pos less]
            · rename_i less
              rw [if_neg less]
              obtain ⟨k, more⟩ : ∃ k, i - front.length = k + 1 := ⟨i - front.length - 1, by omega⟩
              rw [more] at there ⊢
              exact there
          exact ((attains i other before).meanwhile (others.trans ⟨captured, quiet⟩)).pred

end Process

def Surroundings.within (around : Surroundings) (scope : ScopeId) (paired : Pairing) (machine : Machine) :
    Surroundings :=
  { around with together := some scope, paired, machine }

variable {around : Surroundings} {paired : Pairing}

/-- A machine that is abreast of each turn of a run by what one member has made is abreast of the last turn by what all
have made. -/
theorem Abreast.gather {machines : Nat → Machine} {wider : Nat → Pairing}
    (abreast : Abreast around paired before start (machines 0))
    (shares : around.Shares scope)
    (gathered : Gathered around.together scope count start before histories history machine)
    (widens : ∀ i, i < count → ∀ left right, paired left right → wider i left right)
    (each : ∀ i, i < count →
      Abreast (around.within scope paired (machines i)) (wider i) (histories i) machine (machines (i + 1))) :
    Abreast around (paired.gather count wider) history machine (machines count) := by
  -- The run takes the turns one after another: before turn `i` it has captured what the members before have.
  have quiet : ∀ i, i ≤ count → (machines 0).Quiet scope (∃ j, j < i ∧ (histories j).captured) (machines i) := by
    intro i bound
    induction i with
    | zero => exact (Machine.Quiet.refl scope _).congr (by simp)
    | succ i ih =>
      have turn := (each i bound).quiet scope rfl
      refine ((ih (Nat.le_of_succ_le bound)).trans turn).congr ⟨?_, ?_⟩
      · rintro (⟨j, less, held⟩ | held)
        · exact ⟨j, Nat.lt_succ_of_lt less, held⟩
        · exact ⟨i, Nat.lt_succ_self i, held⟩
      · rintro ⟨j, less, held⟩
        rcases Nat.lt_succ_iff_lt_or_eq.mp less with less | rfl
        · exact .inl ⟨j, less, held⟩
        · exact .inr held
  have grows : ∀ i j, i ≤ j → j ≤ count → (machines i).memory.Grows (machines j).memory := by
    intro i j order bound
    induction order with
    | refl => exact .refl _
    | @step j _ ih => exact (ih (Nat.le_of_succ_le bound)).trans ((each j bound).quiet scope rfl).grows
  have all : (∃ j, j < count ∧ (histories j).captured) ↔ ∃ j, (histories j).captured :=
    ⟨fun ⟨j, _, held⟩ => ⟨j, held⟩, fun ⟨j, held⟩ => ⟨j, gathered.idle j held, held⟩⟩
  have last := (quiet count (Nat.le_refl _)).congr all
  -- What a turn pairs it has made: by its own member on the left, and during the turn on the right.
  have fresh : ∀ i, i < count → ∀ left right, wider i left right →
      paired left right ∨ (histories i).made left ∧ (machines i).memory.cell? right = none :=
    fun i bound => (each i bound).made (by simp [Surroundings.within])
  refine ⟨⟨?_, ?_⟩, fun shared left right pair => ?_, fun shared same => ?_⟩
  · obtain ⟨so, left, alone⟩ := gathered.arena
    have wide : ∀ first second, paired first second → paired.gather count wider first second := fun _ _ => .inl
    by_cases free : around.together = none
    · exact ((left.congr (alone free)).alike last.arena abreast.alike.arena).mono wide
    · exact ((last.arena.alike_right (left.alike_left abreast.alike.arena)).mono wide).loosen free
  · exact (abreast.alike.memory.growLeft gathered.grows).gather grows widens
      (fun i bound => (each i bound).alike.memory) fresh gathered.apart
  · obtain ⟨scope, same⟩ := Option.ne_none_iff_exists'.mp shared
    have old : ∀ first second, paired first second →
        around.paired first second ∨ history.made first ∧ around.machine.memory.cell? second = none :=
      fun first second pair => (abreast.made shared first second pair).imp_right fun both =>
        ⟨gathered.since first both.1, both.2⟩
    rcases pair with pair | ⟨i, bound, pair⟩
    · exact old left right pair
    rcases fresh i bound left right pair with pair | ⟨made, new⟩
    · exact old left right pair
    · exact .inr ⟨(gathered.made i left made).1,
        ((abreast.quiet scope same).grows.trans (grows 0 i (Nat.zero_le i) bound.le)).none new⟩
  · obtain rfl := shares shared same
    exact ((abreast.quiet shared same).trans last).congr gathered.captured.symm

/-- What becomes of the outcomes of the members of a literal keeps to what becomes of those of the run. -/
def Closes (around : Surroundings) (paired : Pairing) (literal : Literal)
    (rest : List (Except Failure Flow) → Run Flow) : Prop :=
  ∀ wider : Pairing, (∀ left right, paired left right → wider left right) → ∀ final outcomes twins,
    List.Forall₂ (Results (Flow.Alike around.fits wider)) outcomes twins → ∀ history machine,
      Abreast around wider history machine final →
        (literal.close outcomes).Mirrors around wider history machine final (rest twins)

theorem Closes.attains {literal : Literal} {rest : List (Except Failure Flow) → Run Flow} {wider : Pairing}
    {outcomes twins : List (Except Failure Flow)} {middle final : Machine} {outcome : Except Failure Flow}
    (closes : Closes around paired literal rest) (widens : ∀ left right, paired left right → wider left right)
    (abreast : Abreast around wider history machine middle)
    (all : List.Forall₂ (Results (Flow.Alike around.fits wider)) outcomes twins)
    (ran : rest twins middle = .done final outcome) (steps : Nat) :
    (together literal (outcomes.map finished)).Attains around.clock around.together
      (Mirrored around paired final outcome) steps history machine := by
  have ended : ∀ machine, (together literal (outcomes.map finished)).move around.clock machine =
      some (literal.close outcomes) := by
    intro machine
    simp only [Process.move, Evaluator.mapM_outcome?, Option.map_some]
  have mirrors : (together literal (outcomes.map finished)).Mirrors around wider middle (rest twins) :=
    .ofMove rfl fun history machine abreast =>
      ⟨_, ended machine, closes wider widens middle outcomes twins all history machine abreast⟩
  exact (mirrors history machine abreast final outcome ran steps).widen widens

/-- Members of a literal that only read keep to the same members one after another. -/
theorem Process.Mirrors.together {eval : Evaluator} {items : List Instruction} {literal : Literal} {other : Machine}
    {rest : List (Except Failure Flow) → Run Flow} (shares : around.Shares scope)
    (each : ∀ item ∈ items, ∀ known paired machine other,
      (evaluating item scope).Mirrors (around.within scope known machine) paired other (eval item scope))
    (quiet : ∀ item ∈ items, ∀ (machine other final : Machine) outcome, machine.Alike around.declared paired False other →
      eval item scope other = .done final outcome → ∃ captured, other.Quiet scope captured final)
    (closes : Closes around paired literal rest) :
    (Process.together literal (items.map (evaluating · scope))).Mirrors around paired other
      (ExceptT.lift (Task.all (items.map fun item => (eval item scope).run)) >>= rest) := by
  intro history start abreast final outcome ran steps
  rw [Run.lift_bind_apply] at ran
  obtain ⟨middle, results, all, late⟩ := Poll.done_of_bind ran
  obtain ⟨length, machines, rfl, rfl, turns⟩ := Task.all_done all
  rw [List.length_map] at length
  -- The machine of each turn is alike: the members before have been quiet.
  have alike : ∀ i, i ≤ items.length → start.Alike around.declared paired False (machines i) := by
    intro i bound
    induction i with
    | zero => exact ⟨abreast.alike.arena.loosen False.elim, abreast.alike.memory⟩
    | succ i ih =>
      have before := ih (Nat.le_of_succ_le bound)
      have here : items[i]? = some items[i] := List.getElem?_eq_getElem bound
      obtain ⟨result, -, ran⟩ := turns i _ (by rw [List.getElem?_map, here]; rfl)
      obtain ⟨captured, grows, arena⟩ := quiet items[i] (List.getElem_mem bound) _ _ _ _ before ran
      exact ⟨arena.alike_right before.arena, before.memory.growRight grows⟩
  have starts : ∀ i, i ≤ items.length →
      Abreast (around.within scope paired (machines i)) paired .start start (machines i) := by
    intro i bound
    have before := alike i bound
    refine ⟨⟨before.arena.loosen fun none => (nomatch none), before.memory⟩, fun _ _ _ => .inl, ?_⟩
    rintro shared ⟨⟩
    exact .refl _ _
  have members : ∀ (i : Nat) (member : Process), (items.map (evaluating · scope))[i]? = some member →
      member.Attains around.clock (some scope) (Mirrored (around.within scope paired (machines i)) paired
        (machines (i + 1)) (results.getD i (.ok .nothing))) steps .start start := by
    intro i member here
    rw [List.getElem?_map] at here
    obtain ⟨item, at_, rfl⟩ := Option.map_eq_some_iff.mp here
    obtain ⟨bound, rfl⟩ := List.getElem?_eq_some_iff.mp at_
    obtain ⟨result, found, ran⟩ := turns i _ (by rw [List.getElem?_map, at_]; rfl)
    rw [List.getD_eq_getElem?_getD, found]
    exact each items[i] (List.getElem_mem bound) paired paired (machines i) (machines i) .start start
      (starts i bound.le) (machines (i + 1)) result ran steps
  refine Attains.together shares (by simp) members (.begin around.together scope items.length start history) ?_
  intro histories history machine outcomes gathered same posts steps
  rw [List.length_map] at same late
  -- Each member has ended beside its turn; `wider` is what is paired then.
  have ends : ∀ i, ∃ wider : Pairing, i < items.length → (∀ left right, paired left right → wider left right) ∧
      Abreast (around.within scope paired (machines i)) wider (histories i) machine (machines (i + 1)) ∧
      ∀ outcome, outcomes[i]? = some outcome →
        Results (Flow.Alike around.fits wider) outcome (results.getD i (.ok .nothing)) := by
    intro i
    by_cases bound : i < items.length
    · obtain ⟨outcome, here⟩ : ∃ outcome, outcomes[i]? = some outcome :=
        ⟨_, List.getElem?_eq_getElem (same ▸ bound)⟩
      obtain ⟨wider, widens, abreast, alike⟩ := posts i outcome here
      refine ⟨wider, fun _ => ⟨widens, abreast, fun other there => ?_⟩⟩
      rw [here] at there
      cases there
      exact alike
    · exact ⟨paired, fun inside => absurd inside bound⟩
  choose wider ends using ends
  have abreast := abreast.gather shares gathered (fun i bound => (ends i bound).1) fun i bound => (ends i bound).2.1
  refine closes.attains (fun _ _ => .inl) abreast (List.forall₂_iff_get.mpr ⟨same.trans length.symm, ?_⟩) late steps
  intro i left right
  have bound : i < items.length := same ▸ left
  have alike := (ends i bound).2.2 _ (List.getElem?_eq_getElem left)
  rw [List.getD_eq_getElem?_getD, List.getElem?_eq_getElem right] at alike
  exact alike.imp fun _ _ => Flow.Alike.mono (Pairing.le_gather i bound)

end RuleScript
