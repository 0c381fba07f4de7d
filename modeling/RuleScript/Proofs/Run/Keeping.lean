import RuleScript.Proofs.Run.Together

/-! Processes of instructions keep to their evaluation without suspensions.

The rules are gone through one by one. What a rule writes, it writes only where nothing else runs; among other members
of a literal an instruction only reads, and calls nothing but libraries.
-/

set_option autoImplicit false

namespace RuleScript

open Process

/-- An evaluator that the processes of tame instructions keep to, and that they reach by themselves. -/
structure Evaluator.Keeps (clock : Clock) (declared : String → Prop) (eval : Evaluator) : Prop where
  keeps : ∀ around : Surroundings, around.clock = clock → around.declared = declared → ∀ instruction scope,
    around.Shares scope → instruction.Tame declared around.together → ∀ paired other,
      (evaluating instruction scope).Mirrors around paired other (eval instruction scope)
  texts : ∀ text scope machine final outcome, eval (.text text) scope machine = .done final outcome →
    final = machine ∧ outcome = .ok (.value (.text text))
  follows : ∀ instruction scope machine final outcome, eval instruction scope machine = .done final outcome →
    Steps clock anyMove (evaluating instruction scope, machine) (finished outcome, final)

def Surroundings.Lets (around : Surroundings) (kind : Access) (values : List Value) : Prop :=
  around.together = none ∨ kind = .get ∨ kind = .call ∧ ∃ scope name rest,
    values = .scope scope :: .text name :: rest ∧ ¬ around.declared name

namespace Evaluator

variable {around : Surroundings} {eval : Evaluator} {paired : Pairing} {other : Machine}
  {arguments twins : List Value}

theorem headD_alike {fits : Closure → Prop} (all : List.Forall₂ (Value.Alike fits paired) arguments twins) :
    (arguments.headD .empty).Alike fits paired (twins.headD .empty) := by
  cases all with
  | nil => exact .empty
  | cons head _ => exact head

theorem tail_alike {fits : Closure → Prop} (all : List.Forall₂ (Value.Alike fits paired) arguments twins) :
    List.Forall₂ (Value.Alike fits paired) arguments.tail twins.tail := by
  cases all with
  | nil => exact .nil
  | cons _ rest => exact rest

theorem gather_alike {fits : Closure → Prop} {outcomes others : List (Except Failure Flow)}
    (all : List.Forall₂ (Results (Flow.Alike fits paired)) outcomes others) :
    Results (Option.Rel (List.Forall₂ (Value.Alike fits paired))) (gather outcomes) (gather others) := by
  have onward : ∀ {value like : Value} {rest twins : Except Failure (Option (List Value))},
      value.Alike fits paired like → Results (Option.Rel (List.Forall₂ (Value.Alike fits paired))) rest twins →
      Results (Option.Rel (List.Forall₂ (Value.Alike fits paired))) (rest.map (Option.map (value :: ·)))
        (twins.map (Option.map (like :: ·))) := by
    intro value like rest twins same results
    cases results with
    | error failure => exact .error failure
    | ok values =>
      cases values with
      | none => exact .ok .none
      | some values => exact .ok (.some (.cons same values))
  induction all with
  | nil => exact .ok (.some .nil)
  | cons head _ ih =>
    cases head with
    | error failure => exact .error failure
    | ok flow =>
      cases flow with
      | stop => exact .ok .none
      | nothing =>
        rw [gather_cons (by simp), gather_cons (by simp)]
        exact onward .empty ih
      | value same =>
        rw [gather_cons (by simp), gather_cons (by simp)]
        exact onward same ih

theorem collect_alike {fits : Closure → Prop} {outcomes others : List (Except Failure Flow)}
    (all : List.Forall₂ (Results (Flow.Alike fits paired)) outcomes others) :
    Results (Option.Rel (List.Forall₂ (Value.Alike fits paired))) (collect outcomes) (collect others) := by
  have crashes : outcomes.findSome? crash? = others.findSome? crash? := by
    induction all with
    | nil => rfl
    | cons head _ ih =>
      rw [List.findSome?_cons, List.findSome?_cons, ih]
      cases head <;> rfl
  rw [collect, collect, ← crashes]
  cases outcomes.findSome? crash? with
  | some cause => exact .error _
  | none => exact gather_alike all

/-! ## Calls -/

theorem ask_mirrors (count : Nat) {library : Library} {function : String} (has : library.has function = true)
    (all : List.Forall₂ (Value.Alike around.fits paired) arguments twins) :
    (asking count library function arguments).Mirrors around paired other
      (ask around.clock library.prompt function twins) := by
  have prompt : ask around.clock library.prompt function twins =
      (do return .value (← Run.action (library.answer around.clock function twins))) := by
    unfold ask
    rw [Library.suspensions_prompt, Library.answer_prompt around.clock library has]
    rfl
  rw [prompt]
  induction count with
  | zero =>
    exact .ofMove rfl fun _ _ abreast =>
      ⟨_, rfl, .act abreast (Library.answer_alike around.clock library function all)⟩
  | succ count ih => exact .become rfl (fun _ => rfl) ih

variable (parts : eval.Keeps around.clock around.declared)

include parts

section Alone

variable (alone : around.together = none)

include alone

theorem body_mirrors {body : Instruction} (tame : body.Tame around.declared none) (scope : ScopeId) :
    (evaluating body scope).Mirrors around paired other (eval body scope) := by
  apply parts.keeps around rfl rfl
  · intro shared among
    rw [alone] at among
    cases among
  · rwa [alone]

theorem bindParameters_mirrors {body : Instruction} (tame : body.Tame around.declared none) (scope : ScopeId)
    {parameters : List String} (known : ∀ name ∈ parameters, around.declared name)
    (all : List.Forall₂ (Value.Alike around.fits paired) arguments twins) :
    (binding scope parameters arguments body).Mirrors around paired other
      (do bindParameters scope parameters twins; eval body scope) := by
  induction parameters generalizing arguments twins paired other with
  | nil => exact .become rfl (fun _ => rfl) (body_mirrors parts alone tame scope)
  | cons parameter parameters ih =>
    simp only [bindParameters, bind_assoc]
    refine .ofMove rfl fun history machine abreast => ⟨_, rfl, ?_⟩
    refine .perform (.declare alone abreast scope (known _ List.mem_cons_self) (headD_alike all)) ?_
    intro wider widens _ _ _ final
    exact ih (fun name member => known name (List.mem_cons_of_mem _ member))
      (Value.Alike.mono_list widens (tail_alike all))

theorem invoke_mirrors {closure : Closure} (tame : closure.Tame around.declared) {history : History}
    {machine : Machine} (abreast : Abreast around paired history machine other)
    (all : List.Forall₂ (Value.Alike around.fits paired) arguments twins) :
    (Move.invoke closure arguments).Mirrors around paired history machine other (invoke eval closure twins) :=
  .enter alone abreast .none fun child _ => bindParameters_mirrors parts alone tame.2 child tame.1 all

end Alone

theorem callName_mirrors (scope : ScopeId) (name : String) (free : around.together = none ∨ ¬ around.declared name)
    (all : List.Forall₂ (Value.Alike around.fits paired) arguments twins) :
    (naming scope name arguments).Mirrors around paired other (callName around.clock eval scope name twins) := by
  refine .ofMove rfl fun history machine abreast => ?_
  have resolved := abreast.alike.arena.resolveCall scope name
  have ran := callName_apply around.clock eval scope name twins other
  rw [Process.move]
  generalize machine.arena.resolveCall scope name = reached at resolved ⊢
  generalize other.arena.resolveCall scope name = twin at resolved ran
  cases resolved with
  | error failure => exact ⟨_, rfl, (Move.Mirrors.become abreast (.throw failure)).congr ran⟩
  | ok same =>
    cases same with
    | closure tame known =>
      have alone := free.resolve_right fun free => free known
      exact ⟨_, rfl, (invoke_mirrors parts alone tame abreast all).congr ran⟩
    | library has => exact ⟨_, rfl, (Move.Mirrors.become abreast (ask_mirrors _ has all)).congr ran⟩

section Alone

variable (alone : around.together = none)

include alone

theorem callValue_mirrors {receiver twin : Value} (same : receiver.Alike around.fits paired twin)
    (all : List.Forall₂ (Value.Alike around.fits paired) arguments twins) :
    (calling receiver arguments).Mirrors around paired other (callValue around.clock eval twin twins) := by
  have sent : ∀ history machine, Abreast around paired history machine other →
      (Move.act (receiver.send .call arguments)).Mirrors around paired history machine other
        (do return .value (← Run.action (twin.send .call twins))) :=
    fun _ _ abreast => .act abreast (Value.send_alike same .call (fun _ => alone) all)
  cases same with
  | closure tame => exact .ofMove rfl fun _ _ abreast => ⟨_, rfl, invoke_mirrors parts alone tame abreast all⟩
  | scope id => exact .become rfl (fun _ => rfl) (callName_mirrors parts id _ (.inl alone) all)
  | _ => exact .ofMove rfl fun history machine abreast => ⟨_, rfl, sent history machine abreast⟩

theorem iterate_mirrors {body bodyTwin : Value} (same : body.Alike around.fits paired bodyTwin) {last lastTwin : Flow}
    (soFar : last.Alike around.fits paired lastTwin) {items others : List Value}
    (all : List.Forall₂ (Value.Alike around.fits paired) items others) :
    (iterating body last items).Mirrors around paired other (iterate around.clock eval bodyTwin lastTwin others) := by
  induction items generalizing paired other body bodyTwin last lastTwin others with
  | nil =>
    cases all
    exact .become rfl (fun _ => rfl) (.pure soFar)
  | cons item rest ih =>
    cases all with
    | cons head tail =>
      refine .become rfl (fun _ => rfl) ?_
      refine (callValue_mirrors parts alone same (.cons head .nil)).waiting ?_
      intro wider widens final flow twin alike history machine abreast
      have tail := Value.Alike.mono_list widens tail
      cases alike with
      | stop => exact .become abreast (.pure (soFar.mono widens))
      | nothing => exact .become abreast (ih (same.mono widens) (soFar.mono widens) tail)
      | value same' => exact .become abreast (ih (same.mono widens) (.value same') tail)

end Alone

theorem send_mirrors {receiver twin : Value} (same : receiver.Alike around.fits paired twin) (message : Message)
    (free : around.together = none ∨ message = .get)
    (all : List.Forall₂ (Value.Alike around.fits paired) arguments twins) :
    (sending receiver message arguments).Mirrors around paired other
      (send around.clock eval twin message twins) := by
  have allowed : message = .set → around.together = none := fun set => free.resolve_right fun get => by
    rw [get] at set
    cases set
  have alone : message ≠ .get → around.together = none := fun other => free.resolve_right other
  refine .ofMove rfl fun history machine abreast => ⟨_, rfl, ?_⟩
  have sent : (Move.act (receiver.send message arguments)).Mirrors around paired history machine other
      (do return .value (← Run.action (twin.send message twins))) :=
    .act abreast (Value.send_alike same message allowed all)
  have name := Value.toText_alike abreast.alike.memory (headD_alike all)
  cases same with
  | scope scope =>
    cases message with
    | get =>
      -- Keys are compared as texts, and the texts of alike values are the same.
      have beside : (Machine.lookUp scope ((arguments.headD .empty).toText machine.memory)).Beside around paired history
          machine other (Machine.lookUp scope ((twins.headD .empty).toText other.memory)) := by
        rw [name]
        exact .lookUp abreast scope _
      have looked : (Move.perform (.lookUp scope _) answer).Mirrors around paired history machine other _ :=
        .perform beside fun _ _ _ _ same _ => .answer same
      exact .inspect looked
    | set =>
      have beside : (Machine.assign scope ((arguments.headD .empty).toText machine.memory)
          (Value.argument arguments 1)).Beside around paired history machine other
          (Machine.assign scope ((twins.headD .empty).toText other.memory) (Value.argument twins 1)) := by
        rw [name]
        exact .assign (allowed rfl) abreast scope _ (Value.argument_alike all 1)
      have assigned : (Move.perform (.assign scope _ _) answer).Mirrors around paired history machine other _ :=
        .perform beside fun _ _ _ _ same _ => .answer same
      exact .inspect assigned
    | _ => exact .become abreast (callName_mirrors parts scope _ (.inl (alone (by simp))) all)
  | closure tame =>
    cases message with
    | call => exact invoke_mirrors parts (alone (by simp)) tame abreast all
    | _ => exact sent
  | array pair =>
    cases message with
    | iterate =>
      exact .become abreast (iterate_mirrors parts (alone (by simp)) (headD_alike all) .nothing
        (abreast.alike.memory.items pair))
    | _ => exact sent
  | _ => exact sent

/-- A call by name. Among others only the shared scope is a target, and the name is not declared. -/
theorem call_mirrors {target twin : Value} (same : target.Alike around.fits paired twin) (name : String)
    (free : around.together = none ∨ (∃ scope, target = .scope scope) ∧ ¬ around.declared name)
    (all : List.Forall₂ (Value.Alike around.fits paired) arguments twins) {history : History} {machine : Machine}
    (abreast : Abreast around paired history machine other) :
    (Move.dispatch target name arguments).Mirrors around paired history machine other
      (call around.clock eval twin name twins) := by
  by_cases isScope : ∃ scope, target = .scope scope
  · obtain ⟨scope, rfl⟩ := isScope
    cases same
    exact .become abreast (callName_mirrors parts scope name (free.imp_right And.right) all)
  · have alone := free.resolve_right fun both => isScope both.1
    -- Both sides branch on the target and on the message; these facts decide the branches.
    have noScope : ∀ scope, target ≠ .scope scope := fun scope same => isScope ⟨scope, same⟩
    have noTwin : ∀ scope, twin ≠ .scope scope := by
      rintro scope rfl
      cases same
      exact noScope scope rfl
    by_cases negated : Message.ofName name = .isNotEmpty
    · simp only [call, Move.dispatch, negated]
      refine .become abreast ((send_mirrors parts same .isEmpty (.inl alone) all).withValue ?_)
      exact fun _ _ _ _ _ same _ _ abreast => .act abreast (Value.send_alike same .neg (by simp) .nil)
    · simp only [call, Move.dispatch]
      exact .become abreast (send_mirrors parts same _ (.inl alone) all)

theorem deliver_mirrors (kind : Access) (free : around.Lets kind arguments)
    (all : List.Forall₂ (Value.Alike around.fits paired) arguments twins) {history : History} {machine : Machine}
    (abreast : Abreast around paired history machine other) :
    (Process.access kind arguments machine).Mirrors around paired history machine other
      (deliver around.clock eval kind (some twins)) := by
  have head := headD_alike all
  have tail := tail_alike all
  unfold deliver Process.access
  cases kind with
  | get => exact .become abreast (send_mirrors parts head .get (.inr rfl) tail)
  | set =>
    have alone := free.resolve_right (by simp)
    exact .become abreast (send_mirrors parts head .set (.inl alone) tail)
  | call =>
    have named : around.together = none ∨ ∃ scope name rest,
        arguments = .scope scope :: .text name :: rest ∧ ¬ around.declared name := by
      simpa [Surroundings.Lets] using free
    cases all with
    | nil => exact call_mirrors parts .empty "" (.inl (named.resolve_right (by simp))) .nil abreast
    | @cons target targetTwin _ _ first rest =>
      cases rest with
      | nil => exact call_mirrors parts first "" (.inl (named.resolve_right (by simp))) .nil abreast
      | @cons text textTwin values others second rest =>
        have name := Value.toText_alike abreast.alike.memory second
        have called : (Move.dispatch target (text.toText machine.memory) values).Mirrors around paired history machine
            other (call around.clock eval targetTwin (textTwin.toText other.memory) others) := by
          rw [← name]
          refine call_mirrors parts first _ (named.imp_right ?_) rest abreast
          rintro ⟨scope, name, rest, same, undeclared⟩
          cases same
          exact ⟨⟨scope, rfl⟩, undeclared⟩
        exact .inspect called

theorem operands_mirrors (kind : Access) {scope : ScopeId} (shares : around.Shares scope) {rest : List Instruction}
    (tame : ∀ part ∈ rest, part.Tame around.declared around.together)
    (free : ∀ more, around.Lets kind (arguments ++ more))
    (all : List.Forall₂ (Value.Alike around.fits paired) arguments twins) :
    (collecting kind scope arguments rest).Mirrors around paired other
      (do
        let values? ← operands eval scope rest
        deliver around.clock eval kind (values?.map (twins ++ ·))) := by
  induction rest generalizing arguments twins paired other with
  | nil =>
    simp only [operands, pure_bind, Option.map_some, List.append_nil]
    refine .ofMove rfl fun _ _ abreast => ⟨_, rfl, deliver_mirrors parts kind ?_ all abreast⟩
    simpa using free []
  | cons argument rest ih =>
    have rests : ∀ part ∈ rest, part.Tame around.declared around.together :=
      fun part member => tame part (List.mem_cons_of_mem _ member)
    -- The process has the values so far, the evaluator puts them in front once the rest is there.
    have onward : ∀ wider : Pairing, (∀ left right, paired left right → wider left right) → ∀ final value twin,
        value.Alike around.fits wider twin →
        (collecting kind scope (arguments ++ [value]) rest).Mirrors around wider final
          (do
            let values? ← (return (← operands eval scope rest).map (twin :: ·) : Run (Option (List Value)))
            deliver around.clock eval kind (values?.map (twins ++ ·))) := by
      intro wider widens final value twin same
      simp only [bind_assoc, pure_bind, Option.map_map, Function.comp_def]
      have more : (collecting kind scope (arguments ++ [value]) rest).Mirrors around wider final _ :=
        ih rests (fun more => by simpa using free (value :: more))
          (List.rel_append (Value.Alike.mono_list widens all) (.cons same .nil))
      simpa only [List.append_assoc, List.singleton_append] using more
    refine .become rfl (fun _ => rfl) ?_
    simp only [operands, bind_assoc]
    refine (parts.keeps around rfl rfl argument scope shares (tame argument List.mem_cons_self) _ _).waiting ?_
    intro wider widens final flow twin alike history machine abreast
    cases alike with
    | stop => exact .become abreast (.pure .stop)
    | nothing => exact .become abreast (onward wider widens final _ _ .empty)
    | value same => exact .become abreast (onward wider widens final _ _ same)

theorem named_mirrors {scope : ScopeId} (shares : around.Shares scope) {name : String} {rest : List Instruction}
    (free : ¬ around.declared name) (tame : ∀ part ∈ rest, part.Tame around.declared around.together) :
    (collecting .call scope [.scope scope] (.text name :: rest)).Mirrors around paired other
      (do
        let values? ← operands eval scope (.text name :: rest)
        deliver around.clock eval .call (values?.map ([.scope scope] ++ ·))) := by
  -- The name is the second value, so whatever comes after it, the call is of a library.
  have onward : (collecting .call scope ([.scope scope] ++ [.text name]) rest).Mirrors around paired other _ :=
    operands_mirrors parts .call shares tame (fun more => .inr (.inr ⟨rfl, scope, name, more, rfl, free⟩))
      (.cons (.scope scope) (.cons (.text name) .nil))
  have started : (collecting .call scope [.scope scope] (.text name :: rest)).Mirrors around paired other _ :=
    .become rfl (fun _ => rfl) (.atOnce rfl (fun _ => rfl) (.become rfl (fun _ => rfl) onward))
  refine started.ofDone fun final outcome ran => ?_
  simp only [operands, bind_assoc] at ran
  obtain ⟨middle, result, early, late⟩ := Run.done_of_bind ran
  obtain ⟨rfl, rfl⟩ := parts.texts _ _ _ _ _ early
  simp only [bind_assoc, pure_bind, Option.map_map, Function.comp_def] at late
  exact late

theorem access_mirrors (kind : Access) {scope : ScopeId} (shares : around.Shares scope) {values : List Instruction}
    (tame : (Instruction.access kind values).Tame around.declared around.together) {history : History}
    {machine : Machine} (abreast : Abreast around paired history machine other) :
    (start around.clock scope machine (.access kind values)).Mirrors around paired history machine other
      (access around.clock eval kind scope values) := by
  have all : ∀ part ∈ values, part.Tame around.declared around.together := fun part member => tame.part member
  rw [access_eq]
  fun_cases arguments eval scope values with
  | case1 rest =>
    have rests : ∀ part ∈ rest, part.Tame around.declared around.together :=
      fun part member => all part (List.mem_cons_of_mem _ member)
    refine .become abreast ?_
    simp only [bind_assoc, pure_bind]
    by_cases alone : around.together = none
    · exact operands_mirrors parts kind shares rests (fun _ => .inl alone) (.cons (.scope scope) .nil)
    · have reads := tame.node alone
      cases kind with
      | get => exact operands_mirrors parts .get shares rests (fun _ => .inr (.inl rfl)) (.cons (.scope scope) .nil)
      | set => exact reads.elim
      | call =>
        obtain ⟨name, others, same, free⟩ := reads
        cases same
        exact named_mirrors parts shares free fun part member => rests part (List.mem_cons_of_mem _ member)
  | case2 _ notScope =>
    have free : ∀ more, around.Lets kind ([] ++ more) := by
      intro more
      by_cases alone : around.together = none
      · exact .inl alone
      · have reads := tame.node alone
        cases kind with
        | get => exact .inr (.inl rfl)
        | set => exact reads.elim
        | call =>
          obtain ⟨name, others, same, -⟩ := reads
          exact absurd same (notScope _)
    have plain : (collecting kind scope [] values).Mirrors around paired other _ :=
      operands_mirrors parts kind shares all free .nil
    simp only [List.nil_append, Option.map_id'] at plain
    rw [start]
    · exact .become abreast plain
    · exact notScope

/-! ## Literals -/

omit parts in
theorem literal_closes (form : Literal) : Closes around paired form fun flows => (do
    match collect flows with
    | .error failure => throw failure
    | .ok none => pure .stop
    | .ok (some values) => return .value (← Run.action (form.make values)) : Run Flow) := by
  intro wider widens final outcomes others all history machine abreast
  have collected := collect_alike all
  unfold Literal.close
  dsimp only
  generalize collect outcomes = left at collected ⊢
  generalize collect others = right at collected ⊢
  cases collected with
  | error failure => exact .become abreast (.throw failure)
  | ok values? =>
    cases values? with
    | none => exact .become abreast (.pure .stop)
    | some same =>
      cases form with
      | array => exact .act abreast (Action.newArray_alike same)
      | object names => exact .act abreast (Action.newObject_alike (.ofList (MembersAlike.zip names same)))

/-- What a member of a literal evaluates to by itself is quiet. -/
theorem quiet_of_reads {item : Instruction} {scope : ScopeId} (tame : item.Tame around.declared (some scope))
    {machine final : Machine} {outcome : Except Failure Flow}
    (alike : machine.Alike around.declared paired False other) (ran : eval item scope other = .done final outcome) :
    ∃ captured, other.Quiet scope captured final := by
  have self := alike.right
  have abreast : Abreast (around.within scope paired.right other) paired.right .start other other := by
    refine ⟨⟨self.arena.loosen fun none => (nomatch none), self.memory⟩, fun _ _ _ => .inl, ?_⟩
    rintro shared ⟨⟩
    exact .refl _ _
  have shares : (around.within scope paired.right other).Shares scope := by
    rintro shared ⟨⟩
    rfl
  -- The process reaches the end of the run by itself, and on the way there every step of it is quiet.
  obtain ⟨count, along⟩ := Attains.along (parts.follows item scope other final outcome ran)
  obtain ⟨_, captured, allowed, -⟩ := along .start
    (parts.keeps (around.within scope paired.right other) rfl rfl item scope shares tame paired.right other .start other
      abreast final outcome ran (count + 1))
  exact ⟨captured, allowed scope rfl⟩

theorem literal_mirrors (form : Literal) {scope : ScopeId} (shares : around.Shares scope) {items : List Instruction}
    (tame : ∀ item ∈ items, item.Tame around.declared around.together)
    (reads : 2 ≤ items.length → ∀ item ∈ items, item.Tame around.declared (some scope)) :
    (together form (items.map (evaluating · scope))).Mirrors around paired other
      (literal eval scope items form.make) := by
  by_cases many : around.together ≠ none ∨ 2 ≤ items.length
  · have members : ∀ item ∈ items, item.Tame around.declared (some scope) := by
      rcases many with others | many
      · obtain ⟨shared, among⟩ := Option.ne_none_iff_exists'.mp others
        obtain rfl := shares shared among
        rwa [among] at tame
      · exact reads many
    refine .together shares (fun item member known paired machine other => ?_)
      (fun item member machine other final outcome alike ran => ?_) (literal_closes form)
    · refine parts.keeps (around.within scope known machine) rfl rfl item scope ?_ (members item member) paired other
      rintro shared ⟨⟩
      rfl
    · exact quiet_of_reads parts (members item member) alike ran
  · have alone : around.together = none := by_contra fun others => many (.inl others)
    intro history machine abreast final outcome ran steps
    unfold literal at ran
    rw [Run.lift_bind_apply] at ran
    obtain ⟨middle, results, all, late⟩ := Poll.done_of_bind ran
    obtain ⟨length, machines, rfl, rfl, turns⟩ := Task.all_done all
    -- With no more than one member nothing can come in between.
    rcases items with _ | ⟨item, _ | ⟨second, rest⟩⟩
    · obtain rfl := List.length_eq_zero_iff.mp length
      exact (literal_closes form).attains (fun _ _ => id) abreast .nil late steps
    · obtain ⟨result, rfl⟩ := List.length_eq_one_iff.mp length
      obtain ⟨_, same, ran⟩ := turns 0 _ rfl
      cases same
      have first := parts.keeps around rfl rfl item scope shares (tame item List.mem_cons_self) paired (machines 0)
        history machine abreast (machines 1) result ran steps
      refine first.only ?_
      rintro history machine reached ⟨wider, widens, abreast, alike⟩ steps
      exact (literal_closes form).attains widens abreast (.cons alike .nil) late steps
    · exact absurd (.inr (by simp)) many

theorem lines_mirrors {scope : ScopeId} (shares : around.Shares scope) (last : Flow) {line : Instruction}
    {rest : List Instruction} (tame : ∀ part ∈ line :: rest, part.Tame around.declared around.together) :
    (waiting (.lines scope rest) (evaluating line scope)).Mirrors around paired other
      (lines eval scope last (line :: rest)) := by
  induction rest generalizing last line paired other with
  | nil =>
    refine (parts.keeps around rfl rfl line scope shares (tame line List.mem_cons_self) _ _).waiting ?_
    intro wider widens final flow twin alike history machine abreast
    cases alike with
    | stop => exact .become abreast (.pure .stop)
    | nothing => exact .become abreast (.pure .nothing)
    | value same => exact .become abreast (.pure (.value same))
  | cons next rest ih =>
    have onward : ∀ wider other last, (waiting (.lines scope rest) (evaluating next scope)).Mirrors around wider other
        (lines eval scope last (next :: rest)) :=
      fun wider other last => ih last fun part member => tame part (List.mem_cons_of_mem _ member)
    refine (parts.keeps around rfl rfl line scope shares (tame line List.mem_cons_self) _ _).waiting ?_
    intro wider widens final flow twin alike history machine abreast
    cases alike with
    | stop => exact .become abreast (.pure .stop)
    | nothing => exact .become abreast (onward wider final .nothing)
    | @value _ twin _ => exact .become abreast (onward wider final (.value twin))

omit parts in
theorem message_ne_set {kind : Fold} {operator : String} {message : Message}
    (known : kind.message? operator = some message) : message ≠ .set := by
  rintro rfl
  cases kind <;> simp only [Fold.message?, Message.arithmetic?, Message.logical?] at known <;> split at known <;>
    cases known

theorem operand_mirrors {kind : Fold} {scope : ScopeId} (shares : around.Shares scope) {total twin : Value}
    (same : total.Alike around.fits paired twin) {operator : String} {message : Message}
    (known : kind.message? operator = some message) {operand : Instruction}
    (tame : operand.Tame around.declared around.together) {rest : List (String × Instruction)}
    {onward : Value → Run Flow}
    (others : ∀ wider final value like, value.Alike around.fits wider like →
      (folding kind scope value rest).Mirrors around wider final (onward like)) :
    (waiting (.withValue (.operand kind scope total message rest)) (evaluating operand scope)).Mirrors
      around paired other
      (valueOf eval operand scope fun value => do onward (← Run.action (twin.send message [value]))) := by
  refine (parts.keeps around rfl rfl operand scope shares tame paired other).withValue ?_
  intro wider widens final value like alike history machine abreast
  refine .perform (.action abreast (Value.send_alike (same.mono widens) message ?_ (.cons alike .nil))) ?_
  · exact fun set => absurd set (message_ne_set known)
  · exact fun widest _ _ _ sum final => others widest final _ _ sum

theorem foldNumbers_mirrors {scope : ScopeId} (shares : around.Shares scope) {total twin : Value}
    (same : total.Alike around.fits paired twin) {rest : List (String × Instruction)}
    (tame : ∀ part ∈ rest.map Prod.snd, part.Tame around.declared around.together) :
    (folding .arithmetic scope total rest).Mirrors around paired other (foldNumbers eval scope twin rest) := by
  induction rest generalizing total twin paired other with
  | nil => exact .become rfl (fun _ => rfl) (.answer same)
  | cons pair rest ih =>
    obtain ⟨operator, operand⟩ := pair
    unfold foldNumbers
    cases known : Message.arithmetic? operator with
    | none =>
      refine .become rfl (fun machine => ?_) (.throw (.unknownOperator operator))
      simp [Process.move, fold, Fold.message?, Fold.decides, known]
    | some message =>
      have means : Fold.arithmetic.message? operator = some message := known
      have first : Process.Mirrors around paired other _ _ :=
        operand_mirrors parts shares same means (tame operand List.mem_cons_self) fun wider final value like alike =>
          ih alike fun part member => tame part (List.mem_cons_of_mem _ member)
      refine .become rfl (fun machine => ?_) first
      simp [Process.move, fold, Fold.message?, Fold.decides, known]

theorem foldTruth_mirrors (decisive : Bool) {scope : ScopeId} (shares : around.Shares scope) {total twin : Value}
    (same : total.Alike around.fits paired twin) {rest : List (String × Instruction)}
    (tame : ∀ part ∈ rest.map Prod.snd, part.Tame around.declared around.together) :
    (folding (bif decisive then .disjunction else .conjunction) scope total rest).Mirrors around paired other
      (foldTruth eval decisive scope twin rest) := by
  induction rest generalizing total twin paired other with
  | nil => exact .become rfl (fun _ => rfl) (.answer same)
  | cons pair rest ih =>
    obtain ⟨operator, operand⟩ := pair
    -- The two logical folds are one here, told apart by the truth value that ends them.
    have decides : ∀ truthy, (bif decisive then Fold.disjunction else .conjunction).decides truthy =
        decide (truthy = decisive) := by cases decisive <;> decide
    have known : (bif decisive then Fold.disjunction else .conjunction).message? operator =
        Message.logical? operator := by cases decisive <;> rfl
    refine .ofMove rfl fun history machine abreast => ⟨_, rfl, .inspect ?_⟩
    have truth := Value.isTruthy_alike abreast.alike.memory same
    simp only [fold, decides, known, decide_eq_true_eq, truth]
    split
    · exact .become abreast (.answer same)
    · cases found : Message.logical? operator with
      | none => exact .become abreast (.throw _)
      | some message =>
        have first : Process.Mirrors around paired other _ _ :=
          operand_mirrors parts shares same (known.trans found) (tame operand List.mem_cons_self)
            fun wider final value like alike => ih alike fun part member => tame part (List.mem_cons_of_mem _ member)
        exact .become abreast first

theorem eachMatch_mirrors (alone : around.together = none) {body : Instruction}
    (tame : body.Tame around.declared none) (scope : ScopeId) {last twin : Value}
    (same : last.Alike around.fits paired twin) {views others : List View}
    (all : List.Forall₂ (View.Alike paired) views others) :
    (matching scope body last views).Mirrors around paired other (eachMatch eval scope body twin others) := by
  induction views generalizing last twin others paired other with
  | nil =>
    cases all
    exact .become rfl (fun _ => rfl) (.answer same)
  | cons view rest ih =>
    cases all with
    | @cons _ viewTwin _ twins head tail =>
      have visit : (visiting scope view body).Mirrors around paired other
          (Machine.inChild scope (some viewTwin) (eval body)) :=
        .ofMove rfl fun _ _ abreast =>
          ⟨_, rfl, .enter alone abreast (.some head) fun child _ => body_mirrors parts alone tame child⟩
      refine .become rfl (fun _ => rfl) (visit.withValue ?_)
      intro wider widens final value like alike history machine abreast
      exact .become abreast (ih alike (tail.imp fun _ _ same => same.mono widens))

omit parts in
theorem branch_mirrors {scope : ScopeId} {test ok : Instruction} {fail : Option Instruction} {failing : Run Flow}
    (first : (evaluating test scope).Mirrors around paired other (eval test scope))
    (oks : ∀ wider final, (evaluating ok scope).Mirrors around wider final (eval ok scope))
    (fails : ∀ wider final,
      (fail.elim (finished (.ok .nothing)) (evaluating · scope)).Mirrors around wider final failing) :
    (waiting (.withValue (.choose scope ok fail)) (evaluating test scope)).Mirrors around paired other
      (branch eval test scope (eval ok scope) failing) := by
  refine first.withValue ?_
  intro wider widens final value like alike history machine abreast
  have truth := Value.isTruthy_alike abreast.alike.memory alike
  have chosen : ((After.choose scope ok fail).resume value machine).Mirrors around wider history machine final
      (if like.isTruthy final.memory then eval ok scope else failing) := by
    rw [After.resume_choose, truth]
    split
    · exact .become abreast (oks wider final)
    · exact .become abreast (fails wider final)
  exact .inspect chosen

/-- The process of an instruction keeps to the rule of the instruction, if those of the parts keep to the parts. -/
theorem step_mirrors {instruction : Instruction} {scope : ScopeId} (shares : around.Shares scope)
    (tame : instruction.Tame around.declared around.together) :
    (evaluating instruction scope).Mirrors around paired other (step around.clock eval instruction scope) := by
  have part : ∀ inner ∈ instruction.parts, ∀ paired other,
      (evaluating inner scope).Mirrors around paired other (eval inner scope) :=
    fun inner member => parts.keeps around rfl rfl inner scope shares (tame.part member)
  have tames : ∀ inner ∈ instruction.parts, inner.Tame around.declared around.together :=
    fun _ member => tame.part member
  have writes : ¬ instruction.ReadsOnly around.declared → around.together = none :=
    fun not => by_contra fun others => not (tame.node others)
  refine .ofMove rfl fun history machine abreast => ⟨_, rfl, ?_⟩
  cases instruction with
  | block lines =>
    cases lines with
    | nil => exact .become abreast (.pure .nothing)
    | cons line rest => exact .become abreast (lines_mirrors parts shares .nothing tames)
  | number x => exact .become abreast (.answer (.number x))
  | text s => exact .become abreast (.answer (.text s))
  | truth b => exact .become abreast (.answer (.bool b))
  | translate title _ => exact .become abreast (.answer (.text title))
  | date text =>
    -- Reading the text and making a value of it are two steps of the evaluator and one move.
    have read : Move.Mirrors around paired history machine other _ _ :=
      .act abreast (Value.date_alike (Date.read text around.clock.zone))
    simp only [Run.action_bind, Run.action_pure, bind_assoc, pure_bind] at read
    exact read
  | dateTime text =>
    have read : Move.Mirrors around paired history machine other _ _ :=
      .act abreast (Value.dateTime_alike (DateTime.read text around.clock.zone))
    simp only [Run.action_bind, Run.action_pure, bind_assoc, pure_bind] at read
    exact read
  | scope => exact .capture shares abreast (.answer (.scope scope))
  | stop => exact .become abreast (.pure .stop)
  | nest inner => exact .become abreast (part inner List.mem_cons_self _ _)
  | result inner =>
    cases inner with
    | some inner => exact .become abreast (part inner List.mem_cons_self _ _)
    | none => exact .become abreast (.pure .nothing)
  | negation inner =>
    refine .become abreast ((part inner List.mem_cons_self _ _).withValue ?_)
    exact fun _ _ _ _ _ same _ _ abreast => .act abreast (Value.send_alike same .neg (by simp) .nil)
  | choice test ok fail =>
    exact .become abreast (branch_mirrors (part test List.mem_cons_self _ _)
      (part ok (List.mem_cons_of_mem _ List.mem_cons_self)) (part fail (by simp [Instruction.parts])))
  | branch test ok fail =>
    cases fail with
    | some fail =>
      exact .become abreast (branch_mirrors (part test List.mem_cons_self _ _)
        (part ok (List.mem_cons_of_mem _ List.mem_cons_self)) (part fail (by simp [Instruction.parts])))
    | none =>
      exact .become abreast (branch_mirrors (part test List.mem_cons_self _ _)
        (part ok (List.mem_cons_of_mem _ List.mem_cons_self)) fun _ _ => .pure .nothing)
  | array items =>
    exact .become abreast (literal_mirrors parts .array shares tames fun many => tame.members rfl many scope)
  | object members =>
    have group : (together _ ((members.map Prod.snd).map (evaluating · scope))).Mirrors around paired other _ :=
      literal_mirrors parts (.object (members.map Prod.fst)) shares tames fun many => tame.members rfl many scope
    rw [List.map_map] at group
    exact .become abreast group
  | fold kind first rest =>
    have operands : ∀ inner ∈ rest.map Prod.snd, inner.Tame around.declared around.together :=
      fun inner member => tames inner (List.mem_cons_of_mem _ member)
    have first := part first List.mem_cons_self paired other
    cases kind with
    | arithmetic =>
      exact .become abreast (first.withValue fun _ _ _ _ _ same _ _ abreast =>
        .become abreast (foldNumbers_mirrors parts shares same operands))
    | conjunction =>
      exact .become abreast (first.withValue fun _ _ _ _ _ same _ _ abreast =>
        .become abreast (foldTruth_mirrors parts false shares same operands))
    | disjunction =>
      exact .become abreast (first.withValue fun _ _ _ _ _ same _ _ abreast =>
        .become abreast (foldTruth_mirrors parts true shares same operands))
  | compare left right operator =>
    refine .become abreast ((part left List.mem_cons_self _ _).withValue ?_)
    intro wider _ middle a aTwin same history machine abreast
    refine .become abreast ((part right (List.mem_cons_of_mem _ List.mem_cons_self) _ _).withValue ?_)
    intro widest widens final b bTwin alike history machine abreast
    have compared : ((After.compareRight a operator).resume b machine).Mirrors around widest history machine final _ :=
      .act abreast (comparison_alike (same.mono widens) alike operator)
    simp only [Run.action_bind, Run.action_pure, bind_assoc, pure_bind] at compared
    exact compared
  | declaration name inner =>
    have alone := writes id
    refine .become abreast ((part inner List.mem_cons_self _ _).withValue ?_)
    intro wider _ final value like same history machine abreast
    have known := tame.known _ .self name List.mem_cons_self
    exact .perform (.declare alone abreast scope known same) fun _ _ _ _ same _ => .answer same
  | assignment name inner =>
    have alone := writes id
    refine .become abreast ((part inner List.mem_cons_self _ _).withValue ?_)
    intro wider _ final value like same history machine abreast
    exact .perform (.assign alone abreast scope name same) fun _ _ _ _ same _ => .answer same
  | access kind values => exact access_mirrors parts kind shares tame abreast
  | loop iterator list body =>
    have alone := writes id
    refine .become abreast ((part list List.mem_cons_self _ _).withValue ?_)
    intro wider _ final value like same history machine abreast
    refine .become abreast (send_mirrors parts same .iterate (.inl alone) (.cons (.closure ⟨?_, ?_⟩) .nil))
    · intro name member
      exact tame.known _ .self name member
    · exact (tames body (List.mem_cons_of_mem _ List.mem_cons_self)).free
  | range first last =>
    refine .become abreast ((part first List.mem_cons_self _ _).withValue ?_)
    intro wider _ middle a aTwin same history machine abreast
    refine .become abreast ((part last (List.mem_cons_of_mem _ List.mem_cons_self) _ _).withValue ?_)
    exact fun _ widens _ _ _ alike _ _ abreast => .act abreast (range_alike (same.mono widens) alike)
  | function name parameters body =>
    have alone := writes id
    have known := tame.known _ .self
    have closure : Value.Alike around.fits paired (.closure ⟨parameters, body, scope⟩)
        (.closure ⟨parameters, body, scope⟩) :=
      .closure ⟨fun parameter member => known parameter (List.mem_cons_of_mem _ member),
        (tames body List.mem_cons_self).free⟩
    refine .capture shares abreast (.ofMove rfl fun _ _ abreast => ⟨_, rfl, ?_⟩)
    exact .perform (.declare alone abreast scope (known name List.mem_cons_self) closure)
      fun _ _ _ _ same _ => .answer same
  | each name body =>
    have found : Process.Mirrors around paired other _ _ :=
      eachMatch_mirrors parts (writes id) (tames body List.mem_cons_self).free scope .empty
      (abreast.alike.arena.search abreast.alike.memory scope name)
    exact (Move.Mirrors.become abreast found).congr rfl

end Evaluator

/-- To whatever depth, processes of tame instructions keep to the evaluation. -/
theorem evaluate_keeps (clock : Clock) (declared : String → Prop) (depth : Nat) :
    Evaluator.Keeps clock declared (evaluate clock depth) := by
  have follows : ∀ depth instruction scope machine final outcome,
      evaluate clock depth instruction scope machine = .done final outcome →
      Steps clock anyMove (evaluating instruction scope, machine) (finished outcome, final) :=
    fun _ _ _ _ _ _ ran => evaluate_steps (Run.perform_done ran)
  induction depth with
  | zero =>
    -- Beyond the depth no run ends.
    refine ⟨fun _ _ _ _ _ _ _ _ _ _ _ _ _ _ ran => ?_, fun _ _ _ _ _ ran => ?_, follows 0⟩ <;> cases ran
  | succ depth ih =>
    refine ⟨?_, fun text scope machine final outcome ran => ?_, follows (depth + 1)⟩
    · rintro around rfl rfl instruction scope shares tame paired other
      exact Evaluator.step_mirrors ih shares tame
    · cases ran
      exact ⟨rfl, rfl⟩

end RuleScript
