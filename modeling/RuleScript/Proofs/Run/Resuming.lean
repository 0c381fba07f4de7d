import RuleScript.Proofs.Run.Balance

/-! Computations among others.

While a computation is suspended others may change the state, so each of its suspensions is resumed on some state. The
end of a computation is described for every choice of these states. A computation that runs alone is resumed on the
states that it stopped in.
-/

set_option autoImplicit false

namespace RuleScript

variable {σ τ α β : Type}

namespace Poll

/-- A computation ends in a state with a result, if its suspensions are resumed on the given states, one after
another. -/
inductive EndsIn : Poll σ α → List σ → σ → α → Prop where
  | done (state : σ) (result : α) : EndsIn (.done state result) [] state result
  | resume {state changed later : σ} {resume : σ → Poll σ α} {rest : List σ} {result : α}
    (onward : EndsIn (resume changed) rest later result) :
    EndsIn (.waiting state resume) (changed :: rest) later result

section Binding

variable {poll : Poll σ α} {next : α → Task σ β} {resumed more : List σ} {middle later : σ} {first : α} {last : β}

theorem endsIn_done {state : σ} {result : α} :
    (Poll.done state result).EndsIn resumed later first ↔ resumed = [] ∧ later = state ∧ first = result := by
  constructor
  · intro ends
    cases ends
    exact ⟨rfl, rfl, rfl⟩
  · rintro ⟨rfl, rfl, rfl⟩
    exact .done _ _

theorem endsIn_waiting {state changed : σ} {resume : σ → Poll σ α} :
    (Poll.waiting state resume).EndsIn (changed :: resumed) later first ↔
      (resume changed).EndsIn resumed later first := by
  constructor
  · intro ends
    cases ends with
    | resume onward => exact onward
  · exact .resume

/-- What comes after a part is resumed on the states that the part has left. -/
theorem EndsIn.bind_iff (ends : poll.EndsIn resumed middle first) :
    (poll.bind next).EndsIn (resumed ++ more) later last ↔ (next first middle).EndsIn more later last := by
  induction ends with
  | done => rfl
  | resume onward ih =>
    rw [← ih, Poll.bind, List.cons_append, endsIn_waiting]

theorem endsIn_bind : (poll.bind next).EndsIn resumed later last ↔
    ∃ before after middle first, resumed = before ++ after ∧ poll.EndsIn before middle first ∧
      (next first middle).EndsIn after later last := by
  constructor
  · intro whole
    induction poll generalizing resumed with
    | done state result => exact ⟨[], resumed, state, result, rfl, .done _ _, whole⟩
    | waiting state resume ih =>
      cases whole with
      | @resume _ changed _ _ rest _ onward =>
        obtain ⟨before, after, middle, first, rfl, ends, next⟩ := ih changed onward
        exact ⟨changed :: before, after, middle, first, rfl, .resume ends, next⟩
    | exhausted => cases whole
  · rintro ⟨before, after, middle, first, rfl, ends, next⟩
    exact ends.bind_iff.mpr next

end Binding

section Steps

variable {R : τ × σ → τ × σ → Prop} {here : α → τ} {poll : Poll σ α} {start : τ} {state later : σ} {result : α}

theorem invariant_of_steps {good : σ → Prop} {first last : τ × σ}
    (keeps : ∀ first second, R first second → good first.2 → good second.2)
    (steps : Relation.ReflTransGen R first last) (before : good first.2) : good last.2 := by
  induction steps with
  | refl => exact before
  | tail _ step ih => exact keeps _ _ step ih

/-- What every step keeps, and others keep meanwhile, holds at the end. -/
theorem Follows.endsIn (follows : poll.Follows R here start state) (good : σ → Prop)
    (keeps : ∀ first second, R first second → good first.2 → good second.2) (before : good state)
    {resumed : List σ} (others : ∀ changed ∈ resumed, good changed) (ends : poll.EndsIn resumed later result) :
    good later := by
  induction ends generalizing start state with
  | done => exact invariant_of_steps keeps follows before
  | @resume _ changed _ _ rest _ onward ih =>
    obtain ⟨stop, reached, resumes⟩ := follows
    have here := others changed List.mem_cons_self
    exact ih (resumes changed) here fun other member => others other (List.mem_cons_of_mem _ member)

theorem Follows.finish_endsIn (follows : poll.Follows R here start state) (good : σ → Prop)
    (keeps : ∀ first second, R first second → good first.2 → good second.2) (before : good state)
    (ends : poll.finish = some (later, result)) :
    ∃ resumed, poll.EndsIn resumed later result ∧ ∀ changed ∈ resumed, good changed := by
  induction poll generalizing start state with
  | done =>
    cases ends
    exact ⟨[], .done _ _, List.forall_mem_nil _⟩
  | waiting middle resume ih =>
    obtain ⟨stop, reached, onward⟩ := follows
    have here : good middle := invariant_of_steps keeps reached before
    obtain ⟨resumed, rest, others⟩ := ih middle (onward middle) here ends
    exact ⟨middle :: resumed, .resume rest, List.forall_mem_cons.mpr ⟨here, others⟩⟩
  | exhausted => cases ends

end Steps

end Poll

namespace Run

variable {run : Run α} {next : α → Run β} {machine middle later : Machine} {resumed more : List Machine}
  {outcome : Except Failure β}

theorem endsIn_bind_of_ok {first : α} (ends : (run machine).EndsIn resumed middle (.ok first)) :
    ((run >>= next) machine).EndsIn (resumed ++ more) later outcome ↔
      (next first middle).EndsIn more later outcome := by
  rw [bind_apply, ends.bind_iff]

theorem endsIn_bind : ((run >>= next) machine).EndsIn resumed later outcome ↔
    (∃ failure, (run machine).EndsIn resumed later (.error failure) ∧ outcome = .error failure) ∨
    ∃ before after middle first, resumed = before ++ after ∧ (run machine).EndsIn before middle (.ok first) ∧
      (next first middle).EndsIn after later outcome := by
  rw [bind_apply, Poll.endsIn_bind]
  constructor
  · rintro ⟨before, after, middle, first, rfl, ends, rest⟩
    cases first with
    | error failure =>
      obtain ⟨rfl, rfl, rfl⟩ : after = [] ∧ later = middle ∧ outcome = .error failure := Poll.endsIn_done.mp rest
      exact .inl ⟨failure, by simpa using ends, rfl⟩
    | ok first => exact .inr ⟨before, after, middle, first, rfl, ends, rest⟩
  · intro cases
    rcases cases with ⟨failure, ends, rfl⟩ | ⟨before, after, middle, first, rfl, ends, rest⟩
    · exact ⟨resumed, [], later, .error failure, by simp, ends, .done _ _⟩
    · exact ⟨before, after, middle, .ok first, rfl, ends, rest⟩

end Run

section Sound

variable {clock : Clock} {depth : Nat} {instruction : Instruction} {scope : ScopeId} {machine later : Machine}
  {outcome : Except Failure Flow}

theorem Process.sound_of_step (first second : Process × Machine)
    (step : Process.Step clock anyMove first.1 first.2 second.1 second.2) (sound : first.2.arena.Sound) :
    second.2.arena.Sound :=
  step.turn.sound sound

/-- An evaluation leaves the scopes sound, if others do so while it is suspended. -/
theorem evaluate_sound {resumed : List Machine} (sound : machine.arena.Sound)
    (others : ∀ changed ∈ resumed, changed.arena.Sound)
    (ends : (evaluate clock depth instruction scope machine).EndsIn resumed later outcome) : later.arena.Sound :=
  (evaluate_follows clock depth instruction scope machine).endsIn (fun machine => machine.arena.Sound)
    Process.sound_of_step sound others ends

theorem evaluate_endsIn (sound : machine.arena.Sound)
    (ends : (evaluate clock depth instruction scope).perform machine = some (outcome, later)) :
    ∃ resumed, (evaluate clock depth instruction scope machine).EndsIn resumed later outcome ∧
      ∀ changed ∈ resumed, changed.arena.Sound := by
  obtain ⟨⟨final, result⟩, finishes, same⟩ := Option.map_eq_some_iff.mp ends
  cases same
  exact (evaluate_follows clock depth instruction scope machine).finish_endsIn (fun machine => machine.arena.Sound)
    Process.sound_of_step sound finishes

end Sound

end RuleScript
