import RuleScript.Proofs.Scope.Chain
import RuleScript.Proofs.Scope.Session

/-! Sessions that differ only in the names of scopes.

One session releases scopes, the other ignores every release, so each scope that it makes is new. They match while
every number in use has the same frame in both, but for the names of scopes. Then look-ups find the same.
-/

set_option autoImplicit false

namespace RuleScript

open Arena (Path)

/-- A search along a renamed chain finds what it finds along the chain. -/
theorem findSome?_renamed {α β : Type} {chain : List ScopeId} {f : ScopeId → ScopeId}
    {left : ScopeId → Option α} {right : ScopeId → Option β} {rename : β → α}
    (same : ∀ id ∈ chain, left (f id) = (right id).map rename) :
    (chain.map f).findSome? left = (chain.findSome? right).map rename := by
  induction chain with
  | nil => rfl
  | cons first rest ih =>
    have here := same first List.mem_cons_self
    have later := ih fun id member => same id (List.mem_cons_of_mem _ member)
    cases found : right first with
    | none => simp [here, found, later]
    | some result => simp [here, found]

theorem takeWhile_renamed {chain : List ScopeId} {f : ScopeId → ScopeId} {left right : ScopeId → Bool}
    (same : ∀ id ∈ chain, left (f id) = right id) :
    (chain.map f).takeWhile left = (chain.takeWhile right).map f := by
  induction chain with
  | nil => rfl
  | cons first rest ih =>
    have later := ih fun id member => same id (List.mem_cons_of_mem _ member)
    cases flag : right first <;> simp [same first List.mem_cons_self, flag, later]

/-- A session that releases and one that never does, after the same requests: every number that is still usable
has the same frame in both, but for the names of scopes. -/
structure Session.Matches (ended : List ScopeId) (real fresh : Session) : Prop where
  numbered : fresh.issued = (List.range real.issued.length).map ScopeId.mk
  size : fresh.machine.arena.frames.size = real.issued.length
  free : fresh.machine.arena.free = []
  sound : real.machine.arena.Sound
  memory : real.machine.memory = fresh.machine.memory
  live : ∀ number, real.Usable ended number → real.machine.arena.Live (real.scope number)
  injective : ∀ first second, real.Usable ended first → real.Usable ended second →
    real.scope first = real.scope second → first = second
  frames : ∀ number, real.Usable ended number →
    real.machine.arena.frame (real.scope number) =
      (fresh.machine.arena.frame number).mapScopes real.scope
  parents : ∀ number, real.Usable ended number →
    ∀ parent, (fresh.machine.arena.frame number).parent = some parent →
      real.Usable ended parent ∧ parent.index < number.index
  stored : ∀ number, real.Usable ended number → ∀ pair ∈ (fresh.machine.arena.frame number).locals,
    ∀ id, pair.2.handle? = some id → id.index < real.issued.length
  kept : ∀ number, (fresh.machine.arena.frame number).captured = true → real.Usable ended number
  closed : ∀ number, (fresh.machine.arena.frame number).captured = true →
    ∀ parent, (fresh.machine.arena.frame number).parent = some parent →
      (fresh.machine.arena.frame parent).captured = true

namespace Session

variable {ended : List ScopeId} {real fresh : Session} {number : ScopeId}

theorem Usable.ofLonger {longer : Session} (usable : real.Usable ended number)
    (more : real.issued <+: longer.issued) : longer.Usable ended number :=
  ⟨usable.1.trans_le more.length_le, usable.2⟩

theorem scope_of_prefix {longer : Session} (more : real.issued <+: longer.issued)
    (made : number.index < real.issued.length) : longer.scope number = real.scope number := by
  obtain ⟨tail, same⟩ := more
  simp only [scope, List.getD_eq_getElem?_getD, ← same, List.getElem?_append_left made]

namespace Matches

theorem start (memory : Memory) : Matches [] (Session.start memory) (Session.start memory) where
  numbered := rfl
  size := rfl
  free := rfl
  sound := Arena.empty_sound
  memory := rfl
  live _ usable := absurd usable.1 (Nat.not_lt_zero _)
  injective _ _ usable := absurd usable.1 (Nat.not_lt_zero _)
  frames _ usable := absurd usable.1 (Nat.not_lt_zero _)
  parents _ usable := absurd usable.1 (Nat.not_lt_zero _)
  stored _ usable := absurd usable.1 (Nat.not_lt_zero _)
  kept _ flag := nomatch flag
  closed _ flag := nomatch flag

theorem scope_fresh (related : Matches ended real fresh) (number : ScopeId) : fresh.scope number = number := by
  unfold Session.scope
  rw [related.numbered, List.getD_eq_getElem?_getD, List.getElem?_map]
  by_cases inside : number.index < real.issued.length <;> simp [inside]

theorem exists_path (related : Matches ended real fresh) (usable : real.Usable ended number) :
    ∃ path, fresh.machine.arena.Path number path ∧ ∀ id ∈ path, real.Usable ended id := by
  -- A parent was made before its child, so numbers fall along a chain.
  induction measure : number.index using Nat.strong_induction_on generalizing number with
  | _ index ih =>
    subst measure
    cases has : (fresh.machine.arena.frame number).parent with
    | none =>
      have inside : number.index < fresh.machine.arena.frames.size := related.size ▸ usable.1
      exact ⟨[number], .top inside has, by simpa using usable⟩
    | some parent =>
      obtain ⟨above, earlier⟩ := related.parents number usable parent has
      obtain ⟨path, walk, all⟩ := ih parent.index earlier above rfl
      exact ⟨number :: path, .up has walk, by simpa using ⟨usable, all⟩⟩

theorem path_real (related : Matches ended real fresh) {path : List ScopeId}
    (walk : fresh.machine.arena.Path number path) (usable : ∀ id ∈ path, real.Usable ended id) :
    real.machine.arena.Path (real.scope number) (path.map real.scope) := by
  induction walk with
  | top inside last =>
    have self := usable _ (List.mem_singleton.mpr rfl)
    refine .top (related.live _ self).1 ?_
    simp [related.frames _ self, Frame.mapScopes, last]
  | up has rest ih =>
    refine .up ?_ (ih fun id member => usable id (List.mem_cons_of_mem _ member))
    simp [related.frames _ (usable _ List.mem_cons_self), Frame.mapScopes, has]

theorem chain_real (related : Matches ended real fresh) (usable : real.Usable ended number) :
    real.machine.arena.chain (real.scope number) = (fresh.machine.arena.chain number).map real.scope ∧
      ∀ id ∈ fresh.machine.arena.chain number, real.Usable ended id := by
  obtain ⟨path, walk, all⟩ := related.exists_path usable
  rw [walk.chain, (related.path_real walk all).chain]
  exact ⟨rfl, all⟩

theorem ends_real (related : Matches ended real fresh) (usable : real.Usable ended number) :
    fresh.machine.arena.ends number = true ∧ real.machine.arena.ends (real.scope number) = true := by
  obtain ⟨path, walk, all⟩ := related.exists_path usable
  exact ⟨walk.ends, (related.path_real walk all).ends⟩

theorem contains_real (related : Matches ended real fresh) (usable : real.Usable ended number)
    (name : String) :
    Fields.contains (real.machine.arena.frame (real.scope number)).locals name =
      Fields.contains (fresh.machine.arena.frame number).locals name := by
  rw [related.frames number usable]
  exact Fields.contains_mapValues ..

theorem get?_real (related : Matches ended real fresh) (usable : real.Usable ended number)
    (name : String) :
    Fields.get? (real.machine.arena.frame (real.scope number)).locals name =
      (Fields.get? (fresh.machine.arena.frame number).locals name).map (·.mapScopes real.scope) := by
  rw [related.frames number usable]
  exact Fields.get?_mapValues ..

theorem view_real (related : Matches ended real fresh) (usable : real.Usable ended number) :
    (real.machine.arena.frame (real.scope number)).view = (fresh.machine.arena.frame number).view := by
  rw [related.frames number usable]
  rfl

theorem libraries_real (related : Matches ended real fresh) (usable : real.Usable ended number) :
    (real.machine.arena.frame (real.scope number)).libraries =
      (fresh.machine.arena.frame number).libraries := by
  rw [related.frames number usable]
  rfl

theorem binding?_real (related : Matches ended real fresh) (usable : real.Usable ended number)
    (name : String) :
    real.machine.arena.binding? real.machine.memory (real.scope number) name =
      (fresh.machine.arena.binding? fresh.machine.memory number name).map (·.mapScopes real.scope) := by
  obtain ⟨chain, all⟩ := related.chain_real usable
  unfold Arena.binding?
  rw [chain]
  refine findSome?_renamed fun id member => ?_
  simp only [Arena.bindingIn?, related.contains_real (all id member), related.view_real (all id member),
    related.memory]
  split
  · rfl
  · split
    · split <;> rfl
    · rfl

theorem usable_of_binding (related : Matches ended real fresh) (usable : real.Usable ended number)
    {name : String} {owner : ScopeId}
    (found : fresh.machine.arena.binding? fresh.machine.memory number name = some (.inScope owner)) :
    real.Usable ended owner := by
  exact (related.chain_real usable).2 owner (Arena.mem_chain_of_binding? found).1

theorem resolveCall_real (related : Matches ended real fresh) (usable : real.Usable ended number)
    (name : String) :
    real.machine.arena.resolveCall (real.scope number) name =
      (fresh.machine.arena.resolveCall number name).map (·.mapScopes real.scope) := by
  obtain ⟨chain, all⟩ := related.chain_real usable
  have each : ∀ id ∈ fresh.machine.arena.chain number,
      real.machine.arena.calleeIn? name (real.scope id) =
        (fresh.machine.arena.calleeIn? name id).map (·.mapScopes real.scope) := by
    intro id member
    -- A closure comes before the libraries of its scope; other locals do not hide them.
    simp only [Arena.calleeIn?, related.get?_real (all id member), related.libraries_real (all id member)]
    rcases Fields.get? (fresh.machine.arena.frame id).locals name with _ | value
    · simp [Option.map_map, Function.comp_def, Arena.Callee.mapScopes]
    · cases value <;>
        simp [Option.map_map, Function.comp_def, Arena.Callee.mapScopes, Value.mapScopes]
  obtain ⟨up, upReal⟩ := related.ends_real usable
  rw [Arena.resolveCall_eq, Arena.resolveCall_eq, chain, findSome?_renamed each, up, upReal]
  cases (fresh.machine.arena.chain number).findSome? (fresh.machine.arena.calleeIn? name) <;> rfl

theorem issued_of_callee (related : Matches ended real fresh) (usable : real.Usable ended number)
    {name : String} {c : Closure}
    (found : fresh.machine.arena.resolveCall number name = .ok (.closure c)) :
    c.scope.index < real.issued.length := by
  obtain ⟨id, member, ⟨_, same, bound⟩ | ⟨_, _, _, different⟩⟩ := Arena.mem_chain_of_resolveCall found
  · cases same
    exact related.stored id ((related.chain_real usable).2 id member) _ (Fields.mem_of_get? bound) _ rfl
  · cases different

theorem search_real (related : Matches ended real fresh) (usable : real.Usable ended number)
    (name : String) :
    real.machine.arena.search real.machine.memory (real.scope number) name =
      fresh.machine.arena.search fresh.machine.memory number name := by
  simp only [Arena.search, related.view_real usable, related.memory]

end Matches

end Session

end RuleScript
