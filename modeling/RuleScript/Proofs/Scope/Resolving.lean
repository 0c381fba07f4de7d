import RuleScript.Proofs.Scope.Chain

/-! What a called name reaches.

A frame offers at most one callee under a name: its variable if that is a closure, else the first of its libraries that
has the name. On the way up from a scope the first frame that offers one answers the call. Other variables and data
views have no part in it.
-/

set_option autoImplicit false

namespace RuleScript

open Arena (Callee)

def Frame.NoClosure (frame : Frame) (name : String) : Prop :=
  ∀ closure, Fields.get? frame.locals name ≠ some (.closure closure)

/-- What a frame offers to calls of a name: its variable of that name if it is a closure, else the first of its
libraries, in import order, that has the name. -/
inductive Frame.Offers (frame : Frame) (name : String) : Callee → Prop where
  | closure {closure : Closure} (bound : Fields.get? frame.locals name = some (.closure closure)) :
    Offers frame name (.closure closure)
  | library {before after : List Library} {library : Library}
    (unbound : frame.NoClosure name) (imported : frame.libraries = before ++ library :: after)
    (has : library.has name = true) (first : ∀ earlier ∈ before, earlier.has name = false) :
    Offers frame name (.library library)

structure Frame.Silent (frame : Frame) (name : String) : Prop where
  unbound : frame.NoClosure name
  unknown : ∀ library ∈ frame.libraries, library.has name = false

namespace Arena

variable {arena other : Arena} {scope owner : ScopeId} {name : String} {callee : Callee} {path : List ScopeId}

theorem calleeIn?_of_closure {closure : Closure}
    (bound : Fields.get? (arena.frame scope).locals name = some (.closure closure)) :
    arena.calleeIn? name scope = some (.closure closure) := by
  simp only [calleeIn?, bound]

theorem calleeIn?_of_noClosure (unbound : (arena.frame scope).NoClosure name) :
    arena.calleeIn? name scope = ((arena.frame scope).libraries.find? (·.has name)).map .library := by
  unfold calleeIn?
  dsimp only
  split
  case h_1 closure bound => exact absurd bound (unbound closure)
  case h_2 => rfl

theorem calleeIn?_eq_some_iff :
    arena.calleeIn? name scope = some callee ↔ (arena.frame scope).Offers name callee := by
  by_cases bound : ∃ closure, Fields.get? (arena.frame scope).locals name = some (.closure closure)
  · obtain ⟨closure, bound⟩ := bound
    rw [calleeIn?_of_closure bound]
    constructor
    · intro same
      cases same
      exact .closure bound
    · intro offers
      cases offers with
      | closure again =>
        cases bound.symm.trans again
        rfl
      | library unbound => exact absurd bound (unbound closure)
  · -- Whatever else has the name, the libraries are asked.
    have unbound : (arena.frame scope).NoClosure name := fun closure same => bound ⟨closure, same⟩
    rw [calleeIn?_of_noClosure unbound]
    constructor
    · intro found
      obtain ⟨library, first, rfl⟩ := Option.map_eq_some_iff.mp found
      obtain ⟨has, before, after, imported, none⟩ := List.find?_eq_some_iff_append.mp first
      exact .library unbound imported has fun earlier member => by simpa using none earlier member
    · intro offers
      cases offers with
      | closure again => exact absurd again (unbound _)
      | @library before after library _ imported has none =>
        have first : (arena.frame scope).libraries.find? (·.has name) = some library := by
          apply List.find?_eq_some_iff_append.mpr
          exact ⟨has, before, after, imported, fun earlier member => by simp [none earlier member]⟩
        rw [first]
        rfl

theorem calleeIn?_eq_none_iff : arena.calleeIn? name scope = none ↔ (arena.frame scope).Silent name := by
  constructor
  · intro nothing
    have unbound : (arena.frame scope).NoClosure name := by
      intro closure bound
      rw [calleeIn?_of_closure bound] at nothing
      cases nothing
    refine ⟨unbound, fun library member => ?_⟩
    rw [calleeIn?_of_noClosure unbound, Option.map_eq_none_iff, List.find?_eq_none] at nothing
    simpa using nothing library member
  · intro silent
    rw [calleeIn?_of_noClosure silent.unbound, Option.map_eq_none_iff, List.find?_eq_none]
    intro library member
    simp [silent.unknown library member]

theorem resolveCall_ok_iff :
    arena.resolveCall scope name = .ok callee ↔
      ∃ below owner above, arena.chain scope = below ++ owner :: above ∧ (∀ id ∈ below, (arena.frame id).Silent name) ∧
        (arena.frame owner).Offers name callee := by
  have found : arena.resolveCall scope name = .ok callee ↔
      (arena.chain scope).findSome? (arena.calleeIn? name) = some callee := by
    rw [resolveCall_eq]
    split
    case h_1 first reached => simp [reached]
    case h_2 nothing => simp [nothing]
  rw [found, List.findSome?_eq_some_iff]
  constructor
  · rintro ⟨below, owner, above, split, here, none⟩
    refine ⟨below, owner, above, split, fun id member => ?_, calleeIn?_eq_some_iff.mp here⟩
    exact calleeIn?_eq_none_iff.mp (none id member)
  · rintro ⟨below, owner, above, split, none, here⟩
    refine ⟨below, owner, above, split, calleeIn?_eq_some_iff.mpr here, fun id member => ?_⟩
    exact calleeIn?_eq_none_iff.mpr (none id member)

theorem resolveCall_error_iff {failure : Failure} :
    arena.resolveCall scope name = .error failure ↔
      failure = (if arena.ends scope then .methodNotFound name else .crash .endlessSearch) ∧
        ∀ id ∈ arena.chain scope, (arena.frame id).Silent name := by
  have silent : (∀ id ∈ arena.chain scope, (arena.frame id).Silent name) ↔
      (arena.chain scope).findSome? (arena.calleeIn? name) = none := by
    simp only [List.findSome?_eq_none_iff, calleeIn?_eq_none_iff]
  rw [silent, resolveCall_eq]
  split
  case h_1 callee reached => simp [reached]
  case h_2 nothing =>
    rw [Except.error.injEq, eq_comm]
    simp [nothing]

/-- Two arenas whose scopes have the same parents, libraries, and closures under a name. They may differ in all other
variables, in what is bound to the name besides closures, and in data views. -/
structure CallsAlike (name : String) (arena other : Arena) : Prop where
  size : other.frames.size = arena.frames.size
  parent : ∀ scope, (other.frame scope).parent = (arena.frame scope).parent
  libraries : ∀ scope, (other.frame scope).libraries = (arena.frame scope).libraries
  closures : ∀ scope closure, Fields.get? (other.frame scope).locals name = some (.closure closure) ↔
    Fields.get? (arena.frame scope).locals name = some (.closure closure)

namespace CallsAlike

theorem ends (alike : CallsAlike name arena other) (scope : ScopeId) : other.ends scope = arena.ends scope :=
  ends_congr alike.size alike.parent scope

theorem chain (alike : CallsAlike name arena other) (scope : ScopeId) : other.chain scope = arena.chain scope :=
  chain_congr alike.size alike.parent scope

theorem offers_iff (alike : CallsAlike name arena other) (scope : ScopeId) :
    (other.frame scope).Offers name callee ↔ (arena.frame scope).Offers name callee := by
  have unbound : (other.frame scope).NoClosure name ↔ (arena.frame scope).NoClosure name :=
    forall_congr' fun closure => not_congr (alike.closures scope closure)
  constructor
  · intro offers
    cases offers with
    | closure bound => exact .closure ((alike.closures scope _).mp bound)
    | library none imported has first =>
      exact .library (unbound.mp none) (alike.libraries scope ▸ imported) has first
  · intro offers
    cases offers with
    | closure bound => exact .closure ((alike.closures scope _).mpr bound)
    | library none imported has first =>
      exact .library (unbound.mpr none) ((alike.libraries scope).trans imported) has first

theorem resolveCall (alike : CallsAlike name arena other) (scope : ScopeId) :
    other.resolveCall scope name = arena.resolveCall scope name := by
  have here : other.calleeIn? name = arena.calleeIn? name := by
    funext id
    apply Option.ext
    intro callee
    rw [calleeIn?_eq_some_iff, calleeIn?_eq_some_iff, alike.offers_iff]
  rw [resolveCall_eq, resolveCall_eq, alike.chain, alike.ends, here]

end CallsAlike

/-- A scope without a parent is the last one of a chain that it is on, and stands there once. -/
theorem chain_eq_append_of_top {top : ScopeId} (last : (arena.frame top).parent = none)
    (member : top ∈ arena.chain scope) : ∃ below, arena.chain scope = below ++ [top] ∧ top ∉ below := by
  have within : ∀ limit scope, top ∈ arena.chainWithin limit scope →
      ∃ below, arena.chainWithin limit scope = below ++ [top] ∧ top ∉ below := by
    intro limit
    induction limit with
    | zero => intro scope member; cases member
    | succ limit ih =>
      intro scope member
      -- The walk stops at the top, and never comes to it again.
      by_cases here : scope = top
      · subst here
        exact ⟨[], by simp [chainWithin, last], List.not_mem_nil⟩
      · cases has : (arena.frame scope).parent with
        | none =>
          simp only [chainWithin, has, List.mem_singleton] at member
          exact absurd member.symm here
        | some parent =>
          simp only [chainWithin, has, List.mem_cons] at member ⊢
          obtain ⟨below, split, absent⟩ := ih parent (member.resolve_left (Ne.symm here))
          exact ⟨scope :: below, by rw [split]; rfl, by simp [Ne.symm here, absent]⟩
  exact within _ _ member

theorem not_top_of_chain {top : ScopeId} {below above : List ScopeId} (last : (arena.frame top).parent = none)
    (split : arena.chain scope = below ++ owner :: above) : top ∉ below := by
  intro member
  have onChain : top ∈ arena.chain scope := split ▸ List.mem_append_left _ member
  obtain ⟨before, whole, absent⟩ := chain_eq_append_of_top last onChain
  have front : before = below ++ (owner :: above).dropLast := by
    rw [← List.dropLast_append_of_ne_nil (List.cons_ne_nil owner above), ← split, whole, List.dropLast_concat]
  exact absent (front ▸ List.mem_append_left _ member)

end Arena

end RuleScript
