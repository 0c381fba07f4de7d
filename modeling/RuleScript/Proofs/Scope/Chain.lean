import Mathlib.Data.Fintype.EquivFin
import Mathlib.Logic.Relation
import RuleScript.Proofs.Scope.Walks

/-! Chains of scopes that end.

A look-up walks from a scope to its parent until it finds a frame without one. A path is such a walk written
down. Where there is a path, it is the chain of the scope, so the walk is never cut short.
-/

set_option autoImplicit false

namespace RuleScript.Arena

variable {arena later : Arena} {scope other parent : ScopeId} {path : List ScopeId}

/-- The scopes from a scope up to one that has no parent. -/
inductive Path (arena : Arena) : ScopeId → List ScopeId → Prop where
  | top {scope : ScopeId} (inside : scope.index < arena.frames.size)
      (last : (arena.frame scope).parent = none) : Path arena scope [scope]
  | up {scope parent : ScopeId} {above : List ScopeId} (has : (arena.frame scope).parent = some parent)
      (rest : Path arena parent above) : Path arena scope (scope :: above)

namespace Path

theorem self_mem (walk : arena.Path scope path) : scope ∈ path := by
  cases walk <;> simp

theorem bound (walk : arena.Path scope path) : ∀ id ∈ path, id.index < arena.frames.size := by
  induction walk with
  | top inside last => simpa using inside
  | up has rest ih => simpa using ⟨bound_of_parent has, ih⟩

theorem unique {second : List ScopeId} (left : arena.Path scope path) (right : arena.Path scope second) :
    path = second := by
  induction left generalizing second with
  | top inside last =>
    cases right with
    | top => rfl
    | up has rest => simp [last] at has
  | up has rest ih =>
    cases right with
    | top inside last => simp [last] at has
    | up other above =>
      cases has.symm.trans other
      rw [ih above]

theorem drop (walk : arena.Path scope path) (member : other ∈ path) :
    ∃ rest, arena.Path other rest ∧ rest <:+ path := by
  induction walk with
  | top inside last =>
    cases List.mem_singleton.mp member
    exact ⟨_, .top inside last, List.suffix_rfl⟩
  | up has rest ih =>
    rcases List.mem_cons.mp member with rfl | above
    · exact ⟨_, .up has rest, List.suffix_rfl⟩
    · obtain ⟨tail, found, suffix⟩ := ih above
      exact ⟨tail, found, suffix.trans (List.suffix_cons ..)⟩

theorem of_append {below above : List ScopeId} (walk : arena.Path scope (below ++ other :: above)) :
    arena.Path other (other :: above) := by
  induction below generalizing scope with
  | nil =>
    have here := walk
    cases walk <;> exact here
  | cons first below ih =>
    generalize split : first :: below ++ other :: above = path at walk
    cases walk with
    | top => simp at split
    | up has rest =>
      obtain ⟨-, rfl⟩ := List.cons_eq_cons.mp split
      exact ih rest

theorem parent_mem (walk : arena.Path scope path) (member : other ∈ path)
    (has : (arena.frame other).parent = some parent) : parent ∈ path := by
  obtain ⟨rest, found, suffix⟩ := walk.drop member
  cases found with
  | top inside last => simp [last] at has
  | up next above =>
    cases next.symm.trans has
    exact suffix.subset (List.mem_cons_of_mem _ above.self_mem)

theorem nodup (walk : arena.Path scope path) : path.Nodup := by
  induction walk with
  | top => simp
  | up has rest ih =>
    refine List.nodup_cons.mpr ⟨fun again => ?_, ih⟩
    -- A scope above itself would start two paths of different lengths.
    obtain ⟨tail, found, suffix⟩ := rest.drop again
    have longer := congrArg List.length (found.unique (.up has rest))
    have shorter := suffix.length_le
    simp only [List.length_cons] at longer
    omega

theorem length_le (walk : arena.Path scope path) : path.length ≤ arena.frames.size := by
  have indices : (path.map ScopeId.index).Nodup := walk.nodup.map index_injective
  have below : path.map ScopeId.index ⊆ List.range arena.frames.size := fun index member => by
    obtain ⟨id, found, rfl⟩ := List.mem_map.mp member
    exact List.mem_range.mpr (walk.bound id found)
  simpa using (indices.subperm below).length_le

theorem chainWithin (walk : arena.Path scope path) {limit : Nat} (enough : path.length ≤ limit) :
    arena.chainWithin limit scope = path := by
  induction walk generalizing limit with
  | top inside last =>
    obtain _ | limit := limit
    · simp at enough
    · simp [Arena.chainWithin, last]
  | up has rest ih =>
    obtain _ | limit := limit
    · simp at enough
    · simp [Arena.chainWithin, has, ih (by simpa using enough)]

/-- The chain of a scope is its path. -/
theorem chain (walk : arena.Path scope path) : arena.chain scope = path :=
  walk.chainWithin walk.length_le

theorem endsWithin (walk : arena.Path scope path) {limit : Nat} (enough : path.length ≤ limit) :
    arena.endsWithin limit scope = true := by
  induction walk generalizing limit with
  | top inside last =>
    obtain _ | limit := limit
    · simp at enough
    · simp [Arena.endsWithin, last]
  | up has rest ih =>
    obtain _ | limit := limit
    · simp at enough
    · simp [Arena.endsWithin, has, ih (by simpa using enough)]

theorem ends (walk : arena.Path scope path) : arena.ends scope = true :=
  walk.endsWithin walk.length_le

theorem congr (walk : arena.Path scope path)
    (kept : ∀ id ∈ path, id.index < later.frames.size ∧
      (later.frame id).parent = (arena.frame id).parent) : later.Path scope path := by
  induction walk with
  | top inside last =>
    obtain ⟨inside, same⟩ := kept _ (List.mem_singleton.mpr rfl)
    exact .top inside (same.trans last)
  | up has rest ih =>
    refine .up ((kept _ List.mem_cons_self).2.trans has) (ih fun id member => ?_)
    exact kept id (List.mem_cons_of_mem _ member)

end Path

/-- An arena whose parents are scopes of its own, none of them above itself. -/
structure Acyclic (arena : Arena) : Prop where
  bound : ∀ scope parent, (arena.frame scope).parent = some parent → parent.index < arena.frames.size
  no_cycle : ∀ scope, ¬ Relation.TransGen (fun below above => (arena.frame below).parent = some above) scope scope

/-- Parents that were made before their children make no cycle. -/
theorem Acyclic.of_lt
    (earlier : ∀ scope parent, (arena.frame scope).parent = some parent → parent.index < scope.index) :
    arena.Acyclic where
  bound scope parent has := (earlier scope parent has).trans (bound_of_parent has)
  no_cycle scope cycle := by
    have falls : ∀ {first last : ScopeId},
        Relation.TransGen (fun below above => (arena.frame below).parent = some above) first last →
        last.index < first.index := fun climbs => by
      induction climbs with
      | single has => exact earlier _ _ has
      | tail _ has ih => exact (earlier _ _ has).trans ih
    exact Nat.lt_irrefl _ (falls cycle)

/-- Without a cycle every chain ends, since an arena has finitely many frames. -/
theorem Acyclic.exists_path (acyclic : arena.Acyclic) (inside : scope.index < arena.frames.size) :
    ∃ path, arena.Path scope path := by
  let Inside := { id : ScopeId // id.index < arena.frames.size }
  let above (upper lower : Inside) : Prop :=
    Relation.TransGen (fun below above => (arena.frame below).parent = some above) lower.1 upper.1
  have : Finite Inside :=
    Finite.of_injective (fun id : Inside => (⟨id.1.index, id.2⟩ : Fin arena.frames.size)) fun _ _ same =>
      Subtype.ext (index_injective (congrArg Fin.val same))
  have : IsTrans Inside above := ⟨fun _ _ _ first second => second.trans first⟩
  have : Std.Irrefl above := ⟨fun id => acyclic.no_cycle id.1⟩
  have climbs : WellFounded above := Finite.wellFounded_of_trans_of_irrefl above
  suffices ∀ id : Inside, ∃ path, arena.Path id.1 path from this ⟨scope, inside⟩
  intro id
  induction id using climbs.induction with
  | _ id ih =>
    cases has : (arena.frame id.1).parent with
    | none => exact ⟨[id.1], .top id.2 has⟩
    | some parent =>
      obtain ⟨path, walk⟩ := ih ⟨parent, acyclic.bound id.1 parent has⟩ (.single has)
      exact ⟨id.1 :: path, .up has walk⟩

theorem Path.captured_dropWhile (walk : arena.Path scope path)
    (closed : ∀ id ∈ path, ∀ parent, (arena.frame id).captured = true →
      (arena.frame id).parent = some parent → (arena.frame parent).captured = true) :
    ∀ id ∈ path.dropWhile fun id => !(arena.frame id).captured, (arena.frame id).captured = true := by
  induction walk with
  | @top scope inside last =>
    cases flag : (arena.frame scope).captured <;> simp [List.dropWhile, flag]
  | @up scope parent above has rest ih =>
    have restClosed := fun id (member : id ∈ above) => closed id (List.mem_cons_of_mem _ member)
    cases flag : (arena.frame scope).captured with
    | false => simpa [List.dropWhile, flag] using ih restClosed
    | true =>
      -- The flag is set here, so nothing is dropped, and the parent has it too: the same holds of the rest.
      have all : ∀ id ∈ above, (arena.frame id).captured = true := by
        have first := closed scope List.mem_cons_self parent flag has
        have whole : above.dropWhile (fun id => !(arena.frame id).captured) = above := by
          cases rest <;> simp [List.dropWhile, first]
        simpa [whole] using ih restClosed
      simpa [List.dropWhile, flag] using all

/-- A capture reaches the whole path. It stops at the first captured scope, above which all are captured. -/
theorem Path.captured_capture (walk : arena.Path scope path)
    (closed : ∀ id ∈ path, ∀ parent, (arena.frame id).captured = true →
      (arena.frame id).parent = some parent → (arena.frame parent).captured = true) :
    ∀ id ∈ path, ((arena.capture scope).frame id).captured = true := by
  intro id member
  rw [capture_eq, walk.chain]
  rw [← List.takeWhile_append_dropWhile (p := fun id => !(arena.frame id).captured) (l := path),
    List.mem_append] at member
  -- The scopes up to the first captured one are marked now, those from there on had been.
  rcases member with marked | before
  · rw [frame_captureAll_of_mem (walk.bound id (List.takeWhile_subset _ marked)) marked]
    rfl
  · exact (frame_captureAll_keeps ..).captured (walk.captured_dropWhile closed id before)

section Found

variable {memory : Memory} {name : String}

theorem mem_chain_of_binding?
    (found : arena.binding? memory scope name = some (.inScope other)) :
    other ∈ arena.chain scope ∧ Fields.contains (arena.frame other).locals name = true := by
  obtain ⟨id, member, here⟩ := List.exists_of_findSome?_eq_some found
  unfold bindingIn? at here
  dsimp only at here
  split at here
  case isTrue present =>
    cases here
    exact ⟨member, present⟩
  case isFalse =>
    split at here
    · split at here <;> cases here
    · cases here

theorem mem_chain_of_resolveCall {callee : Callee} (found : arena.resolveCall scope name = .ok callee) :
    ∃ id ∈ arena.chain scope,
      (∃ c, callee = .closure c ∧ Fields.get? (arena.frame id).locals name = some (.closure c)) ∨
      ∃ library ∈ (arena.frame id).libraries, library.has name = true ∧ callee = .library library := by
  rw [resolveCall_eq] at found
  split at found
  case h_2 => cases found
  case h_1 reached =>
    cases found
    obtain ⟨id, member, here⟩ := List.exists_of_findSome?_eq_some reached
    refine ⟨id, member, ?_⟩
    unfold calleeIn? at here
    dsimp only at here
    split at here
    case h_1 c bound =>
      cases here
      exact .inl ⟨c, rfl, bound⟩
    case h_2 =>
      obtain ⟨library, known, rfl⟩ := Option.map_eq_some_iff.mp here
      exact .inr ⟨library, List.mem_of_find?_eq_some known, by simpa using List.find?_some known, rfl⟩

end Found

end RuleScript.Arena
