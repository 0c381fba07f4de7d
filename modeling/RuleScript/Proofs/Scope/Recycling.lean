import RuleScript.Proofs.Scope.Matching

/-! Using frames again cannot be seen.

Two sessions are given the same requests. As long as the requests keep to the rules the sessions match after each of
them. So the answers are the same but for the names of scopes, and so are the documents.
-/

set_option autoImplicit false

namespace RuleScript

open Arena (Path)

/-- What releases and new scopes make of an arena, whatever scopes they are given. -/
inductive Arena.Reuses (arena : Arena) : Arena → Prop where
  | refl : Reuses arena arena
  | released {later : Arena} (scope : ScopeId) (before : Reuses arena later) :
      Reuses arena (later.release scope)
  | taken {later : Arena} (frame : Frame) (before : Reuses arena later) : Reuses arena (later.add frame).2

/-- A captured scope is never given to anyone else. -/
theorem Arena.Reuses.keeps {arena later : Arena} (reuses : arena.Reuses later) (sound : arena.Sound)
    {scope : ScopeId} (live : arena.Live scope) (captured : (arena.frame scope).captured = true) :
    later.Sound ∧ later.Live scope ∧ later.frame scope = arena.frame scope := by
  induction reuses with
  | refl => exact ⟨sound, live, rfl⟩
  | @released later other before ih =>
    obtain ⟨sound, live, same⟩ := ih
    by_cases ends : later.Releasable other
    · have apart : scope ≠ other := by
        rintro rfl
        have free := ends.1
        rw [same, captured] at free
        cases free
      exact ⟨sound.release other, live_release_of_ne live apart, (frame_release_of_ne apart).trans same⟩
    · rw [release_of_not_releasable ends]
      exact ⟨sound, live, same⟩
  | taken frame before ih =>
    obtain ⟨sound, live, same⟩ := ih
    exact ⟨sound.add frame, live_add_of_live frame sound live, (frame_add_of_live frame live).trans same⟩

namespace Session

variable {ended : List ScopeId} {real fresh : Session} {number : ScopeId}

namespace Matches

theorem modifyFrame (related : Matches ended real fresh) (usable : real.Usable ended number)
    {f g : Frame → Frame} (parents : ∀ frame : Frame, (f frame).parent = frame.parent)
    (uncaptured : ∀ frame : Frame, (f frame).captured = frame.captured)
    (parentsReal : ∀ frame : Frame, (g frame).parent = frame.parent)
    (same : ∀ frame : Frame, g (frame.mapScopes real.scope) = (f frame).mapScopes real.scope)
    (stored : ∀ frame : Frame, ∀ pair ∈ (f frame).locals, pair ∈ frame.locals ∨
      ∀ id, pair.2.handle? = some id → id.index < real.issued.length) :
    Matches ended
      ⟨⟨real.machine.arena.modifyFrame (real.scope number) g, real.machine.memory⟩, real.issued⟩
      ⟨⟨fresh.machine.arena.modifyFrame number f, fresh.machine.memory⟩, fresh.issued⟩ where
  numbered := related.numbered
  size := by simpa using related.size
  free := related.free
  sound := related.sound.modifyFrame parentsReal
  memory := related.memory
  live other good := (Arena.live_modifyFrame g).mpr (related.live other good)
  injective := related.injective
  frames other good := by
    change (real.machine.arena.modifyFrame (real.scope number) g).frame (real.scope other) =
      ((fresh.machine.arena.modifyFrame number f).frame other).mapScopes real.scope
    by_cases equal : other = number
    · subst equal
      have inside : other.index < fresh.machine.arena.frames.size := related.size ▸ usable.1
      rw [Arena.frame_modifyFrame_self f inside,
        Arena.frame_modifyFrame_self g (related.live other usable).1, related.frames other usable]
      exact same _
    · -- Two usable numbers never have one scope.
      have apart : real.scope other ≠ real.scope number := fun equalScopes =>
        equal (related.injective other number good usable equalScopes)
      rw [Arena.frame_modifyFrame_of_ne f equal, Arena.frame_modifyFrame_of_ne g apart]
      exact related.frames other good
  parents other good parent has :=
    related.parents other good parent ((Arena.part_modifyFrame Frame.parent parents).symm.trans has)
  stored other good pair member := by
    change pair ∈ ((fresh.machine.arena.modifyFrame number f).frame other).locals at member
    by_cases equal : other = number
    · subst equal
      have inside : other.index < fresh.machine.arena.frames.size := related.size ▸ usable.1
      rw [Arena.frame_modifyFrame_self f inside] at member
      exact (stored _ pair member).elim (related.stored other good pair) id
    · rw [Arena.frame_modifyFrame_of_ne f equal] at member
      exact related.stored other good pair member
  kept other flag := related.kept other ((Arena.part_modifyFrame Frame.captured uncaptured).symm.trans flag)
  closed other flag parent has :=
    (Arena.part_modifyFrame Frame.captured uncaptured).trans <|
      related.closed other ((Arena.part_modifyFrame Frame.captured uncaptured).symm.trans flag) parent
        ((Arena.part_modifyFrame Frame.parent parents).symm.trans has)

theorem withMemory (related : Matches ended real fresh) (memory : Memory) :
    Matches ended ⟨⟨real.machine.arena, memory⟩, real.issued⟩
      ⟨⟨fresh.machine.arena, memory⟩, fresh.issued⟩ :=
  { related with memory := rfl }

theorem usable_append (related : Matches ended real fresh) {id : ScopeId} {machine : Machine}
    (usable : Session.Usable ⟨machine, real.issued ++ [id]⟩ ended number) :
    real.Usable ended number ∨ number = ⟨fresh.machine.arena.frames.size⟩ := by
  obtain ⟨inside, given⟩ := usable
  rw [List.length_append, List.length_singleton, Nat.lt_succ_iff_lt_or_eq] at inside
  refine inside.imp (⟨·, given⟩) fun last => Arena.index_injective ?_
  exact last.trans related.size.symm

theorem allocate (related : Matches ended real fresh) {frame : Frame} (clean : frame.locals = [])
    (uncaptured : frame.captured = false)
    (above : ∀ parent, frame.parent = some parent → real.Usable ended parent) :
    Matches ended (real.allocate (·.add (frame.mapScopes real.scope))).2
      (fresh.allocate (·.add frame)).2 := by
  let id := (real.machine.arena.add (frame.mapScopes real.scope)).1
  let later := (real.allocate (·.add (frame.mapScopes real.scope))).2
  let new : ScopeId := ⟨fresh.machine.arena.frames.size⟩
  have added : fresh.machine.arena.add frame = (new, ⟨fresh.machine.arena.frames.push frame, []⟩) := by
    unfold Arena.add
    rw [related.free]
  -- Each usable number is an old one, with the scope and the frame it had, or the new one.
  have frame_new : ((fresh.allocate (·.add frame)).2.machine.arena.frame new) = frame := by
    change (fresh.machine.arena.add frame).2.frame new = frame
    simp [added, new, Arena.frame, Array.getD_eq_getD_getElem?]
  have frame_old : ∀ {number : ScopeId}, number ≠ new →
      (fresh.allocate (·.add frame)).2.machine.arena.frame number = fresh.machine.arena.frame number := by
    intro number other
    exact Arena.frame_add_of_ne frame (by rw [added]; exact other)
  have more : real.issued <+: later.issued := List.prefix_append ..
  have scope_old : ∀ {number : ScopeId}, number.index < real.issued.length →
      later.scope number = real.scope number := fun made => scope_of_prefix more made
  have scope_new : later.scope new = id := by
    simp [later, Session.allocate, Session.scope, new, related.size, id]
  have old_ne : ∀ {number : ScopeId}, number.index < real.issued.length → number ≠ new := by
    rintro number made rfl
    exact Nat.lt_irrefl _ (related.size ▸ made)
  have scope_ne : ∀ {number : ScopeId}, real.Usable ended number → real.scope number ≠ id := by
    intro number usable same
    exact Arena.not_live_add _ _ (same ▸ related.live number usable)
  refine {
    numbered := ?numbered, size := ?size, free := ?free, sound := related.sound.add _
    memory := related.memory, live := ?live, injective := ?injective, frames := ?frames
    parents := ?parents, stored := ?stored, kept := ?kept, closed := ?closed }
  case numbered =>
    change fresh.issued ++ [(fresh.machine.arena.add frame).1] = _
    simp [Session.allocate, added, related.numbered, List.range_succ, new, related.size]
  case size =>
    change (fresh.machine.arena.add frame).2.frames.size = _
    simp [Session.allocate, added, related.size]
  case free =>
    change (fresh.machine.arena.add frame).2.free = []
    rw [added]
  case live =>
    intro number usable
    refine (Arena.live_add_iff _ related.sound).mpr ?_
    rcases related.usable_append usable with old | rfl
    · exact .inr (by rw [scope_old old.1]; exact related.live number old)
    · exact .inl scope_new
  case injective =>
    intro first second good other same
    rcases related.usable_append good with old | rfl <;> rcases related.usable_append other with before | rfl
    · rw [scope_old old.1, scope_old before.1] at same
      exact related.injective first second old before same
    · rw [scope_old old.1, scope_new] at same
      exact absurd same (scope_ne old)
    · rw [scope_old before.1, scope_new] at same
      exact absurd same.symm (scope_ne before)
    · rfl
  case frames =>
    intro number usable
    rcases related.usable_append usable with old | rfl
    · rw [scope_old old.1, frame_old (old_ne old.1)]
      refine (Arena.frame_add_of_ne _ (scope_ne old)).trans ((related.frames number old).trans ?_)
      refine Frame.mapScopes_congr (fun pair member id has => ?_) fun parent has => ?_
      · exact (scope_old (related.stored number old pair member id has)).symm
      · exact (scope_old (related.parents number old parent has).1.1).symm
    · rw [scope_new, frame_new]
      refine (Arena.frame_add_self _ related.sound).trans (Frame.mapScopes_congr ?_ fun parent has => ?_)
      · exact fun pair member => by simp [clean] at member
      · exact (scope_old (above parent has).1).symm
  case parents =>
    intro number usable parent has
    rcases related.usable_append usable with old | rfl
    · rw [frame_old (old_ne old.1)] at has
      exact (related.parents number old parent has).imp_left (·.ofLonger more)
    · rw [frame_new] at has
      exact ⟨(above parent has).ofLonger more, related.size ▸ (above parent has).1⟩
  case stored =>
    intro number usable pair member other has
    rcases related.usable_append usable with old | rfl
    · rw [frame_old (old_ne old.1)] at member
      exact (related.stored number old pair member other has).trans_le more.length_le
    · rw [frame_new, clean] at member
      cases member
  case kept =>
    intro number flag
    by_cases same : number = new
    · simp [same, frame_new, uncaptured] at flag
    · rw [frame_old same] at flag
      exact (related.kept number flag).ofLonger more
  case closed =>
    intro number flag parent has
    by_cases same : number = new
    · simp [same, frame_new, uncaptured] at flag
    · rw [frame_old same] at flag has
      have usable := (related.parents number (related.kept number flag) parent has).1
      rw [frame_old (old_ne usable.1)]
      exact related.closed number flag parent has

theorem captureAll (related : Matches ended real fresh) {scopes : List ScopeId}
    (usable : ∀ id ∈ scopes, real.Usable ended id)
    (closed : ∀ id ∈ scopes, ∀ parent, (fresh.machine.arena.frame id).parent = some parent →
      ((fresh.machine.arena.captureAll scopes).frame parent).captured = true) :
    Matches ended
      ⟨⟨real.machine.arena.captureAll (scopes.map real.scope), real.machine.memory⟩, real.issued⟩
      ⟨⟨fresh.machine.arena.captureAll scopes, fresh.machine.memory⟩, fresh.issued⟩ where
  numbered := related.numbered
  size := (Arena.captureAll_size ..).trans related.size
  free := (Arena.captureAll_free ..).trans related.free
  sound := related.sound.captureAll _
  memory := related.memory
  live number good := (Arena.live_captureAll ..).mpr (related.live number good)
  injective := related.injective
  frames number good := by
    change (real.machine.arena.captureAll (scopes.map real.scope)).frame (real.scope number) =
      ((fresh.machine.arena.captureAll scopes).frame number).mapScopes real.scope
    by_cases member : number ∈ scopes
    · rw [Arena.frame_captureAll_of_mem (related.size ▸ good.1) member,
        Arena.frame_captureAll_of_mem (related.live number good).1 (List.mem_map_of_mem member),
        related.frames number good]
      rfl
    · -- Two usable numbers never have one scope, so no scope of another number is captured.
      have absent : real.scope number ∉ scopes.map real.scope := fun found => by
        obtain ⟨other, inside, same⟩ := List.mem_map.mp found
        exact member (related.injective other number (usable other inside) good same ▸ inside)
      rw [Arena.frame_captureAll_of_not_mem member, Arena.frame_captureAll_of_not_mem absent]
      exact related.frames number good
  parents number good parent has :=
    related.parents number good parent ((Arena.frame_captureAll_keeps ..).parent.symm.trans has)
  stored number good pair member :=
    related.stored number good pair ((Arena.locals_captureAll fresh.machine.arena scopes number) ▸ member)
  kept number flag := by
    by_cases member : number ∈ scopes
    · exact usable number member
    · exact related.kept number ((congrArg Frame.captured (Arena.frame_captureAll_of_not_mem member)) ▸ flag)
  closed number flag parent has := by
    have before := (Arena.frame_captureAll_keeps fresh.machine.arena scopes number).parent.symm.trans has
    by_cases member : number ∈ scopes
    · exact closed number member parent before
    · have old := (congrArg Frame.captured (Arena.frame_captureAll_of_not_mem member)).symm.trans flag
      exact (Arena.frame_captureAll_keeps ..).captured (related.closed number old parent before)

theorem capture (related : Matches ended real fresh) (usable : real.Usable ended number) :
    Matches ended
      ⟨⟨real.machine.arena.capture (real.scope number), real.machine.memory⟩, real.issued⟩
      ⟨⟨fresh.machine.arena.capture number, fresh.machine.memory⟩, fresh.issued⟩ := by
  obtain ⟨path, walk, all⟩ := related.exists_path usable
  have marked : (path.map real.scope).takeWhile (fun id => !(real.machine.arena.frame id).captured) =
      (path.takeWhile fun id => !(fresh.machine.arena.frame id).captured).map real.scope :=
    takeWhile_renamed fun id member => by rw [related.frames id (all id member)]; rfl
  rw [Arena.capture_eq, Arena.capture_eq, walk.chain, (related.path_real walk all).chain, marked]
  refine related.captureAll (fun id member => all id (List.takeWhile_subset _ member)) ?_
  intro id member parent has
  have reached := walk.captured_capture (fun other _ parent flag => related.closed other flag parent) parent
    (walk.parent_mem (List.takeWhile_subset _ member) has)
  rwa [Arena.capture_eq, walk.chain] at reached

/-- A release that takes effect ends the use of its number, and nothing else. -/
theorem release (related : Matches ended real fresh) (usable : real.Usable ended number)
    (childless : real.machine.arena.Releasable (real.scope number) →
      ∀ other, real.machine.arena.Live other →
        (real.machine.arena.frame other).parent ≠ some (real.scope number)) :
    Matches (real.endedBy ended (.release number))
      ⟨⟨real.machine.arena.release (real.scope number), real.machine.memory⟩, real.issued⟩ fresh := by
  change Matches (if real.machine.arena.Releasable (real.scope number) then number :: ended else ended) _ _
  by_cases ends : real.machine.arena.Releasable (real.scope number)
  case neg =>
    rw [if_neg ends, Arena.release_of_not_releasable ends]
    exact related
  rw [if_pos ends]
  have still : ∀ {other : ScopeId}, real.Usable (number :: ended) other →
      real.Usable ended other ∧ other ≠ number := by
    rintro other ⟨made, open_⟩
    rw [List.mem_cons, not_or] at open_
    exact ⟨⟨made, open_.2⟩, open_.1⟩
  have apart : ∀ {other : ScopeId}, real.Usable (number :: ended) other →
      real.scope other ≠ real.scope number := fun good same =>
    (still good).2 (related.injective _ _ (still good).1 usable same)
  exact {
    numbered := related.numbered
    size := related.size
    free := related.free
    sound := related.sound.release _
    memory := related.memory
    live := fun other good =>
      (Arena.live_release_iff ends).mpr ⟨related.live other (still good).1, apart good⟩
    injective := fun first second good other => related.injective first second (still good).1 (still other).1
    frames := fun other good => (Arena.frame_release_of_ne (apart good)).trans
      (related.frames other (still good).1)
    parents := fun other good parent has => by
      obtain ⟨above, earlier⟩ := related.parents other (still good).1 parent has
      refine ⟨⟨above.1, ?_⟩, earlier⟩
      rw [List.mem_cons, not_or]
      -- The given back scope would be the parent of a live one.
      refine ⟨fun same => ?_, above.2⟩
      refine childless ends _ (related.live other (still good).1) ?_
      simp [related.frames other (still good).1, Frame.mapScopes, has, same]
    stored := fun other good => related.stored other (still good).1
    kept := fun other flag => by
      have before := related.kept other flag
      refine ⟨before.1, ?_⟩
      rw [List.mem_cons, not_or]
      -- A captured scope is not releasable.
      refine ⟨fun same => ?_, before.2⟩
      have free := ends.1
      rw [← same, related.frames other before] at free
      simp [Frame.mapScopes, flag] at free
    closed := related.closed }

end Matches

/-- Two outcomes of a request that differ only in names of scopes, and after which the sessions still match. -/
def Alike (ended issued : List ScopeId) (ours theirs : Option (ScopeAnswer × Session)) : Prop :=
  ∃ answer real fresh, theirs = some (answer, fresh) ∧ ours = some (answer.mapScopes real.scope, real) ∧
    Matches ended real fresh ∧ issued <+: real.issued ∧
    ∀ id, answer.handle? = some id → id.index < real.issued.length

def ignoring (arena : Arena) (_ : ScopeId) : Arena :=
  arena

namespace Matches

theorem done (related : Matches ended real fresh) {issued : List ScopeId} (more : issued <+: real.issued) :
    Alike ended issued (some (.done, real)) (some (.done, fresh)) :=
  ⟨.done, real, fresh, rfl, rfl, related, more, fun _ has => nomatch has⟩

theorem answered (related : Matches ended real fresh) {ours : ScopeAnswer} (theirs : ScopeAnswer)
    (same : ours = theirs.mapScopes real.scope)
    (issued : ∀ id, theirs.handle? = some id → id.index < real.issued.length) :
    Alike ended real.issued (some (ours, real)) (some (theirs, fresh)) :=
  ⟨theirs, real, fresh, rfl, congrArg (fun answer => some (answer, real)) same, related, List.prefix_rfl, issued⟩

theorem allocated (related : Matches ended real fresh) (frame : Frame) (clean : frame.locals = [])
    (uncaptured : frame.captured = false)
    (above : ∀ parent, frame.parent = some parent → real.Usable ended parent) :
    Alike ended real.issued (some (real.allocate (·.add (frame.mapScopes real.scope))))
      (some (fresh.allocate (·.add frame))) := by
  have later := related.allocate clean uncaptured above
  have next : (fresh.allocate (·.add frame)).1 = .scope ⟨real.issued.length⟩ := by
    change ScopeAnswer.scope (fresh.machine.arena.add frame).1 = _
    unfold Arena.add
    rw [related.free, related.size]
  refine ⟨_, _, _, congrArg some (Prod.ext next rfl), congrArg some (Prod.ext ?_ rfl), later,
    List.prefix_append .., ?_⟩
  · simp [Session.allocate, ScopeAnswer.mapScopes, Session.scope]
  · rintro id ⟨⟩
    simp [Session.allocate]

theorem lookedUp (related : Matches ended real fresh) (usable : real.Usable ended number) (name : String) :
    Alike ended real.issued (real.ask (Machine.lookUp (real.scope number) name))
      (fresh.ask (Machine.lookUp number name)) := by
  unfold Session.ask Run.perform Task.run
  obtain ⟨up, upReal⟩ := related.ends_real usable
  rw [Machine.lookUp_apply, Machine.lookUp_apply, related.binding?_real usable, up, upReal]
  cases bound : fresh.machine.arena.binding? fresh.machine.memory number name with
  | none => exact related.answered _ rfl fun _ has => nomatch has
  | some binding =>
    cases binding with
    | inScope owner =>
      have good := related.usable_of_binding usable bound
      refine related.answered
        (.value (.ok ((Fields.get? (fresh.machine.arena.frame owner).locals name).getD .empty))) ?_ ?_
      · simp only [related.get?_real good]
        cases Fields.get? (fresh.machine.arena.frame owner).locals name <;> rfl
      · intro id has
        cases found : Fields.get? (fresh.machine.arena.frame owner).locals name with
        | none => simp [found, ScopeAnswer.handle?, Value.handle?] at has
        | some value =>
          refine related.stored owner good _ (Fields.mem_of_get? found) id ?_
          simpa [found, ScopeAnswer.handle?] using has
    | member view =>
      -- A node of a document names no scope.
      have plain := View.handle?_get view name fresh.machine.memory
      refine ⟨.value (.ok (view.get name fresh.machine.memory).1), _, _, rfl, ?_,
        related.withMemory (view.get name fresh.machine.memory).2, List.prefix_rfl, ?_⟩
      · simp [Poll.finish, related.memory, ScopeAnswer.mapScopes, Except.map, Arena.Binding.mapScopes,
          Value.mapScopes_of_plain _ _ plain]
      · simp [ScopeAnswer.handle?, plain]

theorem write (related : Matches ended real fresh) (usable : real.Usable ended number) (name : String)
    {value : Value} (made : ∀ id, value.handle? = some id → id.index < real.issued.length) :
    Matches ended
      ⟨⟨real.machine.arena.modifyFrame (real.scope number) (Frame.write name (value.mapScopes real.scope)),
        real.machine.memory⟩, real.issued⟩
      ⟨⟨fresh.machine.arena.modifyFrame number (Frame.write name value), fresh.machine.memory⟩,
        fresh.issued⟩ := by
  refine related.modifyFrame (f := Frame.write name value) (g := Frame.write name (value.mapScopes real.scope))
    usable (fun _ => rfl) (fun _ => rfl) (fun _ => rfl) (fun frame => ?_) fun frame pair member => ?_
  · exact congrArg (fun locals => { frame.mapScopes real.scope with locals })
      (Fields.put_mapValues (Value.mapScopes real.scope) frame.locals name value)
  · rcases Fields.mem_put member with rfl | old
    · exact .inr made
    · exact .inl old

theorem declared (related : Matches ended real fresh) (usable : real.Usable ended number) (name : String)
    {value : Value} (made : ∀ id, value.handle? = some id → id.index < real.issued.length) :
    Alike ended real.issued
      (real.ask (Machine.declare (real.scope number) name (value.mapScopes real.scope)))
      (fresh.ask (Machine.declare number name value)) := by
  unfold Session.ask Run.perform Task.run
  rw [Machine.declare_apply, Machine.declare_apply, related.contains_real usable]
  by_cases present : Fields.contains (fresh.machine.arena.frame number).locals name = true
  · rw [if_pos present, if_pos present]
    exact related.answered _ rfl fun _ has => nomatch has
  · rw [if_neg present, if_neg present]
    exact (related.write usable name made).answered _ rfl made

theorem assigned (related : Matches ended real fresh) (usable : real.Usable ended number) (name : String)
    {value : Value} (made : ∀ id, value.handle? = some id → id.index < real.issued.length) :
    Alike ended real.issued
      (real.ask (Machine.assign (real.scope number) name (value.mapScopes real.scope)))
      (fresh.ask (Machine.assign number name value)) := by
  unfold Session.ask Run.perform Task.run
  obtain ⟨up, upReal⟩ := related.ends_real usable
  rw [Machine.assign_apply, Machine.assign_apply, related.binding?_real usable, up, upReal]
  cases bound : fresh.machine.arena.binding? fresh.machine.memory number name with
  | none => exact related.answered _ rfl fun _ has => nomatch has
  | some binding =>
    cases binding with
    | inScope owner =>
      have good := related.usable_of_binding usable bound
      exact (related.write good name made).answered _ rfl made
    | member view =>
      -- Documents take values in their host form, which shows no scope.
      simp only [Option.map_some, Arena.Binding.mapScopes, View.set_apply, Value.native_mapScopes, related.memory]
      split
      · exact (related.withMemory _).answered _ rfl made
      · exact (related.withMemory fresh.machine.memory).answered _ rfl fun _ has => nomatch has

theorem resolved (related : Matches ended real fresh) (usable : real.Usable ended number) (name : String) :
    Alike ended real.issued
      (some (.callee (real.machine.arena.resolveCall (real.scope number) name), real))
      (some (.callee (fresh.machine.arena.resolveCall number name), fresh)) := by
  refine related.answered _ (congrArg ScopeAnswer.callee (related.resolveCall_real usable name)) fun id has => ?_
  cases found : fresh.machine.arena.resolveCall number name with
  | error failure => simp [found, ScopeAnswer.handle?] at has
  | ok callee =>
    cases callee with
    | library => simp [found, ScopeAnswer.handle?] at has
    | closure c =>
      rw [found] at has
      cases has
      exact related.issued_of_callee usable found

/-- Sessions that match stay so under any request that keeps to the rules, and answer it alike. -/
theorem perform (related : Matches ended real fresh) {call : ScopeCall} (admits : real.Admits ended call) :
    Alike (real.endedBy ended call) real.issued (real.perform Arena.release call)
      (fresh.perform ignoring call) := by
  -- The session without releases numbers its scopes as it makes them.
  have same : fresh.scope = id := funext related.scope_fresh
  have whole : ∀ value : Value, value.mapScopes fresh.scope = value := fun value => same ▸ value.mapScopes_id
  cases call with
  | root view => exact related.allocated { Frame.blank with view } rfl rfl fun _ has => nomatch has
  | child parent view =>
    have usable := admits.usable parent rfl
    simp only [Session.perform, related.scope_fresh]
    refine related.allocated { Frame.blank with view, parent := some parent } rfl rfl ?_
    exact fun other has => Option.some.inj has ▸ usable
  | capture number =>
    simp only [Session.perform, related.scope_fresh]
    exact (related.capture (admits.usable number rfl)).done List.prefix_rfl
  | release number =>
    exact (related.release (admits.usable number rfl) (admits.childless number rfl)).done List.prefix_rfl
  | importLibrary number library =>
    let f (frame : Frame) : Frame := { frame with libraries := frame.libraries ++ [library] }
    have changed := related.modifyFrame (f := f) (g := f) (admits.usable number rfl) (fun _ => rfl)
      (fun _ => rfl) (fun _ => rfl) (fun _ => rfl) fun _ _ => .inl
    simp only [Session.perform, related.scope_fresh]
    exact changed.done List.prefix_rfl
  | declare number name value =>
    simp only [Session.perform, related.scope_fresh, whole]
    exact related.declared (admits.usable number rfl) name (admits.stored value rfl)
  | assign number name value =>
    simp only [Session.perform, related.scope_fresh, whole]
    exact related.assigned (admits.usable number rfl) name (admits.stored value rfl)
  | lookUp number name =>
    simp only [Session.perform, related.scope_fresh]
    exact related.lookedUp (admits.usable number rfl) name
  | resolve number name =>
    simp only [Session.perform, related.scope_fresh]
    exact related.resolved (admits.usable number rfl) name
  | search number name =>
    simp only [Session.perform, related.scope_fresh]
    exact related.answered _ (congrArg ScopeAnswer.views (related.search_real (admits.usable number rfl) name))
      fun _ has => nomatch has

theorem serve (related : Matches ended real fresh) {calls : List ScopeCall}
    (proper : real.Proper ended calls) :
    ∃ answers last other given, real.serve Arena.release calls = some (answers.map (·.mapScopes last.scope), last) ∧
      fresh.serve ignoring calls = some (answers, other) ∧ Matches given last other ∧
      real.issued <+: last.issued := by
  induction calls generalizing ended real fresh with
  | nil => exact ⟨[], real, fresh, ended, rfl, rfl, related, List.prefix_rfl⟩
  | cons call rest ih =>
    obtain ⟨admits, onward⟩ := proper
    obtain ⟨answer, next, nextFresh, theirs, ours, still, more, made⟩ := related.perform admits
    obtain ⟨answers, last, other, given, ourRest, theirRest, final, longer⟩ := ih still (onward _ _ ours)
    -- The answer names a scope that was made by then, so its name is the same at the end.
    have settled : answer.mapScopes last.scope = answer.mapScopes next.scope :=
      ScopeAnswer.mapScopes_congr fun id has => scope_of_prefix longer (made id has)
    refine ⟨answer :: answers, last, other, given, ?_, ?_, final, more.trans longer⟩
    · simp [Session.serve, ours, ourRest, settled]
    · simp [Session.serve, theirs, theirRest]

/-- All that is above a captured number keeps its frame, whatever is released. -/
theorem kept_above (related : Matches ended real fresh)
    (captured : (fresh.machine.arena.frame number).captured = true) :
    ∀ above ∈ fresh.machine.arena.chain number, ∀ later, real.machine.arena.Reuses later →
      later.frame (real.scope above) = (fresh.machine.arena.frame above).mapScopes real.scope := by
  obtain ⟨path, walk, all⟩ := related.exists_path (related.kept number captured)
  rw [walk.chain]
  have flags : ∀ above ∈ path, (fresh.machine.arena.frame above).captured = true := by
    have whole := walk.captured_dropWhile fun id _ parent flag => related.closed id flag parent
    have nothing : path.dropWhile (fun id => !(fresh.machine.arena.frame id).captured) = path := by
      cases walk <;> simp [List.dropWhile, captured]
    rwa [nothing] at whole
  intro above member later reuses
  have same := related.frames above (all above member)
  have flag : (real.machine.arena.frame (real.scope above)).captured = true := by
    rw [same]
    exact flags above member
  exact (reuses.keeps related.sound (related.live above (all above member)) flag).2.2.trans same

end Matches

/-- Releases cannot be seen: requests that keep to the rules are answered as if no scope were ever used again, and
the documents are the same. What is above a captured scope stays as it is. -/
theorem releases_unseen (memory : Memory) {calls : List ScopeCall} (proper : (start memory).Proper [] calls) :
    ∃ answers real fresh,
      (start memory).serve Arena.release calls = some (answers.map (·.mapScopes real.scope), real) ∧
      (start memory).serve ignoring calls = some (answers, fresh) ∧
      fresh.issued.Nodup ∧ real.machine.memory = fresh.machine.memory ∧
      ∀ number, (fresh.machine.arena.frame number).captured = true →
        ∀ above ∈ fresh.machine.arena.chain number, ∀ later, real.machine.arena.Reuses later →
          later.frame (real.scope above) = (fresh.machine.arena.frame above).mapScopes real.scope := by
  obtain ⟨answers, real, fresh, ended, ours, theirs, related, -⟩ := (Matches.start memory).serve proper
  refine ⟨answers, real, fresh, ours, theirs, ?_, related.memory, fun number => related.kept_above⟩
  rw [related.numbered]
  exact List.nodup_range.map fun _ _ same => congrArg ScopeId.index same

/-- The frame of a call is used again by the next one, which does not see the variable of the first. -/
theorem releases_unseen_reused :
    let calls : List ScopeCall := [.root none, .child ⟨0⟩ none, .declare ⟨1⟩ "i" (.number 1), .release ⟨1⟩,
      .child ⟨0⟩ none, .capture ⟨2⟩, .lookUp ⟨2⟩ "i"]
    ∃ answers real fresh,
      (start (.ofDocument .null)).serve Arena.release calls =
        some (answers.map (·.mapScopes real.scope), real) ∧
      (start (.ofDocument .null)).serve ignoring calls = some (answers, fresh) ∧
      real.issued = [⟨0⟩, ⟨1⟩, ⟨1⟩] ∧ fresh.issued = [⟨0⟩, ⟨1⟩, ⟨2⟩] ∧
      real.machine.memory = fresh.machine.memory := by
  intro calls
  have proper : (start (.ofDocument .null)).Proper [] calls := by
    refine .cons (.plain nofun rfl nofun) rfl ?_
    refine .cons (.plain (by rintro _ ⟨⟩; decide) rfl nofun) rfl ?_
    refine .cons ⟨by rintro _ ⟨⟩; decide, by rintro _ ⟨⟩ _ ⟨⟩, nofun⟩ rfl ?_
    refine .cons ⟨by rintro _ ⟨⟩; decide, nofun, ?childless⟩ rfl ?_
    case childless =>
      rintro _ ⟨⟩ - ⟨_ | _ | other⟩ live
      · decide
      · decide
      · exact absurd (show other + 2 < 2 from live.1) (by omega)
    refine .cons (.plain (by rintro _ ⟨⟩; decide) rfl nofun) rfl ?_
    refine .cons (.plain (by rintro _ ⟨⟩; decide) rfl nofun) rfl ?_
    exact .cons (.plain (by rintro _ ⟨⟩; decide) rfl nofun) rfl trivial
  obtain ⟨answers, real, fresh, ours, theirs, -, same, -⟩ := releases_unseen (.ofDocument .null) proper
  have issued := congrArg (Option.map fun outcome => outcome.2.issued) ours
  have issuedFresh := congrArg (Option.map fun outcome => outcome.2.issued) theirs
  exact ⟨answers, real, fresh, ours, theirs, (Option.some.inj issued).symm, (Option.some.inj issuedFresh).symm, same⟩

end Session

end RuleScript
