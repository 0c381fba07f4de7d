import RuleScript.Json.Reader
import RuleScript.Proofs.Document.Writing

/-! Objects that have each of their names once.

Objects are lists of members here, so this is a property of them: of all that a text is read as, and of a document in
which a member is written.
-/

set_option autoImplicit false

namespace RuleScript

namespace Fields

variable {α : Type} {fields : Fields α} {name : String} {value : α}

theorem get?_of_mem (nodup : (fields.map Prod.fst).Nodup) (member : (name, value) ∈ fields) :
    get? fields name = some value := by
  induction fields with
  | nil => cases member
  | cons head rest ih =>
    obtain ⟨absent, nodup⟩ := List.nodup_cons.mp nodup
    rw [get?]
    obtain same | member := List.mem_cons.mp member
    · rw [← same, if_pos rfl]
    · have different : head.1 ≠ name := fun same => absent (same ▸ List.mem_map_of_mem member)
      rw [if_neg different, ih nodup member]

theorem contains_iff : contains fields name = true ↔ name ∈ fields.map Prod.fst := by
  induction fields with
  | nil => simp [contains]
  | cons head rest ih => rw [contains, Bool.or_eq_true, ih, decide_eq_true_iff, List.map_cons, List.mem_cons, eq_comm]

theorem nodup_put (nodup : (fields.map Prod.fst).Nodup) (name : String) (value : α) :
    ((put fields name value).map Prod.fst).Nodup := by
  rw [keys_put]
  split
  · exact nodup
  · next absent =>
    rw [contains_iff] at absent
    refine List.nodup_append.mpr ⟨nodup, by simp, fun other inside last same => ?_⟩
    intro is
    cases List.mem_singleton.mp same
    exact absent (is ▸ inside)

theorem nodup_ofList (pairs : List (String × α)) : ((ofList pairs).map Prod.fst).Nodup :=
  List.foldlRecOn pairs _ (motive := fun fields : Fields α => (fields.map Prod.fst).Nodup) .nil
    fun _ nodup pair _ => nodup_put nodup pair.1 pair.2

end Fields

namespace Json

/-- Every object has each of its names once, as the host's objects do. -/
def Distinct (node : Json) : Prop :=
  ∀ path members, node.at? path = some (.object members) → (members.map Prod.fst).Nodup

variable {node next : Json} {step : Step} {path : Path}

theorem Distinct.at (distinct : node.Distinct) (found : node.at? path = some next) : next.Distinct :=
  fun rest members there => distinct (path ++ rest) members (by rw [at?_append, found, Option.bind_some, there])

theorem distinct_iff : node.Distinct ↔ (∀ members, node = .object members → (members.map Prod.fst).Nodup) ∧
    ∀ step next, node.child? step = some next → next.Distinct := by
  constructor
  · refine fun distinct => ⟨fun members is => distinct [] members (congrArg some is), fun step next child => ?_⟩
    have found : node.at? [step] = some next := by rw [at?_cons, child]; rfl
    exact distinct.at found
  · rintro ⟨nodup, below⟩ path members found
    cases path with
    | nil => exact nodup members (Option.some.inj found)
    | cons step rest =>
      rw [at?_cons] at found
      obtain ⟨next, child, found⟩ := Option.bind_eq_some_iff.mp found
      exact below step next child rest members found

theorem distinct_of_plain (object : ∀ members, node ≠ .object members) (array : ∀ items, node ≠ .array items) :
    node.Distinct := by
  refine distinct_iff.mpr ⟨fun members is => absurd is (object members), fun step next child => ?_⟩
  cases node with
  | object members => exact absurd rfl (object members)
  | array items => exact absurd rfl (array items)
  | _ => cases child

theorem distinct_array {items : List Json} (all : ∀ item ∈ items, item.Distinct) : (array items).Distinct := by
  refine distinct_iff.mpr ⟨nofun, fun step next child => ?_⟩
  cases step with
  | index => exact all next (List.mem_of_getElem? child)
  | key => cases child

theorem distinct_object {members : List (String × Json)} (nodup : (members.map Prod.fst).Nodup)
    (all : ∀ member ∈ members, member.2.Distinct) : (object members).Distinct := by
  refine distinct_iff.mpr ⟨fun others is => Json.object.inj is ▸ nodup, fun step next child => ?_⟩
  cases step with
  | index => cases child
  | key name => exact all (name, next) (Fields.mem_of_get? child)

theorem distinct_of_readNumber? {chars rest : List Char} {node : Json} (read : readNumber? chars = some (node, rest)) :
    node.Distinct := by
  unfold readNumber? at read
  simp only [Option.bind_eq_bind] at read
  repeat' first
    | (cases read; exact distinct_of_plain nofun nofun)
    | split at read
    | obtain ⟨_, _, read⟩ := Option.bind_eq_some_iff.mp read

/-- The three loops of the reader, by the number that they count down. -/
theorem distinct_of_reads (count : Nat) :
    (∀ {depth chars node rest}, readValue? count depth chars = some (node, rest) → node.Distinct) ∧
    (∀ {depth read chars node rest}, (∀ item ∈ read, item.Distinct) →
      readItems? count depth read chars = some (node, rest) → node.Distinct) ∧
    (∀ {depth read chars node rest}, (∀ member ∈ read, Distinct member.2) →
      readMembers? count depth read chars = some (node, rest) → node.Distinct) := by
  induction count with
  | zero => exact ⟨nofun, nofun, nofun⟩
  | succ count ih =>
    obtain ⟨values, items, members⟩ := ih
    refine ⟨fun reads => ?_, fun all reads => ?_, fun all reads => ?_⟩
    · unfold readValue? at reads
      split at reads
      case h_5 =>
        split at reads
        · cases reads
        · split at reads
          · cases reads
            exact distinct_array (List.forall_mem_nil _)
          · exact items (List.forall_mem_nil _) reads
      case h_6 =>
        split at reads
        · cases reads
        · split at reads
          · cases reads
            exact distinct_object .nil (List.forall_mem_nil _)
          · exact members (List.forall_mem_nil _) reads
      case h_7 => exact distinct_of_readNumber? reads
      -- The words and the texts.
      all_goals
        obtain ⟨_, _, same⟩ := Option.map_eq_some_iff.mp reads
        cases same
        exact distinct_of_plain nofun nofun
    · rw [readItems?] at reads
      split at reads
      · cases reads
      · next item rest read =>
        have each := List.forall_mem_cons.mpr ⟨values read, all⟩
        split at reads
        · exact items each reads
        · cases reads
          exact distinct_array fun item member => each item (List.mem_reverse.mp member)
        · cases reads
    · unfold readMembers? at reads
      split at reads
      case h_2 => cases reads
      split at reads
      case h_1 => cases reads
      next name _ _ =>
      split at reads
      case h_2 => cases reads
      split at reads
      case h_1 => cases reads
      next value _ read =>
      have each : ∀ member ∈ (name, value) :: _, Distinct member.2 := List.forall_mem_cons.mpr ⟨values read, all⟩
      split at reads
      · exact members each reads
      · cases reads
        refine distinct_object (Fields.nodup_ofList _) (Fields.ofList_all fun member inside => ?_)
        exact each member (List.mem_reverse.mp inside)
      · cases reads

theorem distinct_of_readWithin? {depth : Nat} {text : String} (read : readWithin? depth text = some node) :
    node.Distinct := by
  rw [readWithin?] at read
  split at read
  case h_2 => cases read
  next value rest found =>
  split at read
  · cases read
    exact (distinct_of_reads _).1 found
  · cases read

theorem Distinct.replaceChild (distinct : node.Distinct) (good : next.Distinct) (step : Step) :
    (node.replaceChild step next).Distinct := by
  have below := (distinct_iff.mp distinct).2
  cases node with
  | array items =>
    cases step with
    | index position =>
      refine distinct_array fun item member => ?_
      obtain member | rfl := List.mem_or_eq_of_mem_set member
      · obtain ⟨place, inside⟩ := List.mem_iff_getElem?.mp member
        exact below (.index place) item inside
      · exact good
    | key => exact distinct
  | object members =>
    cases step with
    | index => exact distinct
    | key name =>
      have nodup := (distinct_iff.mp distinct).1 members rfl
      refine distinct_object (Fields.nodup_put nodup name next) (Fields.put_all (fun member inside => ?_) good)
      exact below (.key member.1) member.2 (Fields.get?_of_mem nodup inside)
  | _ => exact distinct

theorem Distinct.putAt? {name : String} {value after : Json} (distinct : node.Distinct) (good : value.Distinct)
    (wrote : Json.putAt? name value node path = some after) : after.Distinct := by
  induction path generalizing node after with
  | nil =>
    cases node with
    | object members =>
      cases wrote
      exact distinct.replaceChild good (.key name)
    | _ => cases wrote
  | cons step rest ih =>
    rw [putAt?_cons] at wrote
    obtain ⟨next, child, wrote⟩ := Option.bind_eq_some_iff.mp wrote
    obtain ⟨later, below, rfl⟩ := Option.map_eq_some_iff.mp wrote
    exact distinct.replaceChild (ih ((distinct_iff.mp distinct).2 step next child) below) step

end Json

end RuleScript
