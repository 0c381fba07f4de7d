import RuleScript.Program
import RuleScript.Proofs.Run.Settling

/-! The machine that a program starts on: one scope, which views the host's document and imports the libraries. -/

set_option autoImplicit false

namespace RuleScript

namespace Arena

variable {arena : Arena} {scope other : ScopeId}

theorem live_importAll (libraries : List Library) :
    (arena.importAll scope libraries).Live other ↔ arena.Live other := by
  induction libraries generalizing arena with
  | nil => exact .rfl
  | cons library rest ih => exact ih.trans (live_modifyFrame _)

theorem part_importAll {α : Type} (part : Frame → α)
    (same : ∀ (frame : Frame) (libraries : List Library), part { frame with libraries } = part frame)
    (libraries : List Library) :
    part ((arena.importAll scope libraries).frame other) = part (arena.frame other) := by
  induction libraries generalizing arena with
  | nil => rfl
  | cons library rest ih => exact ih.trans (part_modifyFrame part fun frame => same frame _)

theorem mem_libraries_importAll {libraries : List Library} {library : Library}
    (member : library ∈ ((arena.importAll scope libraries).frame other).libraries) :
    library ∈ (arena.frame other).libraries ∨ library ∈ libraries := by
  induction libraries generalizing arena with
  | nil => exact .inl member
  | cons first rest ih =>
    rcases ih member with before | later
    · change library ∈ ((arena.modifyFrame scope _).frame other).libraries at before
      rcases @frame_modifyFrame_cases arena scope other _ with same | changed
      · exact .inl (same ▸ before)
      · rw [changed] at before
        rcases List.mem_append.mp before with old | new
        · exact .inl old
        · exact .inr (List.mem_singleton.mp new ▸ .head _)
    · exact .inr (.tail _ later)

end Arena

theorem Program.start_holds {program : Program} {memory : Memory} {good : Value → Prop} {known : Library → Prop}
    (imported : ∀ library ∈ program.libraries, known library) (standard : known .standard)
    (stored : memory.All good) : (program.start memory).2.Holds good known := by
  let frame : Frame := { Frame.blank with view := some ⟨0, []⟩ }
  -- Every frame is the root's or one that is not there.
  have bare : ∀ scope, ((Arena.empty.add frame).2.frame scope).locals = [] ∧
      ((Arena.empty.add frame).2.frame scope).libraries = [] := fun scope => by
    rcases @Arena.frame_add_cases .empty scope frame with root | none
    · rw [root]
      exact ⟨rfl, rfl⟩
    · rw [none]
      exact ⟨rfl, rfl⟩
  refine ⟨fun scope pair member => ?_, fun scope library member => ?_, stored⟩
  · have same := @Arena.part_importAll (Arena.empty.add frame).2 (Arena.empty.add frame).1 scope _ Frame.locals
      (fun _ _ => rfl) (program.libraries ++ [.standard])
    rw [(bare scope).1] at same
    exact absurd (same ▸ member) List.not_mem_nil
  · rcases Arena.mem_libraries_importAll member with before | given
    · exact absurd ((bare scope).2 ▸ before) List.not_mem_nil
    · rcases List.mem_append.mp given with host | last
      · exact imported library host
      · exact List.mem_singleton.mp last ▸ standard

end RuleScript
