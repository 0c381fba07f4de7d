import RuleScript.Library.Standard
import RuleScript.Proofs.Value.Handles
import RuleScript.Proofs.Value.Moments

/-! The least and the greatest of dates and date-times.

`MIN` and `MAX` go through the items once and keep the best so far. What they pick is an item that no other item is
better than. If "before" is transitive among the items, two of that kind compare equal, and the order of the items does
not matter.
-/

set_option autoImplicit false

namespace RuleScript

namespace Moment

/-- Go through moments and take the next one for the best so far where the best compares with it as `toward` says. -/
def pick (toward : Ordering) : Moment → List Moment → Moment
  | best, [] => best
  | best, next :: rest => pick toward (if best.order next = toward then next else best) rest

def Replaces (replaces : Float → Bool) (toward : Ordering) : Prop :=
  ∀ order, ∃ answer, Value.ofOrdering order = .number answer ∧ replaces answer = decide (order = toward)

theorem replaces_min : Replaces (fun answer => 0.0 < answer) .gt := by
  intro order
  cases order <;> exact ⟨_, rfl, by decide +kernel⟩

theorem replaces_max : Replaces (fun answer => answer < 0.0) .lt := by
  intro order
  cases order <;> exact ⟨_, rfl, by decide +kernel⟩

theorem extreme_eq_pick {replaces : Float → Bool} {toward : Ordering} (agrees : Replaces replaces toward)
    (best : Moment) (rest : List Moment) (memory : Memory) :
    Standard.extreme replaces best.value (rest.map value) memory = (.ok (pick toward best rest).value, memory) := by
  induction rest generalizing best with
  | nil => rfl
  | cons next rest ih =>
    obtain ⟨answer, number, taken⟩ := agrees (best.order next)
    have one : (if replaces answer = true then next.value else best.value) =
        (if best.order next = toward then next else best).value := by
      rw [taken]
      by_cases better : best.order next = toward <;> simp [better]
    rw [List.map_cons, Standard.extreme, Action.bind_apply, compare_value, number]
    simp only [one, ih]
    rfl

section Pick

variable {toward : Ordering} {moments permuted : List Moment} {best next : Moment} {rest : List Moment}

theorem pick_of_better (better : best.order next = toward) :
    pick toward best (next :: rest) = pick toward next rest := by
  rw [pick, if_pos better]

theorem pick_of_not_better (other : best.order next ≠ toward) :
    pick toward best (next :: rest) = pick toward best rest := by
  rw [pick, if_neg other]

theorem pick_mem (best : Moment) (rest : List Moment) : pick toward best rest ∈ best :: rest := by
  induction rest generalizing best with
  | nil => exact List.mem_cons_self
  | cons next rest ih =>
    by_cases better : best.order next = toward
    · rw [pick_of_better better]
      exact List.mem_cons_of_mem _ (ih next)
    · rw [pick_of_not_better better]
      rcases List.mem_cons.mp (ih best) with same | member
      · rw [same]
        exact List.mem_cons_self
      · exact List.mem_cons_of_mem _ (List.mem_cons_of_mem _ member)

def Leads (toward : Ordering) (moments : List Moment) : Prop :=
  ∀ a ∈ moments, ∀ b ∈ moments, ∀ c ∈ moments, a.order b = toward → b.order c = toward → a.order c = toward

theorem pick_eq_or (leads : Leads toward moments) (inside : best :: rest ⊆ moments) :
    pick toward best rest = best ∨ best.order (pick toward best rest) = toward := by
  induction rest generalizing best with
  | nil => exact .inl rfl
  | cons next rest ih =>
    obtain ⟨first, remaining⟩ := List.cons_subset.mp inside
    obtain ⟨second, others⟩ := List.cons_subset.mp remaining
    by_cases better : best.order next = toward
    · rw [pick_of_better better]
      rcases ih remaining with same | further
      · rw [same]
        exact .inr better
      · exact .inr (leads _ first _ second _ (remaining (pick_mem next rest)) better further)
    · rw [pick_of_not_better better]
      exact ih (List.cons_subset.mpr ⟨first, others⟩)

theorem not_better_than_pick (leads : Leads toward moments) (strict : toward ≠ .eq) (inside : best :: rest ⊆ moments) :
    ∀ moment ∈ best :: rest, (pick toward best rest).order moment ≠ toward := by
  induction rest generalizing best with
  | nil =>
    intro moment member
    obtain rfl := List.mem_singleton.mp member
    rw [pick, order_self]
    exact strict.symm
  | cons next rest ih =>
    obtain ⟨first, remaining⟩ := List.cons_subset.mp inside
    obtain ⟨second, others⟩ := List.cons_subset.mp remaining
    by_cases better : best.order next = toward
    · rw [pick_of_better better]
      have later := ih remaining
      refine List.forall_mem_cons.mpr ⟨fun back => ?_, later⟩
      -- The first moment is worse than the next one, so what is better than the next one is not worse than the first.
      have member : pick toward next rest ∈ moments := remaining (pick_mem next rest)
      exact later next List.mem_cons_self (leads _ member _ first _ second back better)
    · rw [pick_of_not_better better]
      have kept : best :: rest ⊆ moments := List.cons_subset.mpr ⟨first, others⟩
      obtain ⟨same, later⟩ := List.forall_mem_cons.mp (ih kept)
      refine List.forall_mem_cons.mpr ⟨same, List.forall_mem_cons.mpr ⟨fun further => ?_, later⟩⟩
      rcases pick_eq_or leads kept with unchanged | improved
      · rw [unchanged] at further
        exact better further
      · exact better (leads _ first _ (kept (pick_mem best rest)) _ second improved further)

theorem leads_lt (agree : DaysAgree moments) : Leads .lt moments :=
  fun _ memberA _ memberB _ memberC first second => before_trans agree memberA memberB memberC first second

theorem leads_gt (agree : DaysAgree moments) : Leads .gt moments := by
  have back : ∀ {a b : Moment}, a.order b = .gt ↔ b.order a = .lt := fun {a b} => by
    rw [← order_swap b a, Ordering.swap_eq_gt]
  intro a memberA b memberB c memberC first second
  rw [back] at first second ⊢
  exact before_trans agree memberC memberB memberA second first

theorem order_eq_of_not_better {a b : Moment} (strict : toward ≠ .eq) (left : a.order b ≠ toward)
    (right : b.order a ≠ toward) : a.order b = .eq := by
  rw [← order_swap a b] at right
  generalize a.order b = order at left right
  cases order <;> cases toward <;> simp at left right strict ⊢

/-- From lists of the same moments, picks compare equal. -/
theorem pick_perm {other : Moment} {others : List Moment} (leads : Leads toward (best :: rest)) (strict : toward ≠ .eq)
    (perm : (other :: others).Perm (best :: rest)) :
    (pick toward best rest).order (pick toward other others) = .eq := by
  apply order_eq_of_not_better strict
  · exact not_better_than_pick leads strict (List.Subset.refl _) _ (perm.subset (pick_mem other others))
  · exact not_better_than_pick leads strict perm.subset _ (perm.symm.subset (pick_mem best rest))

end Pick

inductive Extreme : Standard → Ordering → Prop where
  | min : Extreme .min .gt
  | max : Extreme .max .lt

section Call

variable {function : Standard} {toward : Ordering} {clock : Clock} {memory : Memory} {place : Nat}

theorem Extreme.call_array (extreme : Extreme function toward) (clock : Clock) (memory : Memory) (place : Nat) :
    ∃ replaces, Replaces replaces toward ∧ Standard.call clock function [.array place] memory =
      Standard.onItems (Standard.extreme replaces) (memory.items place).toList memory := by
  cases extreme with
  | min => exact ⟨_, replaces_min, rfl⟩
  | max => exact ⟨_, replaces_max, rfl⟩

theorem Extreme.call_nil (extreme : Extreme function toward) (empty : (memory.items place).toList = []) :
    Standard.call clock function [.array place] memory = (.ok .empty, memory) := by
  obtain ⟨replaces, -, call⟩ := extreme.call_array clock memory place
  rw [call, empty]
  rfl

theorem Extreme.call_cons (extreme : Extreme function toward) {best : Moment} {rest : List Moment}
    (listed : (memory.items place).toList = (best :: rest).map value) :
    Standard.call clock function [.array place] memory = (.ok (pick toward best rest).value, memory) := by
  obtain ⟨replaces, agrees, call⟩ := extreme.call_array clock memory place
  rw [call, listed]
  exact extreme_eq_pick agrees best rest memory

theorem Extreme.leads (extreme : Extreme function toward) {moments : List Moment} (agree : DaysAgree moments) :
    Leads toward moments := by
  cases extreme with
  | min => exact leads_gt agree
  | max => exact leads_lt agree

theorem Extreme.ne_eq (extreme : Extreme function toward) : toward ≠ .eq := by
  cases extreme <;> decide

/-- `MIN` and `MAX` of the same moments in two orders compare equal, if the days of the moments agree with their
instants. -/
theorem Extreme.call_perm (extreme : Extreme function toward) {moments permuted : List Moment}
    (perm : permuted.Perm moments) (agree : DaysAgree moments) {later : Memory} {other : Nat}
    (listed : (memory.items place).toList = moments.map value)
    (relisted : (later.items other).toList = permuted.map value) :
    (moments = [] ∧ Standard.call clock function [.array place] memory = (.ok .empty, memory) ∧
      Standard.call clock function [.array other] later = (.ok .empty, later)) ∨
    ∃ m ∈ moments, ∃ n ∈ moments, Standard.call clock function [.array place] memory = (.ok m.value, memory) ∧
      Standard.call clock function [.array other] later = (.ok n.value, later) ∧ m.order n = .eq := by
  cases moments with
  | nil =>
    obtain rfl := perm.eq_nil
    exact .inl ⟨rfl, extreme.call_nil listed, extreme.call_nil relisted⟩
  | cons best rest =>
    cases permuted with
    | nil => cases perm.symm.eq_nil
    | cons first others =>
      have second : pick toward first others ∈ best :: rest := perm.subset (pick_mem first others)
      refine .inr ⟨_, pick_mem best rest, _, second, extreme.call_cons listed, extreme.call_cons relisted, ?_⟩
      exact pick_perm (extreme.leads agree) extreme.ne_eq perm

end Call

/-- Any two dates or date-times compare, and the other way round the answer is the opposite.

Where the days on their own clocks follow the instants of the date-times, as they do on one clock, "not after" is
transitive, but for a date that equals two moments of its day; and `MIN` and `MAX` of a list depend on its order only up
to items that compare equal. Without a date among them this holds of any date-times. -/
theorem moments_ordered :
    (∀ (a b : Moment) memory, a.value.compare b.value memory = (.ok (.ofOrdering (a.order b)), memory) ∧
      b.order a = (a.order b).swap) ∧
    (∀ a b c : Moment, DaysAgree [a, b, c] → a.order b ≠ .gt → b.order c ≠ .gt →
      a.order c ≠ .gt ∨ (∃ d, b = date d) ∧ a.order b = .eq ∧ b.order c = .eq) ∧
    (∀ moments offset, (∀ t, dateTime t ∈ moments → t.instant.offset = offset) → DaysAgree moments) ∧
    ∀ moments permuted : List Moment, permuted.Perm moments → DaysAgree moments →
      ∀ (memory later : Memory) place other, (memory.items place).toList = moments.map value →
        (later.items other).toList = permuted.map value → ∀ clock, ∀ function ∈ [Standard.min, Standard.max],
          (moments = [] ∧ Standard.call clock function [.array place] memory = (.ok .empty, memory) ∧
            Standard.call clock function [.array other] later = (.ok .empty, later)) ∨
          ∃ m ∈ moments, ∃ n ∈ moments, Standard.call clock function [.array place] memory = (.ok m.value, memory) ∧
            Standard.call clock function [.array other] later = (.ok n.value, later) ∧ m.order n = .eq := by
  refine ⟨fun a b memory => ⟨compare_value a b memory, (order_swap a b).symm⟩, fun _ _ _ => notAfter_trans,
    fun _ _ => daysAgree_of_offset, ?_⟩
  intro moments permuted perm agree memory later place other listed relisted clock function member
  simp only [List.mem_cons, List.not_mem_nil, or_false] at member
  rcases member with rfl | rfl
  · exact Extreme.min.call_perm perm agree listed relisted
  · exact Extreme.max.call_perm perm agree listed relisted

/-- A day, its noon and the next morning. The day and its noon compare equal, and each is the least for one order of the
list. -/
theorem moments_ordered_one_clock :
    let day : Date := ⟨⟨19723⟩, none⟩
    let noon : DateTime := ⟨"2024-01-01T12:00:00Z", ⟨1704110400, 0, 0⟩, none⟩
    let morning : DateTime := ⟨"2024-01-02T06:00:00Z", ⟨1704175200, 0, 0⟩, none⟩
    let moments : List Moment := [date day, dateTime noon, dateTime morning]
    let clock : Clock := ⟨"2024-01-01", none⟩
    let memory : Memory :=
      ⟨#[#[.date day, .dateTime noon, .dateTime morning], #[.dateTime morning, .dateTime noon, .date day]], #[], #[]⟩
    ((date day).order (dateTime noon) ≠ .gt ∧ (dateTime noon).order (dateTime morning) ≠ .gt ∧
      (date day).order (dateTime morning) ≠ .gt) ∧
    ∃ m ∈ moments, ∃ n ∈ moments, Standard.call clock .min [.array 0] memory = (.ok m.value, memory) ∧
      Standard.call clock .min [.array 1] memory = (.ok n.value, memory) ∧ m.order n = .eq := by
  intro day noon morning moments clock memory
  obtain ⟨-, transitive, oneClock, extremes⟩ := moments_ordered
  have agree : DaysAgree moments := by
    refine oneClock _ 0 fun t member => ?_
    simp only [moments, List.mem_cons, List.not_mem_nil, or_false, reduceCtorEq, false_or, dateTime.injEq] at member
    rcases member with rfl | rfl <;> rfl
  have first : (date day).order (dateTime noon) ≠ .gt := by decide
  have second : (dateTime noon).order (dateTime morning) ≠ .gt := by decide
  refine ⟨⟨first, second, (transitive _ _ _ agree first second).resolve_right (by simp)⟩, ?_⟩
  have perm : [dateTime morning, dateTime noon, date day].Perm moments := List.reverse_perm moments
  have some : moments ≠ [] := List.cons_ne_nil _ _
  exact (extremes _ _ perm agree memory memory 0 1 rfl rfl clock .min (by simp)).resolve_left fun none => some none.1

/-- Two moments around midnight on two clocks and a day: the first is before the second, the second equals the day, and
the first is after the day. What `MIN` picks depends on their order in the list, and the two picks do not compare
equal. -/
theorem moments_cycle :
    let first : DateTime := ⟨"2024-01-02T00:30:00+01:00", ⟨1704151800, 0, 3600⟩, none⟩
    let second : DateTime := ⟨"2024-01-01T23:45:00Z", ⟨1704152700, 0, 0⟩, none⟩
    let day : Date := ⟨⟨19723⟩, none⟩
    let clock : Clock := ⟨"2024-01-01", none⟩
    let memory : Memory :=
      ⟨#[#[.dateTime first, .dateTime second, .date day], #[.dateTime second, .date day, .dateTime first]], #[], #[]⟩
    DateTime.read? first.text none = some first ∧ DateTime.read? second.text none = some second ∧
    Date.read? "2024-01-01" none = some day ∧
    (Value.dateTime first).compare (.dateTime second) memory = (.ok (.number (-1.0)), memory) ∧
    (Value.dateTime second).compare (.date day) memory = (.ok (.number 0.0), memory) ∧
    (Value.dateTime first).compare (.date day) memory = (.ok (.number 1.0), memory) ∧
    Standard.call clock .min [.array 0] memory = (.ok (.date day), memory) ∧
    Standard.call clock .min [.array 1] memory = (.ok (.dateTime first), memory) := by
  intro first second day clock memory
  have before : (dateTime first).order (dateTime second) = .lt := by decide
  have equal : (dateTime second).order (date day) = .eq := by decide
  have after : (dateTime first).order (date day) = .gt := by decide
  refine ⟨by decide +kernel, by decide +kernel, by decide +kernel, ?_, ?_, ?_, ?_, ?_⟩
  · exact (compare_value (dateTime first) (dateTime second) memory).trans (by rw [before]; rfl)
  · exact (compare_value (dateTime second) (date day) memory).trans (by rw [equal]; rfl)
  · exact (compare_value (dateTime first) (date day) memory).trans (by rw [after]; rfl)
  · have listed : (memory.items 0).toList = [dateTime first, dateTime second, date day].map value := rfl
    exact Extreme.min.call_cons listed
  · have listed : (memory.items 1).toList = [dateTime second, date day, dateTime first].map value := rfl
    exact Extreme.min.call_cons listed

end Moment

end RuleScript
