import RuleScript.Proofs.Library.Extremes

/-! The least and the greatest where items are missing.

Nothing compares with missing data. So `MIN` and `MAX` pass over a missing item, but for the first one: it is the best so
far that no other item replaces, and it stays the answer. In arrays that start with an item, they answer with the first
item than which no other is better.
-/

set_option autoImplicit false

namespace RuleScript

namespace Value

def textKey : Value → String
  | .text s => s
  | _ => ""

def numberKey : Value → Int
  | .bool b => if b then 1 else 0
  | .date d => d.day.number
  | _ => 0

def ordering : Value → Value → Ordering :=
  compareLex (compareOn textKey) (compareOn numberKey)

instance : Std.TransCmp ordering :=
  inferInstanceAs (Std.TransCmp (compareLex _ _))

inductive Ordered : Variant → Prop
  | text : Ordered .text
  | bool : Ordered .bool
  | date : Ordered .date

variable {kind : Variant} {a b c v w : Value} {toward : Ordering}

theorem compare_ordered (ordered : Ordered kind) (left : v.variant = kind) (right : w.variant = kind) (memory : Memory) :
    v.compare w memory = (.ok (.ofOrdering (v.ordering w)), memory) := by
  cases ordered with
  | text =>
    cases v <;> cases left
    cases w <;> cases right
    rename_i s t
    have order : (Value.text s).ordering (.text t) = Ord.compare s t := by
      simp [ordering, compareLex, compareOn, textKey, numberKey]
    rw [order]
    rfl
  | bool =>
    cases v <;> cases left
    cases w <;> cases right
    rename_i b c
    cases b <;> cases c <;> rfl
  | date =>
    cases v <;> cases left
    cases w <;> cases right
    rename_i d e
    have order : (Value.date d).ordering (.date e) = Ord.compare d.day.number e.day.number := by
      simp [ordering, compareLex, compareOn, textKey, numberKey]
    rw [order]
    rfl

theorem Ordered.ne_empty (ordered : Ordered kind) (present : v.variant = kind) : v ≠ .empty := by
  rintro rfl
  subst present
  cases ordered

theorem compare_empty (v : Value) (memory : Memory) : v.compare .empty memory = (.ok .empty, memory) :=
  rfl

theorem empty_compare (v : Value) (memory : Memory) : Value.empty.compare v memory = (.ok .empty, memory) := by
  cases v <;> rfl

theorem ordering_self (v : Value) : v.ordering v = .eq :=
  Std.ReflCmp.compare_self

theorem ordering_swap (v w : Value) : (v.ordering w).swap = w.ordering v :=
  Std.OrientedCmp.eq_swap.symm

theorem ordering_trans (strict : toward ≠ .eq) (first : a.ordering b = toward) (second : b.ordering c = toward) :
    a.ordering c = toward := by
  cases toward with
  | lt => exact Std.TransCmp.lt_trans first second
  | eq => exact absurd rfl strict
  | gt => exact Std.TransCmp.gt_trans first second

/-- Better than one is better than all that are no better than that one. -/
theorem ordering_of_not_better (strict : toward ≠ .eq) (better : a.ordering b = toward) (other : a.ordering c ≠ toward) :
    c.ordering b = toward := by
  rw [← ordering_swap c a] at other
  cases toward with
  | lt =>
    have notAfter : (c.ordering a).isLE := by
      cases order : c.ordering a <;> simp [order] at other ⊢
    exact Std.TransCmp.lt_of_isLE_of_lt notAfter better
  | eq => exact absurd rfl strict
  | gt =>
    have notBefore : (c.ordering a).isGE := by
      cases order : c.ordering a <;> simp [order] at other ⊢
    exact Std.TransCmp.gt_of_isGE_of_gt notBefore better

end Value

namespace Standard

open Moment (Extreme Replaces)
open Value (Ordered)

def Alike (kind : Variant) (items : List Value) : Prop :=
  ∀ v ∈ items, v = .empty ∨ v.variant = kind

def firstItem (items : List Value) : Value :=
  items.head?.getD .empty

/-- The first item than which no other is better, the better of two being the second if the first compares with it as
`toward` says. It is better than the items before it, and the items after it are no better. Missing items do not
count. -/
def FirstBest (toward : Ordering) (items : List Value) (best : Value) : Prop :=
  best ≠ .empty ∧ ∃ front back, items = front ++ best :: back ∧
    (∀ v ∈ front, v ≠ .empty → v.ordering best = toward) ∧ ∀ v ∈ back, v ≠ .empty → best.ordering v ≠ toward

section FirstBest

variable {toward : Ordering} {items rest : List Value} {best head next v : Value}

theorem FirstBest.mem (first : FirstBest toward items best) : best ∈ items := by
  obtain ⟨-, front, back, rfl, -⟩ := first
  simp

theorem FirstBest.not_better (strict : toward ≠ .eq) (first : FirstBest toward items best) (member : v ∈ items)
    (present : v ≠ .empty) : best.ordering v ≠ toward := by
  obtain ⟨-, front, back, rfl, before, after⟩ := first
  rcases List.mem_append.mp member with inside | inside
  · rw [← Value.ordering_swap, before v inside present]
    cases toward <;> simp at strict ⊢
  · rcases List.mem_cons.mp inside with rfl | inside
    · rw [Value.ordering_self]
      exact strict.symm
    · exact after v inside present

theorem FirstBest.singleton (present : head ≠ .empty) : FirstBest toward [head] head :=
  ⟨present, [], [], rfl, by simp, by simp⟩

theorem FirstBest.cons (strict : toward ≠ .eq) (first : FirstBest toward (next :: rest) best) (present : next ≠ .empty)
    (better : head.ordering next = toward) : FirstBest toward (head :: next :: rest) best := by
  obtain ⟨there, front, back, split, before, after⟩ := first
  refine ⟨there, head :: front, back, by rw [split]; rfl, List.forall_mem_cons.mpr ⟨fun _ => ?_, before⟩, after⟩
  cases front with
  | nil =>
    obtain ⟨rfl, -⟩ := List.cons.inj split
    exact better
  | cons _ _ =>
    obtain ⟨rfl, -⟩ := List.cons.inj split
    exact Value.ordering_trans strict better (before _ List.mem_cons_self present)

theorem FirstBest.insert (strict : toward ≠ .eq) (first : FirstBest toward (head :: rest) best) (present : head ≠ .empty)
    (other : next ≠ .empty → head.ordering next ≠ toward) : FirstBest toward (head :: next :: rest) best := by
  obtain ⟨there, front, back, split, before, after⟩ := first
  cases front with
  | nil =>
    obtain ⟨rfl, rfl⟩ := List.cons.inj split
    exact ⟨there, [], next :: rest, rfl, by simp, List.forall_mem_cons.mpr ⟨other, after⟩⟩
  | cons _ front =>
    obtain ⟨rfl, rfl⟩ := List.cons.inj split
    obtain ⟨better, before⟩ := List.forall_mem_cons.mp before
    refine ⟨there, head :: next :: front, back, rfl, ?_, after⟩
    refine List.forall_mem_cons.mpr ⟨better, List.forall_mem_cons.mpr ⟨fun there => ?_, before⟩⟩
    exact Value.ordering_of_not_better strict (better present) (other there)

/-- The bests of the same items in two orders are equal in order. -/
theorem FirstBest.perm {permuted : List Value} {second : Value} (strict : toward ≠ .eq)
    (first : FirstBest toward items best) (other : FirstBest toward permuted second) (perm : permuted.Perm items) :
    best.ordering second = .eq := by
  have left := first.not_better strict (perm.subset other.mem) other.1
  have right := other.not_better strict (perm.symm.subset first.mem) first.1
  rw [← Value.ordering_swap] at right
  generalize best.ordering second = order at left right
  cases order <;> cases toward <;> simp at left right strict ⊢

end FirstBest

section Extreme

variable {replaces : Float → Bool} {toward : Ordering} {kind : Variant} {function : Standard} {clock : Clock}
  {memory : Memory} {place : Nat} {items : List Value}

theorem extreme_empty (replaces : Float → Bool) (rest : List Value) (memory : Memory) :
    extreme replaces .empty rest memory = (.ok .empty, memory) := by
  induction rest with
  | nil => rfl
  | cons next rest ih => rw [extreme, Action.bind_apply, Value.empty_compare]; exact ih

theorem extreme_cons_empty (replaces : Float → Bool) (best : Value) (rest : List Value) (memory : Memory) :
    extreme replaces best (.empty :: rest) memory = extreme replaces best rest memory := by
  rw [extreme, Action.bind_apply, Value.compare_empty]

theorem extreme_cons (agrees : Replaces replaces toward) (ordered : Ordered kind) {best next : Value}
    (left : best.variant = kind) (right : next.variant = kind) (rest : List Value) (memory : Memory) :
    extreme replaces best (next :: rest) memory =
      extreme replaces (if best.ordering next = toward then next else best) rest memory := by
  obtain ⟨answer, number, taken⟩ := agrees (best.ordering next)
  rw [extreme, Action.bind_apply, Value.compare_ordered ordered left right, number]
  simp [taken]

theorem extreme_firstBest (agrees : Replaces replaces toward) (strict : toward ≠ .eq) (ordered : Ordered kind)
    {head : Value} {rest : List Value} (present : head.variant = kind) (alike : Alike kind rest) (memory : Memory) :
    ∃ best, extreme replaces head rest memory = (.ok best, memory) ∧ FirstBest toward (head :: rest) best := by
  have there : head ≠ .empty := ordered.ne_empty present
  induction rest generalizing head with
  | nil => exact ⟨head, rfl, .singleton there⟩
  | cons next rest ih =>
    obtain ⟨missing | one, others⟩ := List.forall_mem_cons.mp alike
    · obtain ⟨best, answer, first⟩ := ih present others there
      subst missing
      exact ⟨best, by rw [extreme_cons_empty, answer], first.insert strict there fun no => absurd rfl no⟩
    · rw [extreme_cons agrees ordered present one]
      have second : next ≠ .empty := ordered.ne_empty one
      by_cases better : head.ordering next = toward
      · obtain ⟨best, answer, first⟩ := ih one others second
        exact ⟨best, by rw [if_pos better, answer], first.cons strict second better⟩
      · obtain ⟨best, answer, first⟩ := ih present others there
        exact ⟨best, by rw [if_neg better, answer], first.insert strict there fun _ => better⟩

theorem call_of_first_missing (extreme : Extreme function toward) (clock : Clock)
    (listed : (memory.items place).toList = items) (missing : firstItem items = .empty) :
    call clock function [.array place] memory = (.ok .empty, memory) := by
  obtain ⟨replaces, -, call⟩ := extreme.call_array clock memory place
  rw [call, listed]
  cases items with
  | nil => rfl
  | cons head rest =>
    obtain rfl : head = .empty := missing
    exact extreme_empty replaces rest memory

theorem call_firstBest (extreme : Extreme function toward) (clock : Clock) (ordered : Ordered kind)
    (alike : Alike kind items) (listed : (memory.items place).toList = items) (present : firstItem items ≠ .empty) :
    ∃ best, call clock function [.array place] memory = (.ok best, memory) ∧ FirstBest toward items best := by
  obtain ⟨replaces, agrees, call⟩ := extreme.call_array clock memory place
  rw [call, listed]
  cases items with
  | nil => exact absurd rfl present
  | cons head rest =>
    obtain ⟨missing | one, others⟩ := List.forall_mem_cons.mp alike
    · exact absurd missing present
    · exact extreme_firstBest agrees extreme.ne_eq ordered one others memory

theorem call_eq_empty_iff (extreme : Extreme function toward) (clock : Clock) (ordered : Ordered kind)
    (alike : Alike kind items) (listed : (memory.items place).toList = items) :
    call clock function [.array place] memory = (.ok .empty, memory) ↔ firstItem items = .empty := by
  refine ⟨fun answer => ?_, call_of_first_missing extreme clock listed⟩
  refine Classical.byContradiction fun present => ?_
  obtain ⟨best, other, there, -⟩ := call_firstBest extreme clock ordered alike listed present
  rw [answer] at other
  cases other
  exact there rfl

end Extreme

/-- `MIN` and `MAX` pass over missing items behind the first one.

In an array of texts, of truth values or of dates, any two items that are there compare. The answer is missing data if and
only if the array is empty or its first item is missing; else it is the first item than which no other is better. Arrays of
the same items in two orders, both with an item at the start, have answers that compare equal. -/
theorem extremes_pass_missing :
    (∀ kind, Ordered kind → ∀ v w : Value, v.variant = kind → w.variant = kind → ∀ memory,
      v.compare w memory = (.ok (.ofOrdering (v.ordering w)), memory)) ∧
    ∀ kind, Ordered kind → ∀ items, Alike kind items → ∀ function toward, Extreme function toward →
      ∀ clock (memory : Memory) place, (memory.items place).toList = items →
        (call clock function [.array place] memory = (.ok .empty, memory) ↔ firstItem items = .empty) ∧
        (firstItem items ≠ .empty →
          ∃ best, call clock function [.array place] memory = (.ok best, memory) ∧ FirstBest toward items best) ∧
        ∀ permuted, permuted.Perm items → firstItem items ≠ .empty → firstItem permuted ≠ .empty →
          ∀ (later : Memory) other, (later.items other).toList = permuted →
            ∃ best second, call clock function [.array place] memory = (.ok best, memory) ∧
              call clock function [.array other] later = (.ok second, later) ∧
              ∀ any, best.compare second any = (.ok (.ofOrdering .eq), any) := by
  refine ⟨fun _ ordered _ _ left right => Value.compare_ordered ordered left right, ?_⟩
  intro kind ordered items alike function toward extreme clock memory place listed
  refine ⟨call_eq_empty_iff extreme clock ordered alike listed,
    call_firstBest extreme clock ordered alike listed, ?_⟩
  intro permuted perm present present' later other relisted
  have alike' : Alike kind permuted := fun v member => alike v (perm.subset member)
  obtain ⟨best, answer, first⟩ := call_firstBest extreme clock ordered alike listed present
  obtain ⟨second, answer', first'⟩ := call_firstBest extreme clock ordered alike' relisted present'
  -- What is best is there, so it is of the one kind of which all others are.
  have left : best.variant = kind := (alike best first.mem).resolve_left first.1
  have right : second.variant = kind := (alike' second first'.mem).resolve_left first'.1
  refine ⟨best, second, answer, answer', fun any => ?_⟩
  rw [Value.compare_ordered ordered left right, first.perm extreme.ne_eq first' perm]

/-- The least of an array with a gap, forwards and backwards. -/
theorem extremes_pass_missing_gap :
    let items : List Value := [.text "b", .empty, .text "a", .text "a"]
    let memory : Memory := ⟨#[items.toArray, items.reverse.toArray], #[], #[]⟩
    let clock : Clock := ⟨"2024-01-01", none⟩
    (Value.text "b").compare (.text "a") memory =
      (.ok (.ofOrdering ((Value.text "b").ordering (.text "a"))), memory) ∧
    call clock .min [.array 0] memory ≠ (.ok .empty, memory) ∧
    (∃ best, call clock .min [.array 0] memory = (.ok best, memory) ∧ FirstBest .gt items best) ∧
    ∃ best second, call clock .min [.array 0] memory = (.ok best, memory) ∧
      call clock .min [.array 1] memory = (.ok second, memory) ∧
      ∀ any, best.compare second any = (.ok (.ofOrdering .eq), any) := by
  intro items memory clock
  have alike : Alike .text items := by
    intro v member
    simp only [items, List.mem_cons, List.not_mem_nil, or_false] at member
    rcases member with rfl | rfl | rfl | rfl <;> simp [Value.variant]
  have there : ∀ s, Value.text s ≠ .empty := fun _ no => nomatch no
  obtain ⟨compare, extremes⟩ := extremes_pass_missing
  obtain ⟨missing, first, orders⟩ := extremes _ .text items alike _ _ .min clock memory 0 rfl
  exact ⟨compare _ .text _ _ rfl rfl memory, fun none => there "b" (missing.mp none), first (there "b"),
    orders items.reverse items.reverse_perm (there "b") (there "a") memory 1 rfl⟩

/-- A missing item at the start hides the others; behind them it does not. -/
theorem extremes_stop_missing :
    let memory : Memory := ⟨#[#[.empty, .text "a"], #[.text "a", .empty]], #[], #[]⟩
    let clock : Clock := ⟨"2024-01-01", none⟩
    call clock .min [.array 0] memory = (.ok .empty, memory) ∧ call clock .max [.array 0] memory = (.ok .empty, memory) ∧
    call clock .min [.array 1] memory = (.ok (.text "a"), memory) ∧
    Value.empty.compare (.text "a") memory = (.ok .empty, memory) :=
  ⟨rfl, rfl, rfl, rfl⟩

end Standard

end RuleScript
