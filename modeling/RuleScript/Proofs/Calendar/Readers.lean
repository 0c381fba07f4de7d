import RuleScript.Proofs.Calendar.Civil
import RuleScript.Proofs.Calendar.Fields

/-! Readers of days and the text after them.

A reader takes characters from the front. What it takes is the same whatever follows, as long as something it did not
take comes next. A day that is read in the front part of a text is therefore read in the whole text too, unless the part
ends within its last field; and then the day in the whole text is another one.
-/

set_option autoImplicit false

namespace RuleScript.Calendar

open RuleScript.Decimal (AreDigits)
open RuleScript.Text (isDigit digitsValue digitValue isBlank trimLeft)

variable {α β : Type}

/-- A reader takes at least one character, and does not depend on what follows the next one. -/
structure Lawful (read : List Char → Option (α × List Char)) : Prop where
  takes : ∀ {chars value rest}, read chars = some (value, rest) → ∃ taken, taken ≠ [] ∧ chars = taken ++ rest
  extend : ∀ {chars value rest} more, read chars = some (value, rest) → rest ≠ [] →
    read (chars ++ more) = some (value, rest ++ more)
  restrict : ∀ {chars value rest more}, read (chars ++ more) = some (value, rest ++ more) →
    read chars = some (value, rest)

namespace Lawful

variable {read : List Char → Option (α × List Char)} {next : α → List Char → Option (β × List Char)}

theorem ne_nil (lawful : Lawful read) {chars rest : List Char} {value : α} (some : read chars = some (value, rest)) :
    chars ≠ [] := by
  obtain ⟨taken, nonempty, rfl⟩ := lawful.takes some
  exact fun none => nonempty (List.append_eq_nil_iff.mp none).1

theorem map (lawful : Lawful read) (f : α → β) : Lawful fun chars => (read chars).map fun p => (f p.1, p.2) where
  takes := by
    intro chars value rest found
    obtain ⟨⟨first, tail⟩, taken, same⟩ := Option.map_eq_some_iff.mp found
    cases same
    exact lawful.takes taken
  extend := by
    intro chars value rest more found some
    obtain ⟨⟨first, tail⟩, taken, same⟩ := Option.map_eq_some_iff.mp found
    cases same
    rw [lawful.extend more taken some]
    rfl
  restrict := by
    intro chars value rest more found
    obtain ⟨⟨first, tail⟩, taken, same⟩ := Option.map_eq_some_iff.mp found
    cases same
    rw [lawful.restrict taken]
    rfl

theorem bind (lawful : Lawful read) (further : ∀ value, Lawful (next value)) :
    Lawful fun chars => (read chars).bind fun p => next p.1 p.2 where
  takes := by
    intro chars value rest found
    obtain ⟨⟨first, middle⟩, one, two⟩ := Option.bind_eq_some_iff.mp found
    obtain ⟨front, some, rfl⟩ := lawful.takes one
    obtain ⟨back, -, rfl⟩ := (further first).takes two
    exact ⟨front ++ back, fun none => some (List.append_eq_nil_iff.mp none).1, by simp⟩
  extend := by
    intro chars value rest more found some
    obtain ⟨⟨first, middle⟩, one, two⟩ := Option.bind_eq_some_iff.mp found
    rw [lawful.extend more one ((further first).ne_nil two)]
    exact (further first).extend more two some
  restrict := by
    intro chars value rest more found
    obtain ⟨⟨first, middle⟩, one, two⟩ := Option.bind_eq_some_iff.mp found
    obtain ⟨back, -, rfl⟩ := (further first).takes two
    rw [← List.append_assoc] at one two
    rw [lawful.restrict one]
    exact (further first).restrict two

theorem trimmed (lawful : Lawful read) : Lawful fun chars => read (trimLeft chars) where
  takes := by
    intro chars value rest found
    obtain ⟨taken, some, same⟩ := lawful.takes found
    refine ⟨chars.takeWhile isBlank ++ taken, fun none => some (List.append_eq_nil_iff.mp none).2, ?_⟩
    rw [List.append_assoc, ← same]
    exact List.takeWhile_append_dropWhile.symm
  extend := by
    intro chars value rest more found some
    rw [trimLeft_append (lawful.ne_nil found)]
    exact lawful.extend more found some
  restrict := by
    intro chars value rest more found
    by_cases blank : trimLeft chars = []
    · -- Only the blanks would be left to take, and a reader takes more than that.
      exfalso
      rw [trimLeft_append_of_nil blank] at found
      obtain ⟨taken, some, same⟩ := lawful.takes found
      have short : (trimLeft more).length ≤ more.length := (List.dropWhile_suffix isBlank).length_le
      have long := congrArg List.length same
      have one := List.length_pos_iff.mpr some
      simp only [List.length_append] at long
      omega
    · rw [trimLeft_append blank] at found
      exact lawful.restrict found

end Lawful

theorem number?_lawful {least most : Nat} (some : 0 < least) : Lawful (number? least most) where
  takes := by
    intro chars value rest found
    obtain ⟨digits, rfl, -, enough, -⟩ := number?_spec found
    exact ⟨digits, List.ne_nil_of_length_pos (by omega), rfl⟩
  extend := by
    intro chars value rest more found remains
    obtain ⟨digits, rfl, are, enough, fits, rfl, ends⟩ := number?_spec found
    rw [List.append_assoc]
    exact number?_digits are enough fits (ends.imp_right fun stops => stops.append remains more)
  restrict := by
    intro chars value rest more found
    obtain ⟨digits, whole, are, enough, fits, rfl, ends⟩ := number?_spec found
    rw [← List.append_assoc] at whole
    rw [List.append_cancel_right whole]
    exact number?_digits are enough fits (ends.imp_right Stops.of_append)

theorem unbounded?_lawful : Lawful unbounded? where
  takes := by
    intro chars value rest found
    obtain ⟨digits, rfl, -, some, -⟩ := unbounded?_spec found
    exact ⟨digits, some, rfl⟩
  extend := by
    intro chars value rest more found remains
    obtain ⟨digits, rfl, are, some, rfl, stops⟩ := unbounded?_spec found
    rw [List.append_assoc]
    exact unbounded?_digits are some (stops.append remains more)
  restrict := by
    intro chars value rest more found
    obtain ⟨digits, whole, are, some, rfl, stops⟩ := unbounded?_spec found
    rw [← List.append_assoc] at whole
    rw [List.append_cancel_right whole]
    exact unbounded?_digits are some stops.of_append

theorem field?_lawful : Lawful field? :=
  (number?_lawful (by decide)).trimmed

theorem literal?_lawful (c : Char) (value : α) :
    Lawful fun chars => (literal? c chars).map fun rest => (value, rest) where
  takes := by
    intro chars found rest some
    obtain ⟨tail, taken, same⟩ := Option.map_eq_some_iff.mp some
    cases same
    exact ⟨[c], List.cons_ne_nil _ _, literal?_eq_some.mp taken⟩
  extend := by
    intro chars found rest more some _
    obtain ⟨tail, taken, same⟩ := Option.map_eq_some_iff.mp some
    cases same
    rw [literal?_eq_some.mp taken, List.cons_append, literal?_cons]
    rfl
  restrict := by
    intro chars found rest more some
    obtain ⟨tail, taken, same⟩ := Option.map_eq_some_iff.mp some
    cases same
    have whole := literal?_eq_some.mp taken
    rw [← List.cons_append] at whole
    rw [List.append_cancel_right whole, literal?_cons]
    rfl

def yearHere? : List Char → Option (Int × List Char)
  | '-' :: rest => (unbounded? rest).map fun (n, rest) => (-(n : Int), rest)
  | '+' :: rest => (unbounded? rest).map fun (n, rest) => ((n : Int), rest)
  | rest => (number? 1 4 rest).map fun (n, rest) => ((n : Int), rest)

theorem year?_eq (chars : List Char) : year? chars = yearHere? (trimLeft chars) := rfl

/-- A year has a sign and any digits, or no sign and at most four digits. -/
theorem yearHere?_eq_some {chars rest : List Char} {year : Int} : yearHere? chars = some (year, rest) ↔
    (∃ tail n, chars = '-' :: tail ∧ unbounded? tail = some (n, rest) ∧ year = -(n : Int)) ∨
    (∃ tail n, chars = '+' :: tail ∧ unbounded? tail = some (n, rest) ∧ year = n) ∨
    ∃ n, number? 1 4 chars = some (n, rest) ∧ year = n := by
  constructor
  · intro found
    unfold yearHere? at found
    split at found
    · next tail =>
      obtain ⟨⟨n, _⟩, read, same⟩ := Option.map_eq_some_iff.mp found
      cases same
      exact .inl ⟨tail, n, rfl, read, rfl⟩
    · next tail =>
      obtain ⟨⟨n, _⟩, read, same⟩ := Option.map_eq_some_iff.mp found
      cases same
      exact .inr (.inl ⟨tail, n, rfl, read, rfl⟩)
    · obtain ⟨⟨n, _⟩, read, same⟩ := Option.map_eq_some_iff.mp found
      cases same
      exact .inr (.inr ⟨n, read, rfl⟩)
  · rintro (⟨tail, n, rfl, read, rfl⟩ | ⟨tail, n, rfl, read, rfl⟩ | ⟨n, read, rfl⟩)
    · simp [yearHere?, read]
    · simp [yearHere?, read]
    · obtain ⟨digits, rfl, are, enough, -⟩ := number?_spec read
      cases digits with
      | nil => simp at enough
      | cons c tail =>
        -- The reader looks for a sign first, and a digit is none.
        have digit := are c List.mem_cons_self
        have minus : c ≠ '-' := ne_of_digit digit (by decide)
        have plus : c ≠ '+' := ne_of_digit digit (by decide)
        rw [List.cons_append] at read
        simp [yearHere?, minus, plus, read]

theorem yearHere?_takes {chars rest : List Char} {year : Int} (found : yearHere? chars = some (year, rest)) :
    ∃ taken, taken ≠ [] ∧ chars = taken ++ rest := by
  rcases yearHere?_eq_some.mp found with ⟨tail, n, rfl, read, -⟩ | ⟨tail, n, rfl, read, -⟩ | ⟨n, read, -⟩
  · obtain ⟨taken, -, rfl⟩ := unbounded?_lawful.takes read
    exact ⟨'-' :: taken, List.cons_ne_nil _ _, rfl⟩
  · obtain ⟨taken, -, rfl⟩ := unbounded?_lawful.takes read
    exact ⟨'+' :: taken, List.cons_ne_nil _ _, rfl⟩
  · exact (number?_lawful (by decide)).takes read

theorem yearHere?_lawful : Lawful yearHere? where
  takes := yearHere?_takes
  extend := by
    intro chars year rest more found remains
    rw [yearHere?_eq_some] at found ⊢
    rcases found with ⟨tail, n, rfl, read, value⟩ | ⟨tail, n, rfl, read, value⟩ | ⟨n, read, value⟩
    · exact .inl ⟨tail ++ more, n, rfl, unbounded?_lawful.extend more read remains, value⟩
    · exact .inr (.inl ⟨tail ++ more, n, rfl, unbounded?_lawful.extend more read remains, value⟩)
    · exact .inr (.inr ⟨n, (number?_lawful (by decide)).extend more read remains, value⟩)
  restrict := by
    intro chars year rest more found
    cases chars with
    | nil =>
      obtain ⟨taken, some, same⟩ := yearHere?_takes found
      have long := congrArg List.length same
      have one := List.length_pos_iff.mpr some
      simp only [List.nil_append, List.length_append] at long
      omega
    | cons c front =>
      rw [yearHere?_eq_some] at found ⊢
      rcases found with ⟨tail, n, same, read, value⟩ | ⟨tail, n, same, read, value⟩ | ⟨n, read, value⟩
      · cases same
        exact .inl ⟨front, n, rfl, unbounded?_lawful.restrict read, value⟩
      · cases same
        exact .inr (.inl ⟨front, n, rfl, unbounded?_lawful.restrict read, value⟩)
      · exact .inr (.inr ⟨n, (number?_lawful (by decide)).restrict read, value⟩)

def followed (read : List Char → Option (α × List Char)) (c : Char) (chars : List Char) : Option (α × List Char) :=
  (read chars).bind fun p => (literal? c p.2).map fun rest => (p.1, rest)

theorem Lawful.followed {read : List Char → Option (α × List Char)} (lawful : Lawful read) (c : Char) :
    Lawful (Calendar.followed read c) :=
  lawful.bind fun value => literal?_lawful c value

def month? (chars : List Char) : Option ((Int × Nat) × List Char) :=
  (followed year? '-' chars).bind fun p => (followed field? '-' p.2).map fun q => ((p.1, q.1), q.2)

def civil? (chars : List Char) : Option (Civil × List Char) :=
  (month? chars).bind fun p => (field? p.2).map fun q => (⟨p.1.1, p.1.2, q.1⟩, q.2)

theorem month?_lawful : Lawful month? :=
  (yearHere?_lawful.trimmed.followed '-').bind fun year => (field?_lawful.followed '-').map fun month => (year, month)

theorem civil?_lawful : Lawful civil? :=
  month?_lawful.bind fun p : Int × Nat => field?_lawful.map fun day => (⟨p.1, p.2, day⟩ : Civil)

theorem lenientDay?_eq (chars : List Char) :
    lenientDay? chars = (civil? chars).bind fun p => (Day.ofCivil? p.1).map fun day => (day, p.2) := by
  simp only [lenientDay?, civil?, month?, followed, Option.bind_assoc, Option.map_eq_bind, Option.bind_eq_bind]
  rfl

theorem lenientDay?_eq_some {chars rest : List Char} {day : Day} :
    lenientDay? chars = some (day, rest) ↔ ∃ c, civil? chars = some (c, rest) ∧ Day.ofCivil? c = some day := by
  rw [lenientDay?_eq]
  constructor
  · intro read
    obtain ⟨⟨c, tail⟩, found, made⟩ := Option.bind_eq_some_iff.mp read
    obtain ⟨made, exists_, same⟩ := Option.map_eq_some_iff.mp made
    cases same
    exact ⟨c, found, exists_⟩
  · rintro ⟨c, found, made⟩
    rw [found, Option.bind_some, made]
    rfl

theorem readDay?_eq_some {chars : List Char} {day : Day} :
    readDay? chars = some day ↔ lenientDay? chars = some (day, []) :=
  complete?_eq_some

section Front

variable {front more rest : List Char}

/-- A field that ends with the front part of a text may go on in the whole text, and then it is a greater number. -/
theorem field?_front {n m : Nat} (part : field? front = some (n, [])) (whole : field? (front ++ more) = some (m, rest)) :
    m = n ∧ rest = more ∨ ∃ digit, m = n * 10 + digit := by
  have remains : trimLeft front ≠ [] := (number?_lawful (by decide)).ne_nil part
  rw [field?, trimLeft_append remains] at whole
  obtain ⟨digits, same, are, enough, fits, rfl, -⟩ := number?_spec part
  rw [List.append_nil] at same
  rw [same] at whole
  -- A full field, or one that no digit follows, is read again; else the digit that follows is the last one.
  by_cases ends : digits.length = 2 ∨ Stops more
  · rw [number?_digits are enough fits ends] at whole
    cases whole
    exact .inl ⟨rfl, rfl⟩
  · obtain ⟨open_, goesOn⟩ := not_or.mp ends
    cases more with
    | nil => exact absurd stops_nil goesOn
    | cons c tail =>
      rw [stops_cons, Bool.not_eq_false] at goesOn
      have both : AreDigits (digits ++ [c]) := List.forall_mem_append.mpr ⟨are, List.forall_mem_singleton.mpr goesOn⟩
      have full : (digits ++ [c]).length = 2 := by
        rw [List.length_append, List.length_singleton]
        omega
      rw [List.append_cons, number?_digits both (by omega) full.le (.inl full)] at whole
      cases whole
      exact .inr ⟨digitValue c, by simp [digitsValue]⟩

/-- The front part of a text is read as a day that the whole text begins with only if nothing of that day is cut off. -/
theorem rest_eq_of_readDay? {c : Civil} (whole : civil? (front ++ more) = some (c, rest))
    (part : readDay? front = some (Day.ofCivil c)) : rest = more := by
  obtain ⟨b, found, made⟩ := lenientDay?_eq_some.mp (readDay?_eq_some.mp part)
  obtain ⟨⟨⟨year, month⟩, left⟩, first, last⟩ := Option.bind_eq_some_iff.mp found
  obtain ⟨⟨n, none⟩, field, same⟩ := Option.map_eq_some_iff.mp last
  cases same
  -- The year and the month are the same in the whole text.
  rw [civil?, month?_lawful.extend more first (field?_lawful.ne_nil field), Option.bind_some] at whole
  obtain ⟨⟨m, other⟩, longer, same⟩ := Option.map_eq_some_iff.mp whole
  cases same
  rcases field?_front field longer with ⟨-, rfl⟩ | ⟨digit, rfl⟩
  · rfl
  · exfalso
    simp only [Day.ofCivil?] at made
    split at made
    · next valid =>
      have positive : 1 ≤ n := by
        simp only [Civil.exists, Bool.and_eq_true, decide_eq_true_eq] at valid
        exact valid.1.1.1.2
      have number := Day.eq_iff.mp (Option.some.inj made)
      simp only [Day.ofCivil] at number
      omega
    · cases made

/-- The front part of a text is read as the day that the text begins with if and only if it is that day as written. -/
theorem readDay?_front_iff {day : Day} (whole : lenientDay? (front ++ more) = some (day, rest)) :
    readDay? front = some day ↔ rest = more := by
  obtain ⟨c, found, made⟩ := lenientDay?_eq_some.mp whole
  constructor
  · intro part
    refine rest_eq_of_readDay? found (part.trans ?_)
    simp only [Day.ofCivil?] at made
    split at made
    · exact made.symm
    · cases made
  · rintro rfl
    rw [readDay?_eq_some, lenientDay?_eq_some]
    change civil? (front ++ rest) = some (c, [] ++ rest) at found
    exact ⟨c, civil?_lawful.restrict found, made⟩

end Front

end RuleScript.Calendar
