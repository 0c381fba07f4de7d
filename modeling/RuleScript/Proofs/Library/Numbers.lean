import RuleScript.Library.Standard
import RuleScript.Proofs.Calendar.Heads

/-! Numbers at the start of a text.

The reader takes all the characters that a number is written with and gives them up again from the right, until what is
left is a literal. The grammar knows nothing of this. As a literal has no other characters, and a word such as `nan`
begins with others, what the reader finds is the longest literal that the text begins with.
-/

set_option autoImplicit false

namespace RuleScript

namespace Decimal

open RuleScript.Text (isDigit digitsValue)

inductive IsSign : List Char → Bool → Prop where
  | none : IsSign [] false
  | plus : IsSign ['+'] false
  | minus : IsSign ['-'] true

inductive WritesPower : List Char → Int → Prop where
  | none : WritesPower [] 0
  | some {mark : Char} {sign digits : List Char} {negative : Bool} (marks : mark = 'e' ∨ mark = 'E')
      (signed : IsSign sign negative) (any : digits ≠ []) (are : AreDigits digits) :
      WritesPower (mark :: (sign ++ digits)) (if negative then -(digitsValue digits : Int) else digitsValue digits)

/-- A literal and the decimal that it writes, `± whole.fraction · 10 ^ power`. -/
inductive Writes : List Char → Numeral → Prop where
  | whole {sign whole exponent : List Char} {negative : Bool} {power : Int} (signed : IsSign sign negative)
      (any : whole ≠ []) (are : AreDigits whole) (powered : WritesPower exponent power) :
      Writes (sign ++ (whole ++ exponent)) ⟨negative, digitsValue whole, power⟩
  | point {sign whole fraction exponent : List Char} {negative : Bool} {power : Int} (signed : IsSign sign negative)
      (any : ¬(whole = [] ∧ fraction = [])) (are : AreDigits whole) (more : AreDigits fraction)
      (powered : WritesPower exponent power) :
      Writes (sign ++ ((whole ++ '.' :: fraction) ++ exponent))
        ⟨negative, digitsValue (whole ++ fraction), power - fraction.length⟩

section

variable {chars sign digits literal other : List Char} {negative : Bool} {power : Int} {numeral : Numeral}

theorem exists_isSign_of_signed {Body : List Char → Prop} (signed : Signed Body chars) :
    ∃ sign negative rest, IsSign sign negative ∧ chars = sign ++ rest ∧ Body rest := by
  rcases signed with body | ⟨_, rest, rfl, rfl | rfl, body⟩
  · exact ⟨[], false, chars, .none, rfl, body⟩
  · exact ⟨['+'], false, rest, .plus, rfl, body⟩
  · exact ⟨['-'], true, rest, .minus, rfl, body⟩

theorem splitSign_append {rest : List Char} (signed : IsSign sign negative)
    (unsigned : ∀ c tail, rest = c :: tail → c ≠ '+' ∧ c ≠ '-') : splitSign (sign ++ rest) = (negative, rest) := by
  cases signed with
  | none =>
    match rest with
    | [] => rfl
    | c :: tail =>
      obtain ⟨plus, minus⟩ := unsigned c tail rfl
      simp [splitSign, plus, minus]
  | plus | minus => rfl

theorem ne_sign_of_digit {c : Char} (digit : isDigit c = true) : c ≠ '+' ∧ c ≠ '-' := by
  constructor <;> rintro rfl <;> exact absurd digit (by decide)

theorem AreDigits.unsigned (are : AreDigits digits) (c : Char) (tail : List Char) (begins : digits = c :: tail) :
    c ≠ '+' ∧ c ≠ '-' :=
  ne_sign_of_digit (are c (begins ▸ List.mem_cons_self))

theorem WritesPower.isExponent (writes : WritesPower chars power) : IsExponent chars := by
  cases writes with
  | none => exact .inl rfl
  | some marks signed any are =>
    refine .inr ⟨_, _, rfl, marks, ?_⟩
    cases signed with
    | none => exact .inl ⟨any, are⟩
    | plus => exact .inr ⟨_, _, rfl, .inl rfl, any, are⟩
    | minus => exact .inr ⟨_, _, rfl, .inr rfl, any, are⟩

theorem IsExponent.exists_power (exponent : IsExponent chars) : ∃ power, WritesPower chars power := by
  rcases exponent with rfl | ⟨mark, rest, rfl, marks, body⟩
  · exact ⟨0, .none⟩
  · obtain ⟨sign, negative, digits, signed, rfl, any, are⟩ := exists_isSign_of_signed body
    exact ⟨_, .some marks signed any are⟩

theorem IsLiteral.exists_writes (literal : IsLiteral chars) : ∃ numeral, Writes chars numeral := by
  obtain ⟨sign, negative, _, signed, rfl, mantissa, exponent, rfl, ⟨whole, fraction, are, more, any, form⟩, powered⟩ :=
    exists_isSign_of_signed literal
  obtain ⟨power, powered⟩ := powered.exists_power
  rcases form with rfl | ⟨rfl, rfl⟩
  · exact ⟨_, .point signed any are more powered⟩
  · exact ⟨_, .whole signed (by simpa using any) are powered⟩

/-- The pieces are put together to the decimal that they write. -/
theorem ofPieces_of_power {whole fraction : List Char} (any : ¬(whole = [] ∧ fraction = []))
    (powered : WritesPower chars power) :
    Numeral.ofPieces negative whole fraction chars =
      some ⟨negative, digitsValue (whole ++ fraction), power - fraction.length⟩ := by
  have filled : (whole.isEmpty && fraction.isEmpty) = false := by simpa using any
  cases powered with
  | none => simp [Numeral.ofPieces, filled]
  | @some mark sign digits minus marks signed any are =>
    have read : readExponent? (sign ++ digits) =
        some (if minus then -(digitsValue digits : Int) else digitsValue digits) := by
      have digitsOnly : digits.all isDigit = true := List.all_eq_true.mpr are
      simp [readExponent?, splitSign_append signed are.unsigned, any, digitsOnly]
    simp [Numeral.ofPieces, filled, marks, read]

theorem Writes.read? (writes : Writes chars numeral) : Numeral.read? chars = some numeral := by
  rw [read?_eq_ofPieces]
  -- What comes after the sign, or stands without one, begins with a digit or with the point.
  cases writes with
  | @whole sign whole exponent negative power signed any are powered =>
    have unsigned : ∀ c tail, whole ++ exponent = c :: tail → c ≠ '+' ∧ c ≠ '-' := fun c tail begins => by
      obtain ⟨head, rest, rfl⟩ := List.exists_cons_of_ne_nil any
      cases begins
      exact are.unsigned _ rest rfl
    rw [splitSign_append signed unsigned, splitMantissa_of_whole are fun c tail => powered.isExponent.stops,
      ofPieces_of_power (fun none => any none.1) powered, List.append_nil]
    simp
  | @point sign whole fraction exponent negative power signed any are more powered =>
    have unsigned : ∀ c tail, (whole ++ '.' :: fraction) ++ exponent = c :: tail → c ≠ '+' ∧ c ≠ '-' :=
      fun c tail begins => by
        cases whole with
        | nil =>
          cases begins
          decide
        | cons head rest =>
          cases begins
          exact are.unsigned _ rest rfl
    rw [splitSign_append signed unsigned,
      splitMantissa_of_point are more fun c tail begins => (powered.isExponent.stops begins).1,
      ofPieces_of_power any powered]

/-- A literal is read as the decimal that it writes. -/
theorem read?_eq_some_iff : Numeral.read? chars = some numeral ↔ Writes chars numeral := by
  refine ⟨fun read => ?_, Writes.read?⟩
  obtain ⟨written, writes⟩ := ((read?_isSome chars).mp (Option.isSome_of_eq_some read)).exists_writes
  cases read.symm.trans writes.read?
  exact writes

theorem read?_eq_none_iff : Numeral.read? chars = none ↔ ¬ IsLiteral chars := by
  rw [← read?_isSome, Option.not_isSome_iff_eq_none]

theorem IsSign.numeric (signed : IsSign sign negative) : ∀ c ∈ sign, isNumeric c = true := by
  cases signed <;> simp [isNumeric]

theorem AreDigits.numeric (are : AreDigits digits) : ∀ c ∈ digits, isNumeric c = true := fun c member => by
  simp [isNumeric, are c member]

theorem WritesPower.numeric (writes : WritesPower chars power) : ∀ c ∈ chars, isNumeric c = true := by
  cases writes with
  | none => exact List.forall_mem_nil _
  | some marks signed _ are =>
    refine List.forall_mem_cons.mpr ⟨?_, List.forall_mem_append.mpr ⟨signed.numeric, are.numeric⟩⟩
    rcases marks with rfl | rfl <;> decide

theorem Writes.numeric (writes : Writes chars numeral) : ∀ c ∈ chars, isNumeric c = true := by
  cases writes with
  | whole signed _ are powered =>
    simp only [List.forall_mem_append]
    exact ⟨signed.numeric, are.numeric, powered.numeric⟩
  | point signed _ are more powered =>
    simp only [List.forall_mem_append, List.forall_mem_cons]
    exact ⟨signed.numeric, ⟨are.numeric, by decide, more.numeric⟩, powered.numeric⟩

theorem IsLiteral.numeric (literal : IsLiteral chars) : ∀ c ∈ chars, isNumeric c = true := by
  obtain ⟨_, writes⟩ := literal.exists_writes
  exact writes.numeric

theorem IsLiteral.front_run (isLiteral : IsLiteral literal) (front : literal <+: chars) :
    literal <+: chars.takeWhile isNumeric := by
  obtain ⟨rest, rfl⟩ := front
  rw [List.takeWhile_append_of_pos isLiteral.numeric]
  exact List.prefix_append ..

theorem digit_or_mark {c : Char} (numeric : isNumeric c = true) :
    isDigit c = true ∨ c = '+' ∨ c = '-' ∨ c = '.' ∨ c = 'e' ∨ c = 'E' := by
  simpa [isNumeric, or_assoc] using numeric

theorem narrow_of_numeric (numeric : ∀ c ∈ chars, isNumeric c = true) : Calendar.Narrow chars := fun c member => by
  rcases digit_or_mark (numeric c member) with digit | mark
  · exact Calendar.narrow_of_digits (List.forall_mem_singleton.mpr digit) c List.mem_cons_self
  · rcases mark with rfl | rfl | rfl | rfl | rfl <;> rfl

/-! ## The longest literal -/

/-- The longest literal that some characters begin with. -/
structure Longest (literal chars : List Char) : Prop where
  front : literal <+: chars
  isLiteral : IsLiteral literal
  longest : ∀ other, other <+: chars → IsLiteral other → other <+: literal

theorem Longest.unique (first : Longest literal chars) (second : Longest other chars) : literal = other :=
  (second.longest literal first.front first.isLiteral).eq_of_length_le
    (first.longest other second.front second.isLiteral).length_le

theorem longestNumeral?_eq_none_iff {limit : Nat} :
    longestNumeral? chars limit = none ↔ ∀ length ≤ limit, ¬ IsLiteral (chars.take length) := by
  induction limit with
  | zero =>
    have nothing : ¬ IsLiteral [] := read?_eq_none_iff.mp rfl
    simpa [longestNumeral?] using nothing
  | succ limit ih =>
    rw [longestNumeral?]
    cases read : Numeral.read? (chars.take (limit + 1)) with
    | some numeral =>
      have isLiteral := (read?_isSome _).mp (Option.isSome_of_eq_some read)
      exact iff_of_false nofun fun none => none _ le_rfl isLiteral
    | none =>
      simp only [ih, Nat.le_succ_iff, or_imp, forall_and, forall_eq, read?_eq_none_iff.mp read, not_false_eq_true,
        and_true]

theorem longestNumeral?_eq_some {limit : Nat} (found : longestNumeral? chars limit = some numeral) :
    ∃ length ≤ limit, Writes (chars.take length) numeral ∧
      ∀ longer ≤ limit, length < longer → ¬ IsLiteral (chars.take longer) := by
  induction limit with
  | zero => cases found
  | succ limit ih =>
    rw [longestNumeral?] at found
    cases read : Numeral.read? (chars.take (limit + 1)) with
    | some other =>
      rw [read] at found
      cases found
      exact ⟨limit + 1, le_rfl, read?_eq_some_iff.mp read, fun longer most more => absurd most (Nat.not_le.mpr more)⟩
    | none =>
      rw [read] at found
      obtain ⟨length, most, writes, none⟩ := ih found
      refine ⟨length, most.trans (Nat.le_succ limit), writes, fun longer below above => ?_⟩
      rcases Nat.le_succ_iff.mp below with below | rfl
      · exact none longer below above
      · exact read?_eq_none_iff.mp read

def numericRun (chars : List Char) : List Char :=
  chars.takeWhile isNumeric

def leadingNumeral? (chars : List Char) : Option Numeral :=
  longestNumeral? (numericRun chars) (numericRun chars).length

/-- The literals that some characters begin with are the first characters of the run. -/
theorem front_literal_iff : literal <+: chars ∧ IsLiteral literal ↔
    ∃ length ≤ (numericRun chars).length, literal = (numericRun chars).take length ∧ IsLiteral literal := by
  constructor
  · rintro ⟨front, isLiteral⟩
    have within := isLiteral.front_run front
    exact ⟨literal.length, within.length_le, List.prefix_iff_eq_take.mp within, isLiteral⟩
  · rintro ⟨length, -, rfl, isLiteral⟩
    exact ⟨(List.take_prefix ..).trans (List.takeWhile_prefix _), isLiteral⟩

theorem leadingNumeral?_spec (chars : List Char) :
    (∃ literal numeral, Longest literal chars ∧ Writes literal numeral ∧ leadingNumeral? chars = some numeral) ∨
      (∀ front, front <+: chars → ¬ IsLiteral front) ∧ leadingNumeral? chars = none := by
  cases found : leadingNumeral? chars with
  | none =>
    refine .inr ⟨fun front begins isLiteral => ?_, rfl⟩
    obtain ⟨length, most, rfl, isLiteral⟩ := front_literal_iff.mp ⟨begins, isLiteral⟩
    exact longestNumeral?_eq_none_iff.mp found length most isLiteral
  | some numeral =>
    obtain ⟨length, most, writes, none⟩ := longestNumeral?_eq_some found
    have isLiteral := (read?_isSome _).mp (Option.isSome_of_eq_some writes.read?)
    refine .inl ⟨(numericRun chars).take length, numeral, ?_, writes, rfl⟩
    refine ⟨(front_literal_iff.mpr ⟨length, most, rfl, isLiteral⟩).1, isLiteral, fun other begins is => ?_⟩
    obtain ⟨size, within, rfl, is⟩ := front_literal_iff.mp ⟨begins, is⟩
    -- One that is longer would have been found before.
    have shorter : size ≤ length := Nat.not_lt.mp fun longer => none size within longer is
    exact List.take_prefix_take_left shorter

theorem Longest.leadingNumeral? (longest : Longest literal chars) :
    Decimal.leadingNumeral? chars = Numeral.read? literal := by
  rcases leadingNumeral?_spec chars with ⟨other, numeral, most, writes, found⟩ | ⟨none, -⟩
  · rw [found, longest.unique most, writes.read?]
  · exact absurd longest.isLiteral (none literal longest.front)

theorem not_numeric_of_lower {c : Char} (letter : c.toLower = 'i' ∨ c.toLower = 'n') : isNumeric c = false := by
  refine eq_false_of_ne_true fun numeric => ?_
  rcases digit_or_mark numeric with digit | mark
  · obtain ⟨-, high⟩ := Calendar.isDigit_iff.mp digit
    have same : c.toLower = c := dif_neg fun upper => by
      have above := UInt32.le_iff_toNat_le.mp upper.1
      have first : ('A'.val).toNat = 65 := rfl
      have value : c.toNat = c.val.toNat := rfl
      omega
    rw [same] at letter
    rcases letter with rfl | rfl <;> exact absurd digit (by decide)
  · revert letter
    rcases mark with rfl | rfl | rfl | rfl | rfl <;> decide

theorem IsWord.exists_letter (word : IsWord chars) :
    ∃ sign negative letter tail, IsSign sign negative ∧ chars = sign ++ letter :: tail ∧ isNumeric letter = false := by
  obtain ⟨sign, negative, body, signed, rfl, named⟩ := exists_isSign_of_signed word
  have lower : body.map Char.toLower ∈ ["inf".toList, "infinity".toList, "nan".toList] := by
    simpa [Text.asciiLower, String.ext_iff] using named
  cases body with
  | nil => exact absurd lower (by decide)
  | cons letter tail =>
    refine ⟨sign, negative, letter, tail, signed, rfl, not_numeric_of_lower ?_⟩
    simp only [List.map_cons, List.mem_cons, List.not_mem_nil, or_false] at lower
    rcases lower with same | same | same
    · exact .inl (List.cons.inj same).1
    · exact .inl (List.cons.inj same).1
    · exact .inr (List.cons.inj same).1

theorem IsSign.not_literal (signed : IsSign sign negative) (within : literal <+: sign) : ¬ IsLiteral literal := by
  have signs : ∀ sign ∈ [[], ['+'], ['-']], ∀ length < 2, Numeral.read? (sign.take length) = Option.none := by decide
  have one : sign ∈ [[], ['+'], ['-']] ∧ sign.length < 2 := by cases signed <;> decide
  rw [List.prefix_iff_eq_take.mp within]
  exact read?_eq_none_iff.mp (signs sign one.1 _ (within.length_le.trans_lt one.2))

theorem IsWord.not_literal {word front : List Char} (isWord : IsWord word) (begins : word <+: chars)
    (starts : front <+: chars) : ¬ IsLiteral front := fun isLiteral => by
  obtain ⟨sign, negative, letter, tail, signed, rfl, other⟩ := isWord.exists_letter
  obtain ⟨rest, rfl⟩ := begins
  have within := isLiteral.front_run starts
  rw [List.append_assoc, List.takeWhile_append_of_pos signed.numeric, List.cons_append,
    List.takeWhile_cons_of_neg (by simp [other]), List.append_nil] at within
  exact signed.not_literal within isLiteral

/-- No cut into the run is within a character: its first bytes are as many characters. -/
theorem firstBytes?_run {bytes : Nat} (within : bytes ≤ (numericRun chars).length) :
    Calendar.firstBytes? bytes chars = some ((numericRun chars).take bytes) := by
  have numeric : ∀ c ∈ (numericRun chars).take bytes, isNumeric c = true := fun c member =>
    List.mem_takeWhile_imp (List.mem_of_mem_take member)
  obtain ⟨rest, whole⟩ := (List.take_prefix bytes (numericRun chars)).trans (List.takeWhile_prefix isNumeric)
  have cut := Calendar.firstBytes?_narrow (narrow_of_numeric numeric) rest
  rwa [whole, List.length_take_of_le within] at cut

theorem readFloat?_run (length : Nat) :
    readFloat? ((numericRun chars).take length) =
      (Numeral.read? ((numericRun chars).take length)).map Numeral.toFloat := by
  have none : readWord? ((numericRun chars).take length) = Option.none := by
    rw [← Option.not_isSome_iff_eq_none, readWord?_isSome]
    intro word
    obtain ⟨sign, negative, letter, tail, -, parts, other⟩ := word.exists_letter
    have member : letter ∈ (numericRun chars).take length := by simp [parts]
    rw [List.mem_takeWhile_imp (List.mem_of_mem_take member)] at other
    cases other
  rw [readFloat?, none]
  cases Numeral.read? ((numericRun chars).take length) <;> rfl

end

end Decimal

namespace Standard

open Decimal

theorem call_number_text (clock : Clock) (text : String) (memory : Memory) :
    call clock .number [.text text] memory =
      (.ok (((leadingNumeral? (Text.trimLeft text.toList)).map fun n => Value.number n.toFloat).getD .empty),
        memory) := by
  have found : leadingFloat? text = (leadingNumeral? (Text.trimLeft text.toList)).map Numeral.toFloat := rfl
  change (Except.ok (toNumber memory (.text text)), memory) = _
  simp only [toNumber, Value.toText, found]
  cases leadingNumeral? (Text.trimLeft text.toList) <;> rfl

/-- `NUMBER` reads the longest literal that a text begins with behind its white space, and answers missing data if it
begins with none, as it does for a word. What stands behind that literal makes no difference, the scan cuts the text
between characters only, and a reader that knows the words reads the same there. -/
theorem number_reads_longest (clock : Clock) (text : String) (memory : Memory) :
    let chars := Text.trimLeft text.toList
    ((∃ literal numeral, Longest literal chars ∧ Writes literal numeral ∧
        readFloat? literal = some numeral.toFloat ∧
        call clock .number [.text text] memory = (.ok (.number numeral.toFloat), memory)) ∨
      (∀ front, front <+: chars → ¬ IsLiteral front) ∧
        call clock .number [.text text] memory = (.ok .empty, memory)) ∧
    (∀ word, IsWord word → word <+: chars → call clock .number [.text text] memory = (.ok .empty, memory)) ∧
    (∀ literal other, Longest literal chars → Longest literal (Text.trimLeft other.toList) →
      call clock .number [.text other] memory = call clock .number [.text text] memory) ∧
    ∀ bytes ≤ (numericRun chars).length,
      Calendar.firstBytes? bytes chars = some ((numericRun chars).take bytes) ∧
      readFloat? ((numericRun chars).take bytes) =
        (Numeral.read? ((numericRun chars).take bytes)).map Numeral.toFloat := by
  intro chars
  refine ⟨?answers, fun word isWord begins => ?word, fun literal other here there => ?alike,
    fun bytes within => ⟨firstBytes?_run within, readFloat?_run bytes⟩⟩
  case answers =>
    rcases leadingNumeral?_spec chars with ⟨literal, numeral, longest, writes, found⟩ | ⟨none, missed⟩
    · refine .inl ⟨literal, numeral, longest, writes, ?_, by rw [call_number_text, found]; rfl⟩
      rw [readFloat?, writes.read?]
    · exact .inr ⟨none, by rw [call_number_text, missed]; rfl⟩
  case word =>
    -- No literal begins where a word does.
    rcases leadingNumeral?_spec chars with ⟨literal, numeral, longest, -⟩ | ⟨-, missed⟩
    · exact absurd longest.isLiteral (isWord.not_literal begins longest.front)
    · rw [call_number_text, missed]
      rfl
  case alike =>
    rw [call_number_text, call_number_text, here.leadingNumeral?, there.leadingNumeral?]

/-- An exponent without digits is left off, with what follows it. -/
example : leadingFloat? " -.5e+é" = some (-0.5) := by decide +kernel

end Standard

end RuleScript
