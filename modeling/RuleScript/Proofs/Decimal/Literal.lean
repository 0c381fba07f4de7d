import Mathlib.Algebra.Group.Nat.Defs
import Mathlib.Data.List.TakeWhile
import RuleScript.Decimal.Numeral

/-! The texts that write a number, as a grammar.

The readers cut a text up from the left. The grammar says what the pieces are, and the two agree
because no piece can begin with a character that the piece before it could take.
-/

set_option autoImplicit false

namespace RuleScript.Decimal

open RuleScript.Text (isDigit digitsValue)

def AreDigits (chars : List Char) : Prop :=
  ∀ c ∈ chars, isDigit c = true

def Signed (Body : List Char → Prop) (chars : List Char) : Prop :=
  Body chars ∨ ∃ sign rest, chars = sign :: rest ∧ (sign = '+' ∨ sign = '-') ∧ Body rest

/-- Digits with an optional point among them, at least one digit. -/
def IsMantissa (chars : List Char) : Prop :=
  ∃ whole fraction, AreDigits whole ∧ AreDigits fraction ∧ ¬(whole = [] ∧ fraction = []) ∧
    (chars = whole ++ '.' :: fraction ∨ (chars = whole ∧ fraction = []))

def IsExponent (chars : List Char) : Prop :=
  chars = [] ∨ ∃ mark power, chars = mark :: power ∧ (mark = 'e' ∨ mark = 'E') ∧
    Signed (fun digits => digits ≠ [] ∧ AreDigits digits) power

def IsLiteral : List Char → Prop :=
  Signed fun chars => ∃ mantissa exponent,
    chars = mantissa ++ exponent ∧ IsMantissa mantissa ∧ IsExponent exponent

def IsWord : List Char → Prop :=
  Signed fun chars =>
    Text.asciiLower (String.ofList chars) ∈ ["inf", "infinity", "nan"]

theorem signed_iff {Body : List Char → Prop}
    (unsigned : ∀ sign rest, sign = '+' ∨ sign = '-' → ¬Body (sign :: rest)) (chars : List Char) :
    Signed Body chars ↔ Body (splitSign chars).2 := by
  constructor
  · rintro (body | ⟨sign, rest, rfl, sign, body⟩)
    · match chars with
      | [] => exact body
      | c :: rest =>
        by_cases minus : c = '-'
        · exact absurd body (unsigned c rest (.inr minus))
        · by_cases plus : c = '+'
          · exact absurd body (unsigned c rest (.inl plus))
          · simpa [splitSign, minus, plus] using body
    · rcases sign with rfl | rfl <;> exact body
  · intro body
    match chars with
    | [] => exact .inl body
    | c :: rest =>
      by_cases minus : c = '-'
      · subst minus
        exact .inr ⟨'-', rest, rfl, .inr rfl, body⟩
      · by_cases plus : c = '+'
        · subst plus
          exact .inr ⟨'+', rest, rfl, .inl rfl, body⟩
        · exact .inl (by simpa [splitSign, minus, plus] using body)

theorem splitDigits_fst_digits (chars : List Char) : AreDigits (splitDigits chars).1 :=
  fun _ member => List.mem_takeWhile_imp member

theorem splitDigits_append (chars : List Char) :
    (splitDigits chars).1 ++ (splitDigits chars).2 = chars :=
  List.takeWhile_append_dropWhile

theorem splitDigits_of_digits {digits rest : List Char} (are : AreDigits digits)
    (stop : ∀ c tail, rest = c :: tail → isDigit c = false) :
    splitDigits (digits ++ rest) = (digits, rest) := by
  have front : rest.takeWhile isDigit = [] ∧ rest.dropWhile isDigit = rest := by
    match rest with
    | [] => exact ⟨rfl, rfl⟩
    | c :: tail => simp [stop c tail rfl]
  rw [splitDigits, List.takeWhile_append_of_pos are, List.dropWhile_append_of_pos are, front.1,
    front.2, List.append_nil]

theorem readExponent?_isSome (chars : List Char) :
    (readExponent? chars).isSome ↔ Signed (fun digits => digits ≠ [] ∧ AreDigits digits) chars := by
  rw [signed_iff]
  · cases h : (splitSign chars).2 <;> simp [readExponent?, h, AreDigits]
  · rintro sign rest (rfl | rfl) ⟨-, are⟩
    · exact absurd (are '+' List.mem_cons_self) (by decide)
    · exact absurd (are '-' List.mem_cons_self) (by decide)

theorem isExponent_cons (mark : Char) (power : List Char) :
    IsExponent (mark :: power) ↔ (mark = 'e' ∨ mark = 'E') ∧ (readExponent? power).isSome := by
  rw [readExponent?_isSome]
  constructor
  · rintro (none | ⟨_, _, same, form⟩)
    · cases none
    · cases same
      exact form
  · exact fun form => .inr ⟨mark, power, rfl, form⟩

theorem IsExponent.stops {chars : List Char} (exponent : IsExponent chars) {c : Char}
    {tail : List Char} (begins : chars = c :: tail) : isDigit c = false ∧ c ≠ '.' := by
  rcases exponent with rfl | ⟨mark, power, rfl, mark, -⟩
  · cases begins
  · cases begins
    rcases mark with rfl | rfl <;> decide

def splitMantissa (chars : List Char) : (List Char × List Char) × List Char :=
  match (splitDigits chars).2 with
  | '.' :: afterPoint =>
    (((splitDigits chars).1, (splitDigits afterPoint).1), (splitDigits afterPoint).2)
  | rest => (((splitDigits chars).1, []), rest)

/-- The pieces that the reader cuts off are digits, and together they are the text. -/
theorem splitMantissa_spec (chars : List Char) :
    AreDigits (splitMantissa chars).1.1 ∧ AreDigits (splitMantissa chars).1.2 ∧
      (chars = ((splitMantissa chars).1.1 ++ '.' :: (splitMantissa chars).1.2) ++
          (splitMantissa chars).2 ∨
        (chars = (splitMantissa chars).1.1 ++ (splitMantissa chars).2 ∧
          (splitMantissa chars).1.2 = [])) := by
  have whole := splitDigits_fst_digits chars
  have text := splitDigits_append chars
  unfold splitMantissa
  split
  · next afterPoint point =>
    refine ⟨whole, splitDigits_fst_digits afterPoint, .inl ?_⟩
    rw [List.append_assoc, List.cons_append, splitDigits_append, ← point, text]
  · exact ⟨whole, by simp [AreDigits], .inr ⟨text.symm, rfl⟩⟩

theorem splitMantissa_of_point {whole fraction rest : List Char} (digits : AreDigits whole)
    (more : AreDigits fraction) (stop : ∀ c tail, rest = c :: tail → isDigit c = false) :
    splitMantissa ((whole ++ '.' :: fraction) ++ rest) = ((whole, fraction), rest) := by
  have front : splitDigits ((whole ++ '.' :: fraction) ++ rest) =
      (whole, '.' :: (fraction ++ rest)) := by
    rw [List.append_assoc, List.cons_append]
    refine splitDigits_of_digits digits fun c tail same => ?_
    cases same
    decide
  simp only [splitMantissa, front, splitDigits_of_digits more stop]

theorem splitMantissa_of_whole {whole rest : List Char} (digits : AreDigits whole)
    (stop : ∀ c tail, rest = c :: tail → isDigit c = false ∧ c ≠ '.') :
    splitMantissa (whole ++ rest) = ((whole, []), rest) := by
  have front : splitDigits (whole ++ rest) = (whole, rest) :=
    splitDigits_of_digits digits fun c tail same => (stop c tail same).1
  simp only [splitMantissa, front]
  split
  · next afterPoint => exact absurd rfl (stop '.' afterPoint rfl).2
  · rfl

def Numeral.ofPieces (negative : Bool) (whole fraction rest : List Char) : Option Numeral :=
  if whole.isEmpty && fraction.isEmpty then none
  else
    let digits := Text.digitsValue (whole ++ fraction)
    match rest with
    | [] => some ⟨negative, digits, -(fraction.length : Int)⟩
    | mark :: exponent =>
      if mark = 'e' || mark = 'E' then
        (readExponent? exponent).map fun e => ⟨negative, digits, e - fraction.length⟩
      else none

theorem read?_eq_ofPieces (chars : List Char) :
    Numeral.read? chars = Numeral.ofPieces (splitSign chars).1
      (splitMantissa (splitSign chars).2).1.1 (splitMantissa (splitSign chars).2).1.2
      (splitMantissa (splitSign chars).2).2 := by
  unfold Numeral.read? splitMantissa
  obtain ⟨negative, unsigned⟩ := splitSign chars
  simp only
  generalize splitDigits unsigned = cut
  obtain ⟨whole, rest⟩ := cut
  simp only
  split
  · rfl
  · simp only
    rfl

theorem ofPieces_isSome (negative : Bool) (whole fraction rest : List Char) :
    (Numeral.ofPieces negative whole fraction rest).isSome ↔
      ¬(whole = [] ∧ fraction = []) ∧ IsExponent rest := by
  by_cases none : whole = [] ∧ fraction = []
  · simp [Numeral.ofPieces, none.1, none.2]
  · have some : (whole.isEmpty && fraction.isEmpty) = false := by simpa using none
    match rest with
    | [] => simp [Numeral.ofPieces, some, none, IsExponent]
    | mark :: power =>
      by_cases e : mark = 'e' ∨ mark = 'E' <;>
        simp [Numeral.ofPieces, some, none, e, isExponent_cons]

/-- The reader takes exactly the decimal literals. -/
theorem read?_isSome (chars : List Char) : (Numeral.read? chars).isSome ↔ IsLiteral chars := by
  rw [read?_eq_ofPieces, ofPieces_isSome, IsLiteral, signed_iff]
  · generalize (splitSign chars).2 = unsigned
    constructor
    · rintro ⟨digits, exponent⟩
      obtain ⟨whole, fraction, text | ⟨text, empty⟩⟩ := splitMantissa_spec unsigned
      · exact ⟨_, _, text, ⟨_, _, whole, fraction, digits, .inl rfl⟩, exponent⟩
      · exact ⟨_, _, text, ⟨_, _, whole, fraction, digits, .inr ⟨rfl, empty⟩⟩, exponent⟩
    · rintro ⟨mantissa, exponent, rfl, ⟨whole, fraction, digits, more, some, form⟩, power⟩
      rcases form with rfl | ⟨rfl, rfl⟩
      · rw [splitMantissa_of_point digits more fun c tail same => (power.stops same).1]
        exact ⟨some, power⟩
      · rw [splitMantissa_of_whole digits fun c tail same => power.stops same]
        exact ⟨some, power⟩
  · rintro sign rest signs ⟨mantissa, exponent, text, ⟨whole, fraction, digits, -, some, form⟩, power⟩
    -- A mantissa begins with a digit or with the point.
    have plain : isDigit sign = false ∧ sign ≠ '.' ∧ sign ≠ 'e' ∧ sign ≠ 'E' := by
      rcases signs with rfl | rfl <;> decide
    match whole with
    | c :: tail =>
      have first : sign = c := by rcases form with rfl | ⟨rfl, -⟩ <;> exact (List.cons.inj text).1
      exact absurd (digits c List.mem_cons_self) (by simp [← first, plain.1])
    | [] =>
      rcases form with rfl | ⟨rfl, rfl⟩
      · exact plain.2.1 (List.cons.inj text).1
      · exact some ⟨rfl, rfl⟩

theorem readWord?_isSome (chars : List Char) : (readWord? chars).isSome ↔ IsWord chars := by
  rw [IsWord, signed_iff]
  · simp only [readWord?]
    split <;> simp_all
  · rintro sign rest signs word
    rcases signs with rfl | rfl <;> simp [Text.asciiLower, String.ext_iff] at word

theorem readFloat?_isSome (chars : List Char) :
    (readFloat? chars).isSome ↔ IsLiteral chars ∨ IsWord chars := by
  rw [← read?_isSome, ← readWord?_isSome, readFloat?]
  cases Numeral.read? chars <;> simp

/-- The text of a position: digits that write a number below `2 ^ 64`, with a plus sign in front or none. -/
def WritesIndex (chars : List Char) (n : Nat) : Prop :=
  ∃ digits, (chars = digits ∨ chars = '+' :: digits) ∧ digits ≠ [] ∧ AreDigits digits ∧ digitsValue digits = n ∧
    n < 2 ^ 64

theorem readIndex?_eq_some_iff {text : String} {n : Nat} : readIndex? text = some n ↔ WritesIndex text.toList n := by
  have read (digits : List Char) : (if digits.isEmpty || !digits.all isDigit then none
      else if digitsValue digits < Nat.pow 2 64 then some (digitsValue digits) else none) = some n ↔
      digits ≠ [] ∧ AreDigits digits ∧ digitsValue digits = n ∧ n < 2 ^ 64 := by
    by_cases written : digits ≠ [] ∧ AreDigits digits
    · rw [if_neg (by simpa [AreDigits] using written)]
      simp only [written, ne_eq, not_false_eq_true, true_and]
      constructor
      · intro bounded
        split at bounded <;> simp_all
      · rintro ⟨rfl, bound⟩
        exact if_pos bound
    · rw [if_pos (by simpa [AreDigits, imp_iff_not_or] using written)]
      exact iff_of_false nofun fun found => written ⟨found.1, found.2.1⟩
  unfold readIndex?
  split
  next rest signed =>
    refine (read rest).trans ⟨fun found => ⟨rest, .inr signed, found⟩, ?_⟩
    rintro ⟨digits, same | same, found⟩
    · have plus : '+' ∈ digits := by simp [← same, signed]
      exact absurd (found.2.1 '+' plus) (by decide)
    · cases signed.symm.trans same
      exact found
  next unsigned =>
    refine (read text.toList).trans ⟨fun found => ⟨text.toList, .inl rfl, found⟩, ?_⟩
    rintro ⟨digits, rfl | same, found⟩
    · exact found
    · exact absurd same (unsigned digits)

end RuleScript.Decimal
