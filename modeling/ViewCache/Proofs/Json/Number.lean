import ViewCache.Json.Number
import ViewCache.Proofs.Text.Integer

namespace ViewCache.Json

open Text (digit?_of_isDigit IsDigits)

/-- No number goes on here. -/
def Ends (rest : List Char) : Prop := ∀ c ∈ rest.head?, isDigit c = false ∧ c ≠ '.' ∧ c ≠ 'e' ∧ c ≠ 'E'

def Stops (rest : List Char) : Prop := ∀ c ∈ rest.head?, isDigit c = false

inductive IsWhole : List Char → Prop
  | zero : IsWhole ['0']
  | digits {ds : List Char} (digits : IsDigits ds) (leading : ds.head? ≠ some '0') : IsWhole ds

inductive Exponent.IsProper : Exponent → Prop
  | bare {letter : Char} {ds : List Char} (known : letter = 'e' ∨ letter = 'E') (digits : IsDigits ds) :
      IsProper ⟨[letter], false, ds⟩
  | plus {letter : Char} {ds : List Char} (known : letter = 'e' ∨ letter = 'E') (digits : IsDigits ds) :
      IsProper ⟨[letter, '+'], false, ds⟩
  | minus {letter : Char} {ds : List Char} (known : letter = 'e' ∨ letter = 'E') (digits : IsDigits ds) :
      IsProper ⟨[letter, '-'], true, ds⟩

structure Numeral.IsProper (n : Numeral) : Prop where
  whole : IsWhole n.whole
  fraction : n.fraction = [] ∨ IsDigits n.fraction
  exponent : ∀ e ∈ n.exponent, e.IsProper

variable {c : Char} {ds rest : List Char}

theorem isDigit_of_isDigit (digit : c.isDigit = true) : isDigit c = true := by
  rw [isDigit, digit?_of_isDigit digit, Option.isSome_some]

theorem ne_of_isDigit (digit : isDigit c = true) :
    isSpace c = false ∧ c ≠ '-' ∧ c ≠ '"' ∧ c ≠ '[' ∧ c ≠ '\x7b' ∧ c ≠ 'n' ∧ c ≠ 't' ∧ c ≠ 'f' := by
  refine ⟨?_, ?_, ?_, ?_, ?_, ?_, ?_, ?_⟩
  · cases space : isSpace c with
    | false => rfl
    | true =>
        simp only [isSpace, Bool.or_eq_true, decide_eq_true_eq] at space
        rcases space with ((rfl | rfl) | rfl) | rfl <;> revert digit <;> decide
  all_goals
    rintro rfl
    revert digit
    decide

theorem Ends.stops (ends : Ends rest) : Stops rest := fun c head => (ends c head).1

theorem exists_digit (digits : IsDigits ds) : ∃ c more, ds = c :: more ∧ isDigit c = true := by
  obtain ⟨c, more, whole⟩ := List.exists_cons_of_ne_nil digits.1
  exact ⟨c, more, whole, isDigit_of_isDigit (digits.2 c (by simp [whole]))⟩

theorem someDigits_append (digits : IsDigits ds) (stops : Stops rest) (atEnd : Fault) :
    someDigits atEnd (ds ++ rest) = .ok (ds, rest) := by
  have all : ∀ c ∈ ds, isDigit c = true := fun c member => isDigit_of_isDigit (digits.2 c member)
  have taken : rest.takeWhile isDigit = [] ∧ rest.dropWhile isDigit = rest := by
    cases rest with
    | nil => exact ⟨rfl, rfl⟩
    | cons c rest => simp [stops c rfl]
  rw [someDigits, List.takeWhile_append_of_pos all, List.dropWhile_append_of_pos all, taken.1, taken.2,
    List.append_nil]
  obtain ⟨c, more, rfl, -⟩ := exists_digit digits
  rfl

theorem IsWhole.digits_only (whole : IsWhole ds) : IsDigits ds := by
  cases whole with
  | zero => exact ⟨by simp, List.forall_mem_singleton.mpr rfl⟩
  | digits digits _ => exact digits

theorem readWhole_append (whole : IsWhole ds) (stops : Stops rest) (atEnd : Fault) :
    readWhole atEnd (ds ++ rest) = .ok (ds, rest) := by
  cases whole with
  | zero =>
      have last : rest.head?.any isDigit = false := by
        cases rest with
        | nil => rfl
        | cons c rest => exact stops c rfl
      simp [readWhole, last]
  | digits digits leading =>
      have read := someDigits_append digits stops .malformed
      obtain ⟨c, more, rfl, -⟩ := exists_digit digits
      have nonzero : c ≠ '0' := by simpa using leading
      rwa [List.cons_append, readWhole.eq_3 _ _ (by simp) (by simpa using nonzero)]

theorem readFraction_append (fraction : ds = [] ∨ IsDigits ds) (stops : Stops rest) (noPoint : rest.head? ≠ some '.')
    (atEnd : Fault) : readFraction atEnd ((if ds = [] then [] else '.' :: ds) ++ rest) = .ok (ds, rest) := by
  rcases fraction with rfl | digits
  · cases rest with
    | nil => rfl
    | cons c rest =>
        have noPoint : c ≠ '.' := by simpa using noPoint
        simp [readFraction, noPoint]
  · rw [if_neg digits.1]
    exact someDigits_append digits stops atEnd

theorem readExponent_append {e : Exponent} (proper : e.IsProper) (stops : Stops rest) (atEnd : Fault) :
    readExponent atEnd (e.literal ++ rest) = .ok (some e, rest) := by
  cases proper with
  | @bare letter ds known digits =>
      have read := someDigits_append digits stops atEnd
      obtain ⟨c, more, rfl, digit⟩ := exists_digit digits
      have unsigned : c ≠ '-' ∧ c ≠ '+' := by
        constructor <;>
          rintro rfl <;>
          revert digit <;>
          decide
      rw [List.cons_append] at read
      simp [Exponent.literal, readExponent, known, unsigned, read, Except.map]
  | plus known digits => simp [Exponent.literal, readExponent, known, someDigits_append digits stops, Except.map]
  | minus known digits => simp [Exponent.literal, readExponent, known, someDigits_append digits stops, Except.map]

theorem readExponent_none (ends : Ends rest) (atEnd : Fault) : readExponent atEnd rest = .ok (none, rest) := by
  cases rest with
  | nil => rfl
  | cons c rest =>
      have noMark := (ends c rfl).2.2
      simp [readExponent, noMark]

theorem head?_exponent {e : Exponent} (proper : e.IsProper) (rest : List Char) :
    (e.literal ++ rest).head? = some 'e' ∨ (e.literal ++ rest).head? = some 'E' := by
  cases proper with
  | bare known | plus known | minus known => simpa [Exponent.literal] using known

theorem literal_eq_cons {n : Numeral} (proper : n.IsProper) : ∃ c more, n.literal = c :: more ∧ isDigit c = true := by
  obtain ⟨whole, fraction, exponent⟩ := n
  obtain ⟨c, more, rfl, digit⟩ := exists_digit proper.whole.digits_only
  exact ⟨c, _, rfl, digit⟩

theorem readNumeral_append {n : Numeral} (proper : n.IsProper) (ends : Ends rest) (atEnd : Fault) :
    readNumeral atEnd (n.literal ++ rest) = .ok (n, rest) := by
  obtain ⟨whole, fraction, exponent⟩ := n
  obtain ⟨isWhole, isFraction, isExponent⟩ := proper
  simp only at isWhole isFraction isExponent
  have exponentRead : readExponent atEnd (exponent.elim [] Exponent.literal ++ rest) = .ok (exponent, rest) := by
    cases exponent with
    | none => exact readExponent_none ends atEnd
    | some e => exact readExponent_append (isExponent e rfl) ends.stops atEnd
  have behind : Stops (exponent.elim [] Exponent.literal ++ rest) ∧
      (exponent.elim [] Exponent.literal ++ rest).head? ≠ some '.' := by
    cases exponent with
    | none => exact ⟨ends.stops, fun point => (ends '.' point).2.1 rfl⟩
    | some e =>
        rcases head?_exponent (isExponent e rfl) rest with letter | letter <;>
          simp [Stops, Option.elim_some, letter] <;>
          decide
  have stops :
      Stops ((if fraction = [] then [] else '.' :: fraction) ++ (exponent.elim [] Exponent.literal ++ rest)) := by
    by_cases none : fraction = []
    · simpa [none] using behind.1
    · rw [if_neg none]
      rintro c ⟨⟩
      decide
  simp only [readNumeral, Numeral.literal, List.append_assoc, readWhole_append isWhole stops,
    readFraction_append isFraction behind.1 behind.2, exponentRead, bind, Except.bind, pure, Except.pure]

theorem skipNumber_append {n : Numeral} (proper : n.IsProper) (ends : Ends rest) :
    skipNumber (n.literal ++ rest) = .ok rest := by
  rw [skipNumber, readNumeral_append proper ends]
  rfl

end ViewCache.Json
