import Mathlib.Data.List.Induction
import Mathlib.Tactic.SplitIfs
import ViewCache.Json.Printer
import ViewCache.Json.Record
import ViewCache.Proofs.Json.Lexer
import ViewCache.Proofs.Json.Number

namespace ViewCache.Json

open Text (digit? digit?_of_isDigit toNat_of_isDigit IsDigits number)

variable {gap text rest : List Char} {c : Char}

/-! ### Strings -/

theorem hexDigit_read : ∀ n < 16, hexValue? (hexDigit n) = some n := by decide

theorem unitText_control {unit : Nat} (small : unit < 0x20) :
    UnitText ['0', '0', hexDigit (unit / 16), hexDigit (unit % 16)] unit := by
  have zero : hexValue? '0' = some 0 := by decide
  have text := UnitText.digits zero zero (hexDigit_read (unit / 16) (by omega)) (hexDigit_read (unit % 16) (by omega))
  have whole : ((0 * 16 + 0) * 16 + unit / 16) * 16 + unit % 16 = unit := by omega
  rwa [whole] at text

theorem spells_escape (c : Char) {cs : List Char} (more : Spells text cs) : Spells (escape c ++ text) (c :: cs) := by
  by_cases short : c ∈ ['"', '\\', '\x08', '\t', '\n', '\x0c', '\r']
  · simp only [List.mem_cons, List.not_mem_nil, or_false] at short
    rcases short with rfl | rfl | rfl | rfl | rfl | rfl | rfl <;> exact .short rfl more
  · simp only [List.mem_cons, List.not_mem_nil, or_false, not_or] at short
    by_cases control : c.toNat < 0x20
    · have alone : isLeadingSurrogate c.toNat = false ∧ isTrailingSurrogate c.toNat = false := by
        simp [isLeadingSurrogate, isTrailingSurrogate]
        omega
      have long := Spells.unit (unitText_control control) alone more
      rw [Char.ofNat_toNat] at long
      simpa [escape, short, control] using long
    · have plain : IsPlain c := ⟨short.1, short.2.1, Nat.not_lt.mp control⟩
      simpa [escape, short, control] using Spells.plain plain more

theorem spells_escaped (cs : List Char) : Spells (cs.flatMap escape) cs := by
  induction cs with
  | nil => exact .nil
  | cons c cs ih => exact spells_escape c ih

theorem quote_append (s : String) (rest : List Char) :
    quote s ++ rest = '"' :: (s.toList.flatMap escape ++ '"' :: rest) := by
  simp [quote]

theorem readQuoted_escaped (s : String) (rest : List Char) :
    readQuoted (s.toList.flatMap escape ++ '"' :: rest) = .ok (s, rest) :=
  readQuoted_of_spells (spells_escaped s.toList) rest

/-! ### Numbers -/

def digits (n : Nat) : List Char := Nat.toDigits 10 n

theorem isDigits_digits (n : Nat) : IsDigits (digits n) :=
  ⟨Nat.toDigits_ne_nil, fun _ => Nat.isDigit_of_mem_toDigits (by decide) (by decide)⟩

theorem digits_eq_cons (n : Nat) : ∃ c more, digits n = c :: more ∧ isDigit c = true :=
  exists_digit (isDigits_digits n)

theorem head?_digits {n : Nat} (nonzero : n ≠ 0) : (digits n).head? ≠ some '0' := by
  induction n using Nat.strongRecOn with
  | ind n ih =>
      by_cases small : n < 10
      · rw [digits, Nat.toDigits_of_lt_base small]
        simpa using nonzero
      · have whole : digits n = digits (n / 10) ++ [(n % 10).digitChar] :=
          Nat.toDigits_of_base_le (by decide) (by omega)
        obtain ⟨first, more, leading, -⟩ := digits_eq_cons (n / 10)
        have lesser := ih (n / 10) (by omega) (by omega)
        rw [leading] at lesser
        rwa [whole, leading]

theorem foldl_digits {ds : List Char} (all : ∀ c ∈ ds, c.isDigit = true) (acc : Nat) :
    ds.foldl (fun n c => n * 10 + (digit? c).getD 0) acc = Nat.ofDigitChars 10 ds acc := by
  induction ds generalizing acc with
  | nil => rfl
  | cons d ds ih =>
      obtain ⟨digit, all⟩ := List.forall_mem_cons.mp all
      rw [List.foldl_cons, Nat.ofDigitChars_cons, digit?_of_isDigit digit, ih all, Nat.mul_comm acc 10]
      rfl

theorem valueOf_eq_number {ds : List Char} (digits : IsDigits ds) : valueOf ds = number ds := foldl_digits digits.2 0

theorem valueOf_digits (n : Nat) : valueOf (digits n) = n := by
  rw [valueOf_eq_number (isDigits_digits n)]
  exact Nat.ofDigitChars_ten_toDigits

theorem isWhole_digits (n : Nat) : IsWhole (digits n) := by
  by_cases zero : n = 0
  · subst zero
    exact .zero
  · exact .digits (isDigits_digits n) (head?_digits zero)

theorem readNumeral_digits (atEnd : Fault) (n : Nat) (ends : Ends rest) :
    readNumeral atEnd (digits n ++ rest) = .ok (⟨digits n, [], none⟩, rest) := by
  have proper : Numeral.IsProper ⟨digits n, [], none⟩ := ⟨isWhole_digits n, .inl rfl, by simp⟩
  simpa [Numeral.literal] using readNumeral_append proper ends atEnd

theorem readNumber_digits {n : Nat} (fits : n < 18446744073709551616) (ends : Ends rest) :
    readNumber false (digits n ++ rest) = .ok (.int n, rest) := by
  rw [readNumber, readNumeral_digits _ n ends]
  simp [bind, Except.bind, pure, Except.pure, Numeral.toJson?, valueOf_digits, fits]

theorem readNumber_negative {n : Nat} (nonzero : n ≠ 0) (fits : n ≤ 9223372036854775808) (ends : Ends rest) :
    readNumber true (digits n ++ rest) = .ok (.int (-n), rest) := by
  rw [readNumber, readNumeral_digits _ n ends]
  simp [bind, Except.bind, pure, Except.pure, Numeral.toJson?, valueOf_digits, nonzero, fits]

theorem printInt_eq (n : Int) : printInt n = if 0 ≤ n then digits n.toNat else '-' :: digits (-n).toNat := by
  rw [printInt, Int.toString_eq_repr, Int.repr_eq_if]
  split
  · simp [Nat.repr_eq_ofList_toDigits, digits]
  · simp [Nat.repr_eq_ofList_toDigits, digits]

theorem digitChar_of_isDigit (digit : c.isDigit = true) : (c.toNat - 48).digitChar = c := by
  obtain ⟨least, most⟩ := toNat_of_isDigit digit
  have shown : ∀ n < 10, n.digitChar = Char.ofNat (48 + n) := by decide
  rw [shown _ (by omega), Nat.add_sub_cancel' least, Char.ofNat_toNat]

theorem digits_number {ds : List Char} (whole : IsWhole ds) : digits (number ds) = ds := by
  cases whole with
  | zero => rfl
  | digits isDigits leading =>
      -- on the last digit: what stands before it is a number without needless zeros again, or nothing
      induction ds using List.reverseRecOn with
      | nil => exact absurd rfl isDigits.1
      | append_singleton front c ih =>
          obtain ⟨frontDigits, digit⟩ : (∀ d ∈ front, d.isDigit = true) ∧ c.isDigit = true := by
            simpa [or_imp, forall_and] using isDigits.2
          have value : number (front ++ [c]) = 10 * number front + (c.toNat - 48) := by
            simp [number, Nat.ofDigitChars_append, Nat.ofDigitChars_cons]
          have small : c.toNat - 48 < 10 := by
            have bounds := toNat_of_isDigit digit
            omega
          by_cases none : front = []
          · subst none
            have only : 10 * number [] + (c.toNat - 48) = c.toNat - 48 := Nat.zero_add _
            rw [value, only, digits, Nat.toDigits_of_lt_base small, digitChar_of_isDigit digit, List.nil_append]
          · have frontLeading : front.head? ≠ some '0' := by
              obtain ⟨first, more, rfl⟩ := List.exists_cons_of_ne_nil none
              simpa using leading
            have same := ih ⟨none, frontDigits⟩ frontLeading
            have positive : number front ≠ 0 := by
              intro zero
              rw [zero] at same
              exact frontLeading (same ▸ rfl)
            have quotient : (10 * number front + (c.toNat - 48)) / 10 = number front := by omega
            have rest : (10 * number front + (c.toNat - 48)) % 10 = c.toNat - 48 := by omega
            rw [value, digits, Nat.toDigits_of_base_le (by decide) (by omega), quotient, rest,
              digitChar_of_isDigit digit]
            exact congrArg (· ++ [c]) same

/-! ### Scalars -/

/-- A value that is neither an array nor an object, with a number that fits into 64 bits, signed or not. -/
inductive Scalar : Json → Prop
  | null : Scalar .null
  | bool (b : Bool) : Scalar (.bool b)
  | int {n : Int} (least : -9223372036854775808 ≤ n) (most : n < 18446744073709551616) : Scalar (.int n)
  | str (s : String) : Scalar (.str s)

theorem scalar_ofOption (s : Option String) : Scalar (.ofOption s) := by
  cases s with
  | none => exact .null
  | some s => exact .str s

theorem scalar_int {n : Int} (fits : Text.inSigned64 n = true) : Scalar (.int n) := by
  have bounds : -9223372036854775808 ≤ n ∧ n < 9223372036854775808 := by simpa [Text.inSigned64] using fits
  exact .int bounds.1 (by omega)

theorem print_head {v : Json} (scalar : Scalar v) :
    ∃ c more, print v = c :: more ∧ isSpace c = false ∧ c ≠ '[' ∧ c ≠ '\x7b' := by
  cases scalar with
  | null => exact ⟨'n', _, rfl, by decide⟩
  | bool b => cases b <;> exact ⟨_, _, rfl, by decide⟩
  | @int n =>
      rw [print, printInt_eq]
      split
      · obtain ⟨c, more, leading, digit⟩ := digits_eq_cons n.toNat
        have other := ne_of_isDigit digit
        exact ⟨c, more, leading, other.1, other.2.2.2.1, other.2.2.2.2.1⟩
      · exact ⟨'-', _, rfl, by decide⟩
  | str s => exact ⟨'"', _, rfl, by decide⟩

theorem skipSpace_print {v : Json} (scalar : Scalar v) (blank : Blank gap) (rest : List Char) :
    skipSpace (gap ++ (print v ++ rest)) = print v ++ rest := by
  obtain ⟨c, more, begins, mark, -⟩ := print_head scalar
  rw [skipSpace_append blank, begins, List.cons_append, skipSpace_cons mark]

theorem readScalar_print {v : Json} (scalar : Scalar v) (ends : Ends rest) :
    readScalar (print v ++ rest) = .ok (v, rest) := by
  cases scalar with
  | null => simp [print, readScalar, expect, Except.map]
  | bool b => cases b <;> simp [print, readScalar, expect, Except.map]
  | @int n least most =>
      rw [print, printInt_eq]
      split
      case isTrue nonneg =>
        have whole : readNumber false (digits n.toNat ++ rest) = .ok (.int n, rest) := by
          rw [readNumber_digits (by omega) ends, Int.toNat_of_nonneg nonneg]
        obtain ⟨c, more, leading, digit⟩ := digits_eq_cons n.toNat
        rw [leading] at whole ⊢
        simpa [readScalar, ne_of_isDigit digit, digit] using whole
      case isFalse negative =>
        have whole : readNumber true (digits (-n).toNat ++ rest) = .ok (.int n, rest) := by
          rw [readNumber_negative (by omega) (by omega) ends, Int.toNat_of_nonneg (by omega), Int.neg_neg]
        simpa [readScalar] using whole
  | str s =>
      rw [print, quote_append]
      simp [readScalar, readQuoted_escaped, Except.map]

theorem readValue_print {v : Json} (scalar : Scalar v) (fuel depth : Nat) (blank : Blank gap) (ends : Ends rest) :
    readValue (fuel + 1) depth (gap ++ (print v ++ rest)) = .ok (v, rest) := by
  have read := readScalar_print scalar ends
  obtain ⟨c, more, begins, mark, noArray, noObject⟩ := print_head scalar
  rw [readValue, skipSpace_print scalar blank]
  rw [begins, List.cons_append] at read ⊢
  simpa [noArray, noObject] using read

theorem readBool_print (b : Bool) (blank : Blank gap) (rest : List Char) :
    readBool (gap ++ (print (.bool b) ++ rest)) = .ok (b, rest) := by
  rw [readBool, skipSpace_print (.bool b) blank]
  cases b <;> simp [print, expect, Except.map]

theorem readString_print (s : String) (blank : Blank gap) (rest : List Char) :
    readString (gap ++ (print (.str s) ++ rest)) = .ok (s, rest) := by
  rw [readString, skipSpace_print (.str s) blank, print, quote_append]
  exact readQuoted_escaped s rest

theorem readOptional_print (s : Option String) (blank : Blank gap) (rest : List Char) :
    readOptional readString (gap ++ (print (.ofOption s) ++ rest)) = .ok (s, rest) := by
  cases s with
  | none =>
      rw [readOptional, ofOption, Option.elim_none, skipSpace_print .null blank]
      simp [print, expect, Except.map]
  | some s =>
      have read := readString_print s blank_nil rest
      rw [readOptional, ofOption, Option.elim_some, skipSpace_print (.str s) blank]
      rw [print, quote_append] at read ⊢
      rw [List.nil_append] at read
      simp [read, Except.map]

theorem readInteger_print {n : Int} (fits : Text.inSigned64 n = true) (blank : Blank gap) (ends : Ends rest) :
    readInteger (gap ++ (print (.int n) ++ rest)) = .ok (n, rest) := by
  have read := readScalar_print (scalar_int fits) ends
  rw [readInteger, skipSpace_print (scalar_int fits) blank]
  rw [print, printInt_eq] at read ⊢
  split_ifs at read ⊢ with nonneg
  · obtain ⟨c, more, leading, digit⟩ := digits_eq_cons n.toNat
    rw [leading] at read ⊢
    simp [readScalar, ne_of_isDigit digit, digit] at read ⊢
    simp [read, asInteger, fits, bind, Except.bind, Functor.map, Except.map]
  · simp [readScalar] at read ⊢
    simp [read, asInteger, fits, bind, Except.bind, Functor.map, Except.map]

end ViewCache.Json
