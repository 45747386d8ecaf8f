import ViewCache.Text.Integer

namespace ViewCache.Text

def IsDigits (ds : List Char) : Prop := ds ≠ [] ∧ ∀ c ∈ ds, c.isDigit = true

def number (ds : List Char) : Nat := Nat.ofDigitChars 10 ds 0

variable {c : Char} {ds text : List Char} {n : Int}

theorem toNat_of_isDigit (digit : c.isDigit = true) : 48 ≤ c.toNat ∧ c.toNat ≤ 57 := by
  simp only [Char.isDigit, Bool.and_eq_true, decide_eq_true_eq] at digit
  exact digit

theorem digit?_of_isDigit (digit : c.isDigit = true) : digit? c = some (c.toNat - '0'.toNat) :=
  if_pos (toNat_of_isDigit digit)

end ViewCache.Text
