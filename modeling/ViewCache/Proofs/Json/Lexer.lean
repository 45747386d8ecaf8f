import ViewCache.Json.Lexer

namespace ViewCache.Json

/-! ### Blanks -/

def Blank (gap : List Char) : Prop := ∀ c ∈ gap, isSpace c = true

theorem blank_nil : Blank [] := by simp [Blank]

variable {gap text rest : List Char} {c : Char}

theorem skipSpace_append (blank : Blank gap) (text : List Char) : skipSpace (gap ++ text) = skipSpace text :=
  List.dropWhile_append_of_pos blank

theorem skipSpace_cons (mark : isSpace c = false) (text : List Char) : skipSpace (c :: text) = c :: text :=
  List.dropWhile_cons_of_neg (by simp [mark])

theorem skipSpace_blank (blank : Blank gap) : skipSpace gap = [] := by
  simpa [skipSpace] using skipSpace_append blank []

theorem readColon_append (blank : Blank gap) (rest : List Char) : readColon (gap ++ ':' :: rest) = .ok rest := by
  rw [readColon, skipSpace_append blank, skipSpace_cons (by decide)]
  rfl

/-! ### Strings -/

def IsPlain (c : Char) : Prop := c ≠ '"' ∧ c ≠ '\\' ∧ 0x20 ≤ c.toNat

inductive UnitText : List Char → Nat → Prop
  | digits {a b c d : Char} {first second third fourth : Nat} (one : hexValue? a = some first)
      (two : hexValue? b = some second) (three : hexValue? c = some third) (four : hexValue? d = some fourth) :
      UnitText [a, b, c, d] (((first * 16 + second) * 16 + third) * 16 + fourth)

inductive QuotedText : List Char → Prop
  | nil : QuotedText []
  | plain {c : Char} {text : List Char} (plain : IsPlain c) (more : QuotedText text) : QuotedText (c :: text)
  | short {mark c : Char} {text : List Char} (stands : shortEscape? mark = some c) (more : QuotedText text) :
      QuotedText ('\\' :: mark :: text)
  | unit {ds text : List Char} {unit : Nat} (digits : UnitText ds unit) (more : QuotedText text) :
      QuotedText ('\\' :: 'u' :: (ds ++ text))

/-- The text between two quotes stands for these characters. Surrogates come in pairs. -/
inductive Spells : List Char → List Char → Prop
  | nil : Spells [] []
  | plain {c : Char} {text cs : List Char} (plain : IsPlain c) (more : Spells text cs) : Spells (c :: text) (c :: cs)
  | short {mark c : Char} {text cs : List Char} (stands : shortEscape? mark = some c) (more : Spells text cs) :
      Spells ('\\' :: mark :: text) (c :: cs)
  | unit {ds text cs : List Char} {unit : Nat} (digits : UnitText ds unit)
      (alone : isLeadingSurrogate unit = false ∧ isTrailingSurrogate unit = false) (more : Spells text cs) :
      Spells ('\\' :: 'u' :: (ds ++ text)) (Char.ofNat unit :: cs)
  | pair {high low text cs : List Char} {leading trailing : Nat} (first : UnitText high leading)
      (second : UnitText low trailing) (leads : isLeadingSurrogate leading = true)
      (trails : isTrailingSurrogate trailing = true) (more : Spells text cs) :
      Spells ('\\' :: 'u' :: (high ++ '\\' :: 'u' :: (low ++ text))) (surrogatePair leading trailing :: cs)

theorem utf8Size_of_hexValue {value : Nat} (digit : hexValue? c = some value) : c.utf8Size = 1 := by
  have ascii : c.toNat ≤ 0x7f := by
    simp only [hexValue?, Char.le_def, UInt32.le_iff_toNat_le] at digit
    split at digit
    case isTrue low => exact Nat.le_trans low.2 (by decide)
    split at digit
    case isTrue low => exact Nat.le_trans low.2 (by decide)
    split at digit
    case isTrue low => exact Nat.le_trans low.2 (by decide)
    cases digit
  exact if_pos ascii

theorem readChars_unit {ds : List Char} {unit : Nat} (digits : UnitText ds unit) (strict : Bool)
    (leading : Option Nat) (text : List Char) :
    readChars strict (.digits leading (some 0) 0) (ds ++ text) =
      match scanUnit strict leading unit with
      | .close => .ok ([], text)
      | .refuse => .error .malformed
      | .more escape => readChars strict escape text
      | .emit c => (readChars strict .none text).map fun (cs, rest) => (c :: cs, rest) := by
  cases digits with
  | @digits a b c d first second third fourth one two three four =>
      cases scanned : scanUnit strict leading (((first * 16 + second) * 16 + third) * 16 + fourth)
      all_goals
        simp [readChars, scan, one, two, three, four, utf8Size_of_hexValue one, utf8Size_of_hexValue two,
          utf8Size_of_hexValue three, utf8Size_of_hexValue four, scanned]

theorem readChars_plain (plain : IsPlain c) (strict : Bool) (text : List Char) :
    readChars strict .none (c :: text) = (readChars strict .none text).map fun (cs, rest) => (c :: cs, rest) := by
  have shown : ¬ c.toNat < 0x20 := Nat.not_lt.mpr plain.2.2
  simp [readChars, scan, plain.1, plain.2.1, shown]

theorem readChars_short {mark : Char} (stands : shortEscape? mark = some c) (strict : Bool) (text : List Char) :
    readChars strict .none ('\\' :: mark :: text) =
      (readChars strict .none text).map fun (cs, rest) => (c :: cs, rest) := by
  have short : mark ≠ 'u' := by
    rintro rfl
    simp [shortEscape?] at stands
  simp [readChars, scan, short, stands]

theorem readChars_long (strict : Bool) (text : List Char) :
    readChars strict .none ('\\' :: 'u' :: text) = readChars strict (.digits none (some 0) 0) text := by
  simp [readChars, scan]

theorem readChars_paired (strict : Bool) (leading : Nat) (text : List Char) :
    readChars strict (.paired leading) ('\\' :: 'u' :: text) =
      readChars strict (.digits (some leading) (some 0) 0) text := by
  simp [readChars, scan]

theorem readChars_of_spells {cs : List Char} (spells : Spells text cs) (rest : List Char) :
    readChars true .none (text ++ '"' :: rest) = .ok (cs, rest) := by
  induction spells with
  | nil => simp [readChars, scan]
  | plain plain more ih =>
      rw [List.cons_append, readChars_plain plain, ih]
      rfl
  | short stands more ih =>
      rw [List.cons_append, List.cons_append, readChars_short stands, ih]
      rfl
  | unit digits alone more ih =>
      rw [List.cons_append, List.cons_append, readChars_long, List.append_assoc, readChars_unit digits, ih]
      simp [scanUnit, alone, Except.map]
  | pair first second leads trails more ih =>
      rw [List.cons_append, List.cons_append, readChars_long, List.append_assoc, readChars_unit first]
      simp only [scanUnit, leads, if_true]
      rw [List.cons_append, List.cons_append, readChars_paired, List.append_assoc, readChars_unit second, ih]
      simp [scanUnit, trails, Except.map]

theorem readQuoted_of_spells {name : String} (spells : Spells text name.toList) (rest : List Char) :
    readQuoted (text ++ '"' :: rest) = .ok (name, rest) := by
  rw [readQuoted, readChars_of_spells spells]
  simp [Except.map]

/-- A string that nobody asks for may hold any escapes. -/
theorem skipQuoted_append (quoted : QuotedText text) (rest : List Char) :
    skipQuoted (text ++ '"' :: rest) = .ok rest := by
  have read : ∃ cs, readChars false .none (text ++ '"' :: rest) = .ok (cs, rest) := by
    induction quoted with
    | nil => exact ⟨[], by simp [readChars, scan]⟩
    | @plain c _ plain more ih =>
        obtain ⟨cs, read⟩ := ih
        refine ⟨c :: cs, ?_⟩
        rw [List.cons_append, readChars_plain plain, read]
        rfl
    | @short mark c _ stands more ih =>
        obtain ⟨cs, read⟩ := ih
        refine ⟨c :: cs, ?_⟩
        rw [List.cons_append, List.cons_append, readChars_short stands, read]
        rfl
    | @unit _ _ unit digits more ih =>
        obtain ⟨cs, read⟩ := ih
        refine ⟨Char.ofNat unit :: cs, ?_⟩
        rw [List.cons_append, List.cons_append, readChars_long, List.append_assoc, readChars_unit digits, read]
        rfl
  obtain ⟨cs, read⟩ := read
  rw [skipQuoted, read]
  rfl

end ViewCache.Json
