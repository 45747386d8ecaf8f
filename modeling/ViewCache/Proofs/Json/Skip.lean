import ViewCache.Json.Skip
import ViewCache.Proofs.Json.Members

namespace ViewCache.Json

def Bracket.opening : Bracket → Char
  | array => '['
  | object => '\x7b'

inductive Lead : Bracket → List Char → Prop
  | item : Lead .array []
  | name {gap quoted between : List Char} (blank : Blank gap) (string : QuotedText quoted) (blankToo : Blank between) :
      Lead .object (gap ++ '"' :: (quoted ++ '"' :: (between ++ [':'])))

inductive Part
  | value
  | items (bracket : Bracket)

/-- The grammar of JSON. -/
inductive PartText : Part → List Char → Prop
  | null : PartText .value ['n', 'u', 'l', 'l']
  | true : PartText .value ['t', 'r', 'u', 'e']
  | false : PartText .value ['f', 'a', 'l', 's', 'e']
  | number {sign : List Char} {n : Numeral} (signed : sign = [] ∨ sign = ['-']) (proper : n.IsProper) :
      PartText .value (sign ++ n.literal)
  | string {text : List Char} (string : QuotedText text) : PartText .value ('"' :: (text ++ ['"']))
  | empty (bracket : Bracket) {gap : List Char} (blank : Blank gap) :
      PartText .value (bracket.opening :: (gap ++ [bracket.close]))
  | filled {bracket : Bracket} {text gap : List Char} (items : PartText (.items bracket) text) (blank : Blank gap) :
      PartText .value (bracket.opening :: (text ++ (gap ++ [bracket.close])))
  | last {bracket : Bracket} {lead gap text : List Char} (leads : Lead bracket lead) (blank : Blank gap)
      (value : PartText .value text) : PartText (.items bracket) (lead ++ (gap ++ text))
  | next {bracket : Bracket} {lead gap text back more : List Char} (leads : Lead bracket lead) (blank : Blank gap)
      (value : PartText .value text) (blankToo : Blank back) (items : PartText (.items bracket) more) :
      PartText (.items bracket) (lead ++ (gap ++ (text ++ (back ++ ',' :: more))))

variable {bracket : Bracket} {stack : List Bracket} {lead gap text rest : List Char} {fuel : Nat}

theorem value_eq_cons (value : PartText .value text) :
    ∃ c more, text = c :: more ∧ isSpace c = false ∧ c ≠ ']' := by
  cases value with
  | null => exact ⟨_, _, rfl, by decide⟩
  | true => exact ⟨_, _, rfl, by decide⟩
  | false => exact ⟨_, _, rfl, by decide⟩
  | string => exact ⟨_, _, rfl, by decide⟩
  | empty bracket | @filled bracket => cases bracket <;> exact ⟨_, _, rfl, by decide⟩
  | number signed proper =>
      rcases signed with rfl | rfl
      · obtain ⟨c, more, begins, digit⟩ := literal_eq_cons proper
        refine ⟨c, more, begins, (ne_of_isDigit digit).1, ?_⟩
        rintro rfl
        revert digit
        decide
      · exact ⟨_, _, rfl, by decide⟩

theorem skipFrom_blank (blank : Blank gap) (fuel : Nat) (stack : List Bracket) (text : List Char) :
    skipFrom fuel .value stack (gap ++ text) = skipFrom fuel .value stack text := by
  cases fuel with
  | zero => rfl
  | succ fuel => rw [skipFrom.eq_4, skipFrom.eq_4, skipSpace_append blank]

theorem skipFrom_open (bracket : Bracket) (stack : List Bracket) (text : List Char) :
    skipFrom (fuel + 1) .value stack (bracket.opening :: text) = skipFrom fuel .first (bracket :: stack) text := by
  cases bracket <;> simp [skipFrom, Bracket.opening, skipSpace, isSpace]

inductive Opens : Expecting → List Char → Prop
  | first : Opens .first []
  | comma {gap : List Char} (blank : Blank gap) : Opens .more (gap ++ [','])

theorem skipName_lead {quoted between : List Char} (blank : Blank gap) (string : QuotedText quoted)
    (blankToo : Blank between) (rest : List Char) :
    skipName (gap ++ '"' :: (quoted ++ '"' :: (between ++ ':' :: rest))) = .ok rest := by
  rw [skipName, skipSpace_append blank, skipSpace_cons (by decide)]
  simp [skipQuoted_append string, readColon_append blankToo, bind, Except.bind]

theorem skipFrom_item {expecting : Expecting} {front : List Char} (opens : Opens expecting front)
    (leads : Lead bracket lead) (blank : Blank gap) (value : PartText .value text) (fuel : Nat) (stack : List Bracket)
    (rest : List Char) :
    skipFrom (fuel + 1) expecting (bracket :: stack) (front ++ (lead ++ (gap ++ (text ++ rest)))) =
      skipFrom fuel .value (bracket :: stack) (text ++ rest) := by
  rw [← skipFrom_blank blank fuel]
  cases leads with
  | item =>
      cases opens with
      | first =>
          obtain ⟨c, more, rfl, mark, noClose⟩ := value_eq_cons value
          rw [skipFrom_blank blank fuel]
          simp [skipFrom, skipSpace_append blank, skipSpace_cons mark, Bracket.close, noClose]
      | comma blankToo =>
          simp [skipFrom, skipSpace_append blankToo, skipSpace_cons, isSpace]
  | name blankName string blankToo =>
      cases opens with
      | first =>
          have named := skipName_lead blank_nil string blankToo (gap ++ (text ++ rest))
          rw [List.nil_append] at named
          simp [skipFrom, skipSpace_append blankName, skipSpace_cons, isSpace, Bracket.close, named, bind, Except.bind]
      | comma blankMore =>
          have named := skipName_lead blankName string blankToo (gap ++ (text ++ rest))
          simp [skipFrom, skipSpace_append blankMore, skipSpace_cons, isSpace, named, bind, Except.bind]

theorem skipFrom_close {expecting : Expecting} (inside : expecting = .first ∨ expecting = .more) (blank : Blank gap)
    (bracket : Bracket) (stack : List Bracket) (rest : List Char) :
    skipFrom (fuel + 1) expecting (bracket :: stack) (gap ++ bracket.close :: rest) =
      skipFrom fuel .more stack rest := by
  rcases inside with rfl | rfl
  all_goals
    cases bracket <;> simp [skipFrom, skipSpace_append blank, skipSpace_cons, isSpace, Bracket.close]

def Passes : Part → List Char → Nat → Prop
  | .value, text, steps => steps + 1 ≤ 2 * text.length ∧ ∀ fuel stack rest, Ends rest →
      skipFrom (fuel + steps) .value stack (text ++ rest) = skipFrom fuel .more stack rest
  | .items bracket, text, steps => steps ≤ 2 * text.length ∧ ∀ fuel stack expecting front rest, Opens expecting front →
      Ends rest → skipFrom (fuel + steps) expecting (bracket :: stack) (front ++ (text ++ rest)) =
        skipFrom fuel .more (bracket :: stack) rest

theorem passes_scalar {c : Char} {more : List Char} (mark : isSpace c = false) (noBracket : c ≠ '[' ∧ c ≠ '\x7b')
    (skips : ∀ rest, Ends rest → skipScalar (c :: (more ++ rest)) = .ok rest) : Passes .value (c :: more) 1 := by
  refine ⟨by simp only [List.length_cons]; omega, fun fuel stack rest ends => ?_⟩
  rw [List.cons_append, skipFrom.eq_4, skipSpace_cons mark]
  simp [noBracket, skips rest ends, bind, Except.bind]

theorem ends_close (blank : Blank gap) (bracket : Bracket) (rest : List Char) : Ends (gap ++ bracket.close :: rest) :=
  ends_of_mark (by cases bracket <;> decide) blank rest

/-- On the grammar: each step of a value or of its items takes at least half a character. -/
theorem exists_passes {part : Part} (written : PartText part text) : ∃ steps, Passes part text steps := by
  -- on the grammar: the steps of the parts of a value add up, with one for each bracket, comma and scalar
  induction written with
  | null => exact ⟨1, passes_scalar (by decide) (by decide) fun rest _ => by simp [skipScalar, expect]⟩
  | true => exact ⟨1, passes_scalar (by decide) (by decide) fun rest _ => by simp [skipScalar, expect]⟩
  | false => exact ⟨1, passes_scalar (by decide) (by decide) fun rest _ => by simp [skipScalar, expect]⟩
  | @number sign n signed proper =>
      refine ⟨1, ?_⟩
      obtain ⟨c, more, begins, digit⟩ := literal_eq_cons proper
      rcases signed with rfl | rfl
      · rw [List.nil_append, begins]
        refine passes_scalar (ne_of_isDigit digit).1 (by simp [ne_of_isDigit digit]) fun rest ends => ?_
        have skips := skipNumber_append proper ends
        rw [begins, List.cons_append] at skips
        simpa [skipScalar, ne_of_isDigit digit, digit] using skips
      · refine passes_scalar (by decide) (by decide) fun rest ends => ?_
        simpa [skipScalar] using skipNumber_append proper ends
  | string string =>
      refine ⟨1, passes_scalar (by decide) (by decide) fun rest _ => ?_⟩
      simp [skipScalar, skipQuoted_append string]
  | @empty gap bracket blank =>
      refine ⟨2, by simp only [List.length_cons, List.length_append, List.length_nil]; omega, ?_⟩
      intro fuel stack rest ends
      simp [skipFrom_open, skipFrom_close (.inl rfl) blank]
  | @filled bracket text gap items blank ih =>
      obtain ⟨steps, few, passes⟩ := ih
      refine ⟨steps + 2, by simp only [List.length_cons, List.length_append]; omega, fun fuel stack rest ends => ?_⟩
      have inside := passes (fuel + 1) stack .first [] _ .first (ends_close blank bracket rest)
      have sum : fuel + (steps + 2) = fuel + 1 + steps + 1 := by omega
      calc skipFrom (fuel + (steps + 2)) .value stack (bracket.opening :: (text ++ (gap ++ [bracket.close])) ++ rest)
        _ = skipFrom (fuel + 1 + steps) .first (bracket :: stack) (text ++ (gap ++ bracket.close :: rest)) := by
          simp [sum, skipFrom_open]
        _ = skipFrom (fuel + 1) .more (bracket :: stack) (gap ++ bracket.close :: rest) := inside
        _ = skipFrom fuel .more stack rest := skipFrom_close (.inr rfl) blank bracket stack rest
  | @last bracket lead gap text leads blank value ih =>
      obtain ⟨steps, few, passes⟩ := ih
      refine ⟨steps + 1, by simp only [List.length_append]; omega, fun fuel stack expecting front rest opens ends => ?_⟩
      calc skipFrom (fuel + steps + 1) expecting (bracket :: stack) (front ++ (lead ++ (gap ++ text) ++ rest))
        _ = skipFrom (fuel + steps) .value (bracket :: stack) (text ++ rest) := by
          rw [← skipFrom_item opens leads blank value, List.append_assoc, List.append_assoc]
        _ = skipFrom fuel .more (bracket :: stack) rest := passes fuel (bracket :: stack) rest ends
  | @next bracket lead gap text back more leads blank value blankToo items ih ihMore =>
      obtain ⟨steps, few, passes⟩ := ih
      obtain ⟨later, fewToo, passesMore⟩ := ihMore
      refine ⟨later + steps + 1, by simp only [List.length_append, List.length_cons]; omega, ?_⟩
      intro fuel stack expecting front rest opens ends
      have comma : Ends (back ++ ',' :: (more ++ rest)) := ends_of_mark (by decide) blankToo _
      have entered := skipFrom_item opens leads blank value (fuel + later + steps) stack (back ++ ',' :: (more ++ rest))
      have passed := passes (fuel + later) (bracket :: stack) _ comma
      have ended := passesMore fuel stack .more (back ++ [',']) rest (.comma blankToo) ends
      rw [List.append_assoc, List.singleton_append] at ended
      have sum : fuel + (later + steps + 1) = fuel + later + steps + 1 := by omega
      simp only [sum, List.append_assoc, List.cons_append]
      exact entered.trans (passed.trans ended)

/-- Nesting has no limit: any fuel that is twice the length of the value will do. -/
theorem skipValue_append (value : PartText .value text) (blank : Blank gap) (ends : Ends rest)
    (enough : 2 * text.length ≤ fuel) : skipValue fuel (gap ++ (text ++ rest)) = .ok rest := by
  obtain ⟨steps, few, passes⟩ := exists_passes value
  obtain ⟨left, rfl⟩ : ∃ left, fuel = left + 1 + steps := ⟨fuel - steps - 1, by omega⟩
  rw [skipValue, skipFrom_blank blank, passes (left + 1) [] rest ends]
  rfl

theorem Shape.accepts_unknown {σ : Type} {shape : Shape σ} {name : String}
    (unknown : ∀ field ∈ shape.fields, field.name ≠ name) (value : PartText .value text) (state : σ) :
    Accepts shape.member state (name, text) state := by
  intro fuel gap rest enough blank ends
  have notFound : shape.fields.find? (·.name == name) = none := by simpa using unknown
  have skips : skipValue fuel (gap ++ (text ++ rest)) = .ok rest := by
    refine skipValue_append value blank ends ?_
    simp only [enoughFuel, List.length_append] at enough
    omega
  refine ⟨_, by rw [member, notFound], ?_⟩
  rw [skips]
  rfl

end ViewCache.Json
