import ViewCache.Json.Record
import ViewCache.Proofs.Json.Lexer
import ViewCache.Proofs.Json.Number

namespace ViewCache.Json

structure Gaps where
  name : List Char := []
  colon : List Char := []
  value : List Char := []
  blank : Blank name ∧ Blank colon ∧ Blank value := by exact ⟨blank_nil, blank_nil, blank_nil⟩

def spelledText (gaps : Gaps) (spelling value behind : List Char) : List Char :=
  spelling ++ '"' :: (gaps.colon ++ ':' :: (gaps.value ++ (value ++ behind)))

def entryText (gaps : Gaps) (spelling value behind : List Char) : List Char :=
  gaps.name ++ '"' :: spelledText gaps spelling value behind

/-- The text goes on with these names and texts of values, of which the flag tells whether they are the first of
the object, and with its closing brace; the last text stands behind it. -/
inductive EntriesText : Bool → List (String × List Char) → List Char → List Char → Prop
  | closed {first : Bool} {gap rest : List Char} (blank : Blank gap) :
      EntriesText first [] (gap ++ '\x7d' :: rest) rest
  | first (gaps : Gaps) {name : String} {spelling value : List Char} {entries : List (String × List Char)}
      {text rest : List Char} (spells : Spells spelling name.toList) (more : EntriesText false entries text rest) :
      EntriesText true ((name, value) :: entries) (entryText gaps spelling value text) rest
  | next (gaps : Gaps) {name : String} {spelling value gap : List Char} {entries : List (String × List Char)}
      {text rest : List Char} (blank : Blank gap) (spells : Spells spelling name.toList)
      (more : EntriesText false entries text rest) :
      EntriesText false ((name, value) :: entries) (gap ++ ',' :: entryText gaps spelling value text) rest

def IsObjectOf (entries : List (String × List Char)) (text : String) : Prop :=
  ∃ front body back, text.toList = front ++ '\x7b' :: body ∧ Blank front ∧ EntriesText true entries body back ∧
    Blank back

section

variable {gap text rest spelling value behind : List Char} {gaps : Gaps} {entries : List (String × List Char)}

theorem ends_of_mark {c : Char} (mark : isDigit c = false ∧ c ≠ '.' ∧ c ≠ 'e' ∧ c ≠ 'E') (blank : Blank gap)
    (rest : List Char) : Ends (gap ++ c :: rest) := by
  intro d head
  cases gap with
  | nil =>
      cases head
      exact mark
  | cons _ gap =>
      cases head
      have space := blank d List.mem_cons_self
      simp only [isSpace, Bool.or_eq_true, decide_eq_true_eq] at space
      rcases space with ((rfl | rfl) | rfl) | rfl <;> decide

theorem EntriesText.ends (written : EntriesText false entries text rest) : Ends text := by
  cases written with
  | closed blank => exact ends_of_mark (by decide) blank _
  | next _ blank spells more => exact ends_of_mark (by decide) blank _

theorem next_closed (first : Bool) (blank : Blank gap) (rest : List Char) :
    next '\x7d' first (gap ++ '\x7d' :: rest) = .ok (.closed rest) := by
  rw [next, skipSpace_append blank, skipSpace_cons (by decide)]
  simp

theorem skipSpace_entry (gaps : Gaps) (spelling value behind : List Char) :
    skipSpace (entryText gaps spelling value behind) = '"' :: spelledText gaps spelling value behind := by
  rw [entryText, skipSpace_append gaps.blank.1, skipSpace_cons (by decide)]

theorem next_first : next '\x7d' true (entryText gaps spelling value behind) =
    .ok (.item ('"' :: spelledText gaps spelling value behind)) := by
  rw [next, skipSpace_entry]
  simp

theorem next_more (blank : Blank gap) : next '\x7d' false (gap ++ ',' :: entryText gaps spelling value behind) =
    .ok (.item ('"' :: spelledText gaps spelling value behind)) := by
  rw [next, skipSpace_append blank, skipSpace_cons (by decide)]
  simp [skipSpace_entry]

end

section

variable {σ : Type} {member : Nat → σ → String → Except Fault (List Char → Reading σ)}

/-- The member takes the state on, wherever it stands. -/
def Accepts (member : Nat → σ → String → Except Fault (List Char → Reading σ)) (state : σ)
    (entry : String × List Char) (next : σ) : Prop :=
  ∀ fuel gap rest, enoughFuel (gap ++ (entry.2 ++ rest)) ≤ fuel → Blank gap → Ends rest →
    ∃ read, member fuel state entry.1 = .ok read ∧ read (gap ++ (entry.2 ++ rest)) = .ok (next, rest)

inductive AcceptsAll (member : Nat → σ → String → Except Fault (List Char → Reading σ)) :
    σ → List (String × List Char) → σ → Prop
  | nil {state : σ} : AcceptsAll member state [] state
  | cons {state next last : σ} {entry : String × List Char} {entries : List (String × List Char)}
      (here : Accepts member state entry next) (more : AcceptsAll member next entries last) :
      AcceptsAll member state (entry :: entries) last

variable {first : Bool} {name : String} {spelling value behind text rest : List Char} {gaps : Gaps}
  {entries : List (String × List Char)} {state next last : σ}

theorem readMembersWith_entry {fuel : Nat}
    (starts : Json.next '\x7d' first text = .ok (.item ('"' :: spelledText gaps spelling value behind)))
    (spells : Spells spelling name.toList) (here : Accepts member state (name, value) next) (ends : Ends behind)
    (enough : enoughFuel (gaps.value ++ (value ++ behind)) ≤ fuel) :
    readMembersWith member (fuel + 1) first state text = readMembersWith member fuel false next behind := by
  obtain ⟨read, known, reads⟩ := here fuel gaps.value behind enough gaps.blank.2.2 ends
  have named := readQuoted_of_spells spells (gaps.colon ++ ':' :: (gaps.value ++ (value ++ behind)))
  have colon := readColon_append gaps.blank.2.1 (gaps.value ++ (value ++ behind))
  rw [← spelledText] at named
  simp only at known reads
  simp [readMembersWith, starts, named, known, colon, reads, bind, Except.bind]

theorem readMembersWith_entries (written : EntriesText first entries text rest)
    (accepts : AcceptsAll member state entries last) {fuel : Nat} (enough : enoughFuel text ≤ fuel) :
    readMembersWith member fuel first state text = .ok (last, rest) := by
  have some {text : List Char} {fuel : Nat} (enough : enoughFuel text ≤ fuel) : ∃ less, fuel = less + 1 := by
    simp only [enoughFuel] at enough
    exact ⟨fuel - 1, by omega⟩
  -- on the members: what is left of the fuel is enough for what is left of the text
  induction written generalizing state fuel with
  | closed blank =>
      cases accepts
      obtain ⟨fuel, rfl⟩ := some enough
      simp [readMembersWith, next_closed _ blank, bind, Except.bind, pure, Except.pure]
  | first gaps spells more ih =>
      cases accepts with
      | cons here later =>
          obtain ⟨fuel, rfl⟩ := some enough
          simp only [enoughFuel, entryText, spelledText, List.length_append, List.length_cons] at enough
          rw [readMembersWith_entry next_first spells here more.ends]
          · exact ih later (by simp only [enoughFuel]; omega)
          · simp only [enoughFuel, List.length_append]
            omega
  | next gaps blank spells more ih =>
      cases accepts with
      | cons here later =>
          obtain ⟨fuel, rfl⟩ := some enough
          simp only [enoughFuel, entryText, spelledText, List.length_append, List.length_cons] at enough
          rw [readMembersWith_entry (next_more blank) spells here more.ends]
          · exact ih later (by simp only [enoughFuel]; omega)
          · simp only [enoughFuel, List.length_append]
            omega

theorem Shape.accepts {shape : Shape σ} {entry : String × List Char} {field : Field σ}
    (found : shape.fields.find? (·.name == entry.1) = some field) (awaited : field.isFilled state = false)
    (reads : ∀ gap rest, Blank gap → Ends rest → field.fill state (gap ++ (entry.2 ++ rest)) = .ok (next, rest)) :
    Accepts shape.member state entry next := by
  intro fuel gap rest _ blank ends
  exact ⟨field.fill state, by simp [member, found, awaited], reads gap rest blank ends⟩

theorem Shape.document_entries {shape : Shape σ} {text : String} (object : IsObjectOf entries text)
    (accepts : AcceptsAll shape.member shape.empty entries last) : document shape.read text = .ok last := by
  obtain ⟨front, body, back, whole, blank, written, blankToo⟩ := object
  have read := readMembersWith_entries written accepts (Nat.le_refl _)
  simp [document, Shape.read, whole, skipSpace_append blank, skipSpace_cons, isSpace, read, skipSpace_blank blankToo,
    bind, Except.bind, pure, Except.pure]

end

end ViewCache.Json
