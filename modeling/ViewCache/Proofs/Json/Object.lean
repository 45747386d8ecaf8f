import ViewCache.Proofs.Json.Members
import ViewCache.Proofs.Json.Scalar

namespace ViewCache.Json

def memberText (gaps : Gaps) (m : String × Json) (behind : List Char) : List Char :=
  gaps.name ++ (quote m.1 ++ (gaps.colon ++ ':' :: (gaps.value ++ (print m.2 ++ behind))))

/-- The text goes on with these members, of which the flag tells whether they are the first of the object, and
with its closing brace; the last text stands behind it. -/
inductive MembersText : Bool → List (String × Json) → List Char → List Char → Prop
  | closed {first : Bool} {gap rest : List Char} (blank : Blank gap) :
      MembersText first [] (gap ++ '\x7d' :: rest) rest
  | first (gaps : Gaps) (m : String × Json) {members : List (String × Json)} {text rest : List Char}
      (more : MembersText false members text rest) : MembersText true (m :: members) (memberText gaps m text) rest
  | next (gaps : Gaps) (m : String × Json) {gap : List Char} {members : List (String × Json)} {text rest : List Char}
      (blank : Blank gap) (more : MembersText false members text rest) :
      MembersText false (m :: members) (gap ++ ',' :: memberText gaps m text) rest

def IsObject (members : List (String × Json)) (text : String) : Prop :=
  ∃ front body back, text.toList = front ++ '\x7b' :: body ∧ Blank front ∧ MembersText true members body back ∧
    Blank back

section

variable {text rest : List Char} {members : List (String × Json)}

def printed (m : String × Json) : String × List Char := (m.1, print m.2)

theorem entryText_printed (gaps : Gaps) (m : String × Json) (behind : List Char) :
    entryText gaps (m.1.toList.flatMap escape) (print m.2) behind = memberText gaps m behind := by
  rw [memberText, quote_append, entryText, spelledText]

theorem MembersText.entries {first : Bool} (written : MembersText first members text rest) :
    EntriesText first (members.map printed) text rest := by
  induction written with
  | closed blank => exact .closed blank
  | first gaps m more ih =>
      rw [← entryText_printed]
      exact .first gaps (spells_escaped _) ih
  | next gaps m blank more ih =>
      rw [← entryText_printed]
      exact .next gaps blank (spells_escaped _) ih

theorem IsObject.entries {text : String} (object : IsObject members text) : IsObjectOf (members.map printed) text := by
  obtain ⟨front, body, back, whole, blank, written, blankToo⟩ := object
  exact ⟨front, body, back, whole, blank, written.entries, blankToo⟩

end

section

variable {σ : Type} {member : Nat → σ → String → Except Fault (List Char → Reading σ)}

def TakesIn (member : Nat → σ → String → Except Fault (List Char → Reading σ)) (state : σ) (m : String × Json)
    (next : σ) : Prop :=
  ∀ fuel gap rest, enoughFuel (gap ++ (print m.2 ++ rest)) ≤ fuel → Blank gap → Ends rest →
    ∃ read, member fuel state m.1 = .ok read ∧ read (gap ++ (print m.2 ++ rest)) = .ok (next, rest)

inductive TakesAll (member : Nat → σ → String → Except Fault (List Char → Reading σ)) :
    σ → List (String × Json) → σ → Prop
  | nil {state : σ} : TakesAll member state [] state
  | cons {state next last : σ} {m : String × Json} {members : List (String × Json)}
      (here : TakesIn member state m next) (more : TakesAll member next members last) :
      TakesAll member state (m :: members) last

variable {first : Bool} {members : List (String × Json)} {text rest : List Char} {state last : σ}

theorem TakesAll.accepts (takes : TakesAll member state members last) :
    AcceptsAll member state (members.map printed) last := by
  induction takes with
  | nil => exact .nil
  | cons here more ih => exact .cons here ih

theorem readMembersWith_text (written : MembersText first members text rest)
    (takes : TakesAll member state members last) {fuel : Nat} (enough : enoughFuel text ≤ fuel) :
    readMembersWith member fuel first state text = .ok (last, rest) :=
  readMembersWith_entries written.entries takes.accepts enough

end

/-! ### Objects as they are printed -/

section

variable {members : List (String × Json)}

theorem printMembers_cons (m : String × Json) (members : List (String × Json)) (rest : List Char) :
    ∃ text, MembersText false members text rest ∧
      printMembers (m :: members) ++ '\x7d' :: rest = memberText {} m text := by
  induction members generalizing m with
  | nil => exact ⟨_, .closed blank_nil, by simp [printMembers, memberText]⟩
  | cons second members ih =>
      obtain ⟨text, written, same⟩ := ih second
      refine ⟨_, .next {} second blank_nil written, ?_⟩
      rw [← same]
      simp [printMembers, memberText]

theorem isObject_compact (members : List (String × Json)) : IsObject members (compact (.obj members)) := by
  have written : MembersText true members (printMembers members ++ ['\x7d']) [] := by
    cases members with
    | nil => exact .closed blank_nil
    | cons m members =>
        obtain ⟨text, written, same⟩ := printMembers_cons m members []
        rw [same]
        exact .first {} m written
  exact ⟨[], _, [], by simp [compact, print], blank_nil, written, blank_nil⟩

theorem pretty_scalar {v : Json} (scalar : Scalar v) (depth : Nat) : pretty depth v = print v := by
  cases scalar <;> rfl

theorem blank_newline (depth : Nat) : Blank (newline depth) := by
  intro c member
  rcases List.mem_cons.mp member with rfl | space
  · rfl
  · rw [List.eq_of_mem_replicate space]
    rfl

def ownLine (depth : Nat) : Gaps where
  name := newline depth
  value := [' ']
  blank := ⟨blank_newline depth, blank_nil, by simp [Blank, isSpace]⟩

theorem prettyMembers_cons (depth outer : Nat) (m : String × Json) (scalar : Scalar m.2)
    (scalars : ∀ m ∈ members, Scalar m.2) (rest : List Char) :
    ∃ text, MembersText false members text rest ∧
      prettyMembers depth (m :: members) ++ newline outer ++ '\x7d' :: rest = memberText (ownLine depth) m text := by
  induction members generalizing m with
  | nil =>
      refine ⟨_, .closed (blank_newline outer), ?_⟩
      simp [prettyMembers, memberText, ownLine, pretty_scalar scalar]
  | cons second members ih =>
      obtain ⟨head, tail⟩ := List.forall_mem_cons.mp scalars
      obtain ⟨text, written, same⟩ := ih second head tail
      refine ⟨_, .next (ownLine depth) second blank_nil written, ?_⟩
      rw [← same]
      simp [prettyMembers, memberText, ownLine, pretty_scalar scalar]

theorem isObject_indented (scalars : ∀ m ∈ members, Scalar m.2) : IsObject members (indented (.obj members)) := by
  cases members with
  | nil =>
      have empty : MembersText true [] ['\x7d'] [] := .closed blank_nil
      exact ⟨[], _, [], by simp [indented, pretty], blank_nil, empty, blank_nil⟩
  | cons m members =>
      obtain ⟨scalar, scalars⟩ := List.forall_mem_cons.mp scalars
      obtain ⟨text, written, same⟩ := prettyMembers_cons 1 0 m scalar scalars []
      refine ⟨[], _, [], ?_, blank_nil, .first (ownLine 1) m written, blank_nil⟩
      simpa [indented, pretty] using same

end

/-! ### Records -/

section

variable {σ : Type} {members : List (String × Json)} {text : String} {state next last : σ}

namespace Shape

variable {shape : Shape σ}

theorem takesIn {m : String × Json} {field : Field σ} (found : shape.fields.find? (·.name == m.1) = some field)
    (awaited : field.isFilled state = false)
    (reads : ∀ gap rest, Blank gap → Ends rest → field.fill state (gap ++ (print m.2 ++ rest)) = .ok (next, rest)) :
    TakesIn shape.member state m next :=
  (shape.accepts found awaited reads : Accepts shape.member state (printed m) next)

theorem document_object (object : IsObject members text) (takes : TakesAll shape.member shape.empty members last) :
    document shape.read text = .ok last :=
  shape.document_entries object.entries takes.accepts

end Shape

/-- Where the state is a function of the members that have come, the last one first, and each name comes once. -/
theorem takesAll_of_draft {member : Nat → σ → String → Except Fault (List Char → Reading σ)}
    {draft : List (String × Json) → σ}
    (takes : ∀ come, ∀ m ∈ members, m.1 ∉ come.map Prod.fst → TakesIn member (draft come) m (draft (m :: come)))
    (distinct : (members.map Prod.fst).Nodup) (come : List (String × Json))
    (fresh : ∀ m ∈ members, m.1 ∉ come.map Prod.fst) :
    TakesAll member (draft come) members (draft (members.reverse ++ come)) := by
  induction members generalizing come with
  | nil => exact .nil
  | cons m members ih =>
      obtain ⟨single, distinct⟩ := List.nodup_cons.mp distinct
      obtain ⟨here, later⟩ := List.forall_mem_cons.mp fresh
      have takesMore := fun come other member => takes come other (List.mem_cons_of_mem m member)
      have more := ih takesMore distinct (m :: come) ?_
      · rw [List.reverse_cons, List.append_assoc]
        exact .cons (takes come m List.mem_cons_self here) more
      · intro other member
        refine List.not_mem_cons_of_ne_of_not_mem ?_ (later other member)
        exact fun same => single (same ▸ List.mem_map_of_mem member)

end

end ViewCache.Json
