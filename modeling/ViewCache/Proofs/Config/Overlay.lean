import ViewCache.JsonForm
import ViewCache.Proofs.Json.Object
import ViewCache.Proofs.Json.Skip

namespace ViewCache

open Json

/-- The text is the value as a literal: a word, or an integer without needless zeros, and zero without a sign. -/
inductive Literal : Json → List Char → Prop
  | true : Literal (.bool true) ['t', 'r', 'u', 'e']
  | false : Literal (.bool false) ['f', 'a', 'l', 's', 'e']
  | natural {ds : List Char} (whole : IsWhole ds) : Literal (.int (Text.number ds)) ds
  | negative {ds : List Char} (whole : IsWhole ds) (nonzero : ds ≠ ['0']) :
      Literal (.int (-(Text.number ds : Int))) ('-' :: ds)

/-- The text is an object with these members, in any order, and with no others of these names. Other names may come
as often as they like, with any values. -/
def Holds (names : List String) (members : List (String × Json)) (text : String) : Prop :=
  ∃ entries given, IsObjectOf entries text ∧ (entries.filter fun entry => entry.1 ∈ names).Perm given ∧
    List.Forall₂ (fun m entry => m.1 = entry.1 ∧ Literal m.2 entry.2) members given ∧
    ∀ entry ∈ entries, entry.1 ∉ names → PartText .value entry.2

theorem Literal.eq_print {value : Json} {text : List Char} (literal : Literal value text) : text = print value := by
  cases literal with
  | true => rfl
  | false => rfl
  | natural whole => rw [print, printInt_eq, if_pos (Int.natCast_nonneg _), Int.toNat_natCast, digits_number whole]
  | @negative ds whole nonzero =>
      have positive : Text.number ds ≠ 0 := by
        intro zero
        have same := digits_number whole
        rw [zero] at same
        exact nonzero same.symm
      rw [print, printInt_eq, if_neg (by omega), Int.neg_neg, Int.toNat_natCast, digits_number whole]

theorem eq_printed {members : List (String × Json)} {given : List (String × List Char)}
    (same : List.Forall₂ (fun m entry => m.1 = entry.1 ∧ Literal m.2 entry.2) members given) :
    given = members.map printed := by
  induction same with
  | nil => rfl
  | cons here _ ih => rw [List.map_cons, ← ih, printed, here.1, ← here.2.eq_print]

def seen {α : Type} (name : String) (come : List String) (part : Option α) : Option α :=
  if name ∈ come then part else none

section

variable {α : Type} {name other : String} {come : List String} {part : Option α}

theorem seen_cons : seen name (other :: come) part = if other = name then part else seen name come part := by
  by_cases same : other = name
  · simp [seen, same]
  · simp only [seen, List.mem_cons, Ne.symm same, same, false_or, if_false]

theorem seen_of_unseen (unseen : name ∉ come) : seen name come part = none := if_neg unseen

theorem seen_of_given (given : ∀ value ∈ part, name ∈ come) : seen name come part = part := by
  cases part with
  | none => exact ite_self _
  | some value => exact if_pos (given value rfl)

end

/-! ### Records of any shape -/

section

variable {σ : Type} {shape : Shape σ} {names : List String} {members : List (String × Json)}
  {draft : List String → σ}

structure Overlaid (shape : Shape σ) (names : List String) (members : List (String × Json))
    (draft : List String → σ) : Prop where
  known : shape.fields.map (·.name) = names
  empty : draft [] = shape.empty
  reads : ∀ come, ∀ m ∈ members, m.1 ∉ come → Accepts shape.member (draft come) (printed m) (draft (m.1 :: come))
  ignores : ∀ come, ∀ name ∉ names, draft (name :: come) = draft come

theorem Overlaid.acceptsAll (overlaid : Overlaid shape names members draft) {entries : List (String × List Char)}
    (given : ∀ entry ∈ entries, entry.1 ∈ names → entry ∈ members.map printed)
    (others : ∀ entry ∈ entries, entry.1 ∉ names → PartText .value entry.2)
    (distinct : entries.Pairwise fun entry later => entry.1 ∈ names → later.1 ∈ names → entry.1 ≠ later.1)
    (come : List String) (fresh : ∀ entry ∈ entries, entry.1 ∈ names → entry.1 ∉ come) :
    AcceptsAll shape.member (draft come) entries (draft ((entries.map Prod.fst).reverse ++ come)) := by
  -- on the members to come: the draft holds what has come of those that count
  induction entries generalizing come with
  | nil => exact .nil
  | cons entry entries ih =>
      obtain ⟨single, distinct⟩ := List.pairwise_cons.mp distinct
      obtain ⟨givenHere, given⟩ := List.forall_mem_cons.mp given
      obtain ⟨otherHere, others⟩ := List.forall_mem_cons.mp others
      obtain ⟨freshHere, fresh⟩ := List.forall_mem_cons.mp fresh
      have here : Accepts shape.member (draft come) entry (draft (entry.1 :: come)) := by
        by_cases name : entry.1 ∈ names
        · obtain ⟨m, member, rfl⟩ := List.mem_map.mp (givenHere name)
          exact overlaid.reads come m member (freshHere name)
        · rw [overlaid.ignores come entry.1 name]
          refine shape.accepts_unknown ?_ (otherHere name) (draft come)
          intro field member same
          exact name (same ▸ overlaid.known ▸ List.mem_map_of_mem member)
      have more := ih given others distinct (entry.1 :: come) ?_
      · rw [List.map_cons, List.reverse_cons, List.append_assoc]
        exact .cons here more
      · intro later member name
        refine List.not_mem_cons_of_ne_of_not_mem ?_ (fresh later member name)
        exact fun same => single later member (same ▸ name) name same.symm

theorem Overlaid.document_eq (overlaid : Overlaid shape names members draft) (distinct : (members.map Prod.fst).Nodup)
    {text : String} (holds : Holds names members text) :
    ∃ come, (∀ m ∈ members, m.1 ∈ come) ∧ document shape.read text = .ok (draft come) := by
  obtain ⟨entries, _, object, same, literals, others⟩ := holds
  rw [eq_printed literals] at same
  have given : ∀ entry ∈ entries, entry.1 ∈ names → entry ∈ members.map printed := fun entry member name =>
    same.subset (List.mem_filter.mpr ⟨member, decide_eq_true name⟩)
  have apart : entries.Pairwise fun entry later => entry.1 ∈ names → later.1 ∈ names → entry.1 ≠ later.1 := by
    have single := (same.map Prod.fst).nodup_iff.mpr (by rw [List.map_map]; exact distinct)
    simpa [List.Nodup, List.pairwise_map, List.pairwise_filter] using single
  have accepts := overlaid.acceptsAll given others apart [] (by simp)
  rw [overlaid.empty] at accepts
  refine ⟨_, ?_, shape.document_entries object accepts⟩
  intro m member
  have come := (List.mem_filter.mp (same.symm.subset (List.mem_map_of_mem member))).1
  rw [List.append_nil, List.mem_reverse]
  exact List.mem_map_of_mem come

end

/-! ### The settings of a view locator -/

namespace LocatorConfig

def fieldNames : List String := ["reload_enabled", "cache_timeout_millis", "tolerate_stale"]

namespace Draft

def members (given : Draft) : List (String × Json) :=
  (given.reload.map fun on => ("reload_enabled", .bool on)).toList ++
    (given.timeout.map fun millis => ("cache_timeout_millis", .int millis)).toList ++
    (given.tolerant.map fun on => ("tolerate_stale", .bool on)).toList

def Fits (given : Draft) : Prop := ∀ millis ∈ given.timeout, Text.inSigned64 millis = true

def overlay (given : Draft) (config : LocatorConfig) : LocatorConfig where
  reload := given.reload.getD config.reload
  timeout := given.timeout.getD config.timeout
  tolerant := given.tolerant.getD config.tolerant

def come (given : Draft) (come : List String) : Draft where
  reload := seen "reload_enabled" come given.reload
  timeout := seen "cache_timeout_millis" come given.timeout
  tolerant := seen "tolerate_stale" come given.tolerant

end Draft

variable {given : Draft} {text : String}

theorem distinct_members (given : Draft) : (given.members.map Prod.fst).Nodup := by
  obtain ⟨reload, timeout, tolerant⟩ := given
  cases reload <;> cases timeout <;> cases tolerant <;> simp [Draft.members]

theorem overlaid (fits : given.Fits) :
    Overlaid shape fieldNames given.members given.come where
  known := rfl
  empty := by simp [Draft.come, seen, shape]
  reads := by
    intro come m member unseen
    simp only [Draft.members, List.mem_append, Option.mem_toList, Option.map_eq_some_iff, or_assoc] at member
    rcases member with ⟨on, here, rfl⟩ | ⟨millis, here, rfl⟩ | ⟨on, here, rfl⟩
    all_goals
      refine Shape.takesIn rfl (by simp [Draft.come, seen_of_unseen unseen]) fun gap rest blank ends => ?_
    · simp [readBool_print on blank rest, Except.map, Draft.come, seen_cons, here]
    · simp [readInteger_print (fits millis here) blank ends, Except.map, Draft.come, seen_cons, here]
    · simp [readBool_print on blank rest, Except.map, Draft.come, seen_cons, here]
  ignores := by
    intro come name other
    simp only [fieldNames, List.mem_cons, List.not_mem_nil, or_false, not_or] at other
    simp [Draft.come, seen_cons, other]

theorem come_of_given {come : List String} (all : ∀ m ∈ given.members, m.1 ∈ come) : given.come come = given := by
  have reload : ∀ on ∈ given.reload, "reload_enabled" ∈ come := fun on here =>
    all ("reload_enabled", .bool on) (by simp [Draft.members, Option.mem_def.mp here])
  have timeout : ∀ millis ∈ given.timeout, "cache_timeout_millis" ∈ come := fun millis here =>
    all ("cache_timeout_millis", .int millis) (by simp [Draft.members, Option.mem_def.mp here])
  have tolerant : ∀ on ∈ given.tolerant, "tolerate_stale" ∈ come := fun on here =>
    all ("tolerate_stale", .bool on) (by simp [Draft.members, Option.mem_def.mp here])
  rw [Draft.come, seen_of_given reload, seen_of_given timeout, seen_of_given tolerant]

theorem ofText_of_holds (fits : given.Fits)
    (holds : Holds fieldNames given.members text) : ofText text = .ok (given.overlay {}) := by
  obtain ⟨come, all, read⟩ := (overlaid fits).document_eq (distinct_members given) holds
  rw [ofText, read, come_of_given all]
  rfl

end LocatorConfig

/-! ### The settings of a cache -/

namespace CacheConfig

def fieldNames : List String := ["timeout_millis", "tolerate_stale"]

namespace Draft

def members (given : Draft) : List (String × Json) :=
  (given.timeout.map fun millis => ("timeout_millis", .int millis)).toList ++
    (given.tolerant.map fun on => ("tolerate_stale", .bool on)).toList

def Fits (given : Draft) : Prop := ∀ millis ∈ given.timeout, Text.inSigned64 millis = true

def overlay (given : Draft) (config : CacheConfig) : CacheConfig where
  timeout := given.timeout.getD config.timeout
  tolerant := given.tolerant.getD config.tolerant

def come (given : Draft) (come : List String) : Draft where
  timeout := seen "timeout_millis" come given.timeout
  tolerant := seen "tolerate_stale" come given.tolerant

end Draft

variable {given : Draft} {text : String}

theorem distinct_members (given : Draft) : (given.members.map Prod.fst).Nodup := by
  obtain ⟨timeout, tolerant⟩ := given
  cases timeout <;> cases tolerant <;> simp [Draft.members]

theorem overlaid (fits : given.Fits) :
    Overlaid shape fieldNames given.members given.come where
  known := rfl
  empty := by simp [Draft.come, seen, shape]
  reads := by
    intro come m member unseen
    simp only [Draft.members, List.mem_append, Option.mem_toList, Option.map_eq_some_iff] at member
    rcases member with ⟨millis, here, rfl⟩ | ⟨on, here, rfl⟩
    all_goals
      refine Shape.takesIn rfl (by simp [Draft.come, seen_of_unseen unseen]) fun gap rest blank ends => ?_
    · simp [readInteger_print (fits millis here) blank ends, Except.map, Draft.come, seen_cons, here]
    · simp [readBool_print on blank rest, Except.map, Draft.come, seen_cons, here]
  ignores := by
    intro come name other
    simp only [fieldNames, List.mem_cons, List.not_mem_nil, or_false, not_or] at other
    simp [Draft.come, seen_cons, other]

theorem come_of_given {come : List String} (all : ∀ m ∈ given.members, m.1 ∈ come) : given.come come = given := by
  have timeout : ∀ millis ∈ given.timeout, "timeout_millis" ∈ come := fun millis here =>
    all ("timeout_millis", .int millis) (by simp [Draft.members, Option.mem_def.mp here])
  have tolerant : ∀ on ∈ given.tolerant, "tolerate_stale" ∈ come := fun on here =>
    all ("tolerate_stale", .bool on) (by simp [Draft.members, Option.mem_def.mp here])
  rw [Draft.come, seen_of_given timeout, seen_of_given tolerant]

theorem ofText_of_holds (fits : given.Fits)
    (holds : Holds fieldNames given.members text) : ofText text = .ok (given.overlay {}) := by
  obtain ⟨come, all, read⟩ := (overlaid fits).document_eq (distinct_members given) holds
  rw [ofText, read, come_of_given all]
  rfl

end CacheConfig

/-! ### Both -/

section

variable {Given Config ε : Type}

/-- What is read from a document is `overlay` of the fields that it gives. -/
structure Overlays (ofText : String → Except ε Config) (names : List String)
    (members : Given → List (String × Json)) (Fits : Given → Prop) (overlay : Given → Config) : Prop where
  parsed : ∀ given text, Fits given → Holds names (members given) text → ofText text = .ok (overlay given)
  independent : ∀ given text textToo, Fits given → Holds names (members given) text →
    Holds names (members given) textToo → ofText text = ofText textToo

theorem overlays_of_parsed {ofText : String → Except ε Config} {names : List String}
    {members : Given → List (String × Json)} {Fits : Given → Prop} {overlay : Given → Config}
    (parsed : ∀ given text, Fits given → Holds names (members given) text → ofText text = .ok (overlay given)) :
    Overlays ofText names members Fits overlay where
  parsed := parsed
  independent given text textToo fits holds holdsToo :=
    (parsed given text fits holds).trans (parsed given textToo fits holdsToo).symm

end

theorem documents_overlay_defaults :
    Overlays LocatorConfig.ofText LocatorConfig.fieldNames LocatorConfig.Draft.members (·.Fits) (·.overlay {}) ∧
      (∀ path, Overlays (fun text => LocatorConfig.ofFile path (.ok text)) LocatorConfig.fieldNames
        LocatorConfig.Draft.members (·.Fits) (·.overlay {})) ∧
      Overlays CacheConfig.ofText CacheConfig.fieldNames CacheConfig.Draft.members (·.Fits) (·.overlay {}) := by
  refine ⟨overlays_of_parsed fun given text => LocatorConfig.ofText_of_holds, fun path => ?_,
    overlays_of_parsed fun given text => CacheConfig.ofText_of_holds⟩
  refine overlays_of_parsed fun given text fits holds => ?_
  rw [LocatorConfig.ofFile, LocatorConfig.ofText_of_holds fits holds]
  rfl

/-- A field whose name is written with an escape, behind a nested value that is nobody's. -/
theorem nested_document_is_overlaid :
    LocatorConfig.ofText
        "\x7b\"x\":[1,\x7b\"a\":\"\\ud800\"\x7d],\"\\u0072eload_enabled\":false\x7d" = .ok { reload := false } ∧
      CacheConfig.ofText "\x7b\"timeout_millis\":-5\x7d" = .ok { timeout := -5 } := by
  constructor
  · refine documents_overlay_defaults.1.parsed { reload := some false } _ (by simp [LocatorConfig.Draft.Fits]) ?_
    have one : Numeral.IsProper ⟨['1'], [], none⟩ :=
      ⟨.digits ⟨by decide, List.forall_mem_singleton.mpr rfl⟩ (by decide), .inl rfl, by simp⟩
    have letter : QuotedText ['a'] := .plain ⟨by decide, by decide, by decide⟩ .nil
    have lone : QuotedText ['\\', 'u', 'd', '8', '0', '0'] := .unit (.digits rfl rfl rfl rfl) .nil
    have inner : PartText .value _ :=
      .filled (.last (.name blank_nil letter blank_nil) blank_nil (.string lone)) blank_nil
    have outer : PartText .value _ :=
      .filled (.next .item blank_nil (.number (.inl rfl) one) blank_nil (.last .item blank_nil inner)) blank_nil
    have unit : UnitText ['0', '0', '7', '2'] (((0 * 16 + 0) * 16 + 7) * 16 + 2) := .digits rfl rfl rfl rfl
    have name : Spells _ "reload_enabled".toList :=
      .unit unit ⟨by decide, by decide⟩ (spells_escaped "eload_enabled".toList)
    have written : EntriesText true
        [("x", "[1,\x7b\"a\":\"\\ud800\"\x7d]".toList), ("reload_enabled", ['f', 'a', 'l', 's', 'e'])] _ [] :=
      .first {} (spells_escaped "x".toList) (.next {} blank_nil name (.closed blank_nil))
    refine ⟨_, _, ⟨[], _, [], rfl, blank_nil, written, blank_nil⟩, .refl _, .cons ⟨rfl, .false⟩ .nil, ?_⟩
    intro entry member unknown
    simp only [List.mem_cons, List.not_mem_nil, or_false] at member
    rcases member with rfl | rfl
    · exact outer
    · exact absurd (by decide) unknown
  · have fits : CacheConfig.Draft.Fits { timeout := some (-5) } := by simp [CacheConfig.Draft.Fits, Text.inSigned64]
    refine documents_overlay_defaults.2.2.parsed _ _ fits ?_
    have five : IsWhole ['5'] := .digits ⟨by decide, List.forall_mem_singleton.mpr rfl⟩ (by decide)
    have written : EntriesText true [("timeout_millis", ['-', '5'])] _ [] :=
      .first {} (spells_escaped "timeout_millis".toList) (.closed blank_nil)
    refine ⟨_, _, ⟨[], _, [], rfl, blank_nil, written, blank_nil⟩, .refl _, .cons ⟨rfl, ?_⟩ .nil, ?_⟩
    · exact .negative five (by decide)
    · simp [CacheConfig.fieldNames]

end ViewCache
