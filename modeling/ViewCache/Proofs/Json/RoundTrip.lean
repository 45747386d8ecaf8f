import ViewCache.JsonForm
import ViewCache.Proofs.Json.Object

namespace ViewCache

open Json

def Json.members : Json → List (String × Json)
  | .obj members => members
  | _ => []

/-- The value is what is read from the text that is written for it, on one line or indented, and from every
other text with the same members, in any order and with blanks wherever they may stand. -/
structure ReadsBack {α : Type} (ofText : String → Except Fault α) (written : Json) (value : α) : Prop where
  compact : ofText (compact written) = .ok value
  indented : ofText (indented written) = .ok value
  reordered : ∀ members text, members.Perm written.members → IsObject members text → ofText text = .ok value

section

variable {σ α : Type} {members : List (String × Json)} {value : α}

/-- The draft depends on the members that have come, and yields the value once all have, in whatever order. -/
theorem readsBack_of_draft (member : Nat → σ → String → Except Fault (List Char → Reading σ))
    {ofText : String → Except Fault α} (draft : List (String × Json) → σ)
    (scalars : ∀ m ∈ members, Scalar m.2) (distinct : (members.map Prod.fst).Nodup)
    (takes : ∀ come, ∀ m ∈ members, m.1 ∉ come.map Prod.fst →
      TakesIn member (draft come) m (draft (m :: come)))
    (finished : ∀ come other text, come.Perm members → IsObject other text →
      TakesAll member (draft []) other (draft come) → ofText text = .ok value) :
    ReadsBack ofText (.obj members) value := by
  have reads : ∀ other text, other.Perm members → IsObject other text → ofText text = .ok value := by
    intro other text order object
    have distinctToo : (other.map Prod.fst).Nodup := (order.map Prod.fst).nodup_iff.mpr distinct
    refine finished other.reverse other text (other.reverse_perm.trans order) object ?_
    have taken := takesAll_of_draft (fun come m member => takes come m (order.subset member)) distinctToo [] (by simp)
    rwa [List.append_nil] at taken
  exact {
    compact := reads _ _ (.refl members) (isObject_compact members)
    indented := reads _ _ (.refl members) (isObject_indented scalars)
    reordered := reads }

theorem Json.Shape.readsBack {shape : Shape σ} {finish : σ → α} (draft : List (String × Json) → σ)
    (empty : draft [] = shape.empty) (scalars : ∀ m ∈ members, Scalar m.2) (distinct : (members.map Prod.fst).Nodup)
    (takes : ∀ come, ∀ m ∈ members, m.1 ∉ come.map Prod.fst →
      TakesIn shape.member (draft come) m (draft (m :: come)))
    (finished : ∀ come, come.Perm members → finish (draft come) = value) :
    ReadsBack (fun text => (document shape.read text).map finish) (.obj members) value := by
  refine readsBack_of_draft shape.member draft scalars distinct takes ?_
  intro come other text order object taken
  rw [empty] at taken
  rw [shape.document_object object taken, Except.map, finished come order]

end

def once {α : Type} (name : String) (come : List (String × Json)) (part : α) : Option α :=
  if name ∈ come.map Prod.fst then some part else none

section

variable {α : Type} {name : String} {come members : List (String × Json)} (part : α)

theorem once_cons (m : String × Json) :
    once name (m :: come) part = if m.1 = name then some part else once name come part := by
  by_cases same : m.1 = name
  · simp [once, same]
  · simp only [once, List.map_cons, List.mem_cons, Ne.symm same, same, false_or, if_false]

theorem once_of_unseen (unseen : name ∉ come.map Prod.fst) : once name come part = none := if_neg unseen

theorem once_of_perm (order : come.Perm members) (member : name ∈ members.map Prod.fst) :
    once name come part = some part :=
  if_pos ((order.map Prod.fst).mem_iff.mpr member)

end

namespace Key

def draftOf (key : Key) (come : List (String × Json)) : Draft :=
  ⟨once "path" come key.path, once "namespace" come key.qualifier, once "context" come key.context⟩

theorem reads_back (key : Key) : ReadsBack ofText key.toJson key := by
  refine Shape.readsBack key.draftOf rfl (by simp [scalar_ofOption]) (by simp) ?_ ?_
  · intro come m member unseen
    simp only [List.mem_cons, List.not_mem_nil, or_false] at member
    rcases member with rfl | rfl | rfl
    all_goals
      refine Shape.takesIn rfl (by simp [draftOf, once_of_unseen _ unseen]) ?_
      intro gap rest blank _
      simp [readOptional_print _ blank, Except.map, draftOf, once_cons]
  · intro come order
    simp [draftOf, Draft.finish, once_of_perm _ order]

end Key

namespace CacheConfig

def draftOf (config : CacheConfig) (come : List (String × Json)) : Draft :=
  ⟨once "timeout_millis" come config.timeout, once "tolerate_stale" come config.tolerant⟩

theorem reads_back (config : CacheConfig) (fits : Text.inSigned64 config.timeout = true) :
    ReadsBack ofText config.toJson config := by
  refine Shape.readsBack config.draftOf rfl (by simp [scalar_int fits, Scalar.bool]) (by simp) ?_ ?_
  · intro come m member unseen
    simp only [List.mem_cons, List.not_mem_nil, or_false] at member
    rcases member with rfl | rfl
    all_goals
      refine Shape.takesIn rfl (by simp [draftOf, once_of_unseen _ unseen]) ?_
      intro gap rest blank ends
      simp [readInteger_print fits blank ends, readBool_print _ blank, Except.map, draftOf, once_cons]
  · intro come order
    simp [draftOf, Draft.finish, once_of_perm _ order]

end CacheConfig

namespace LocatorConfig

def draftOf (config : LocatorConfig) (come : List (String × Json)) : Draft :=
  ⟨once "reload_enabled" come config.reload, once "cache_timeout_millis" come config.timeout,
    once "tolerate_stale" come config.tolerant⟩

theorem reads_back (config : LocatorConfig) (fits : Text.inSigned64 config.timeout = true) :
    ReadsBack ofText config.toJson config := by
  refine Shape.readsBack config.draftOf rfl (by simp [scalar_int fits, Scalar.bool]) (by simp) ?_ ?_
  · intro come m member unseen
    simp only [List.mem_cons, List.not_mem_nil, or_false] at member
    rcases member with rfl | rfl | rfl
    all_goals
      refine Shape.takesIn rfl (by simp [draftOf, once_of_unseen _ unseen]) ?_
      intro gap rest blank ends
      simp [readInteger_print fits blank ends, readBool_print _ blank, Except.map, draftOf, once_cons]
  · intro come order
    simp [draftOf, Draft.finish, once_of_perm _ order]

end LocatorConfig

namespace Page

def draftOf (kind : Kind) (come : List (String × Json)) : Draft :=
  ⟨once "kind" come kind, come.filter (·.1 != "kind")⟩

theorem takesIn_kind {kind : Kind} {word : String} {come : List (String × Json)}
    (known : Kind.ofName? word = some kind) (unseen : "kind" ∉ come.map Prod.fst) :
    TakesIn member (draftOf kind come) ("kind", .str word) (draftOf kind (("kind", .str word) :: come)) := by
  intro fuel gap rest _ blank _
  simp only [member, draftOf, once_of_unseen _ unseen, if_true, Option.isSome_none, Bool.false_eq_true, if_false]
  refine ⟨_, rfl, ?_⟩
  simp [readKind, readString_print word blank, known, once_cons, Except.map, bind, Except.bind, pure, Except.pure]

theorem takesIn_other {kind : Kind} {come : List (String × Json)} {m : String × Json} (other : m.1 ≠ "kind")
    (scalar : Scalar m.2) : TakesIn member (draftOf kind come) m (draftOf kind (m :: come)) := by
  intro fuel gap rest enough blank ends
  obtain ⟨less, rfl⟩ : ∃ less, fuel = less + 1 := ⟨fuel - 1, by simp only [enoughFuel] at enough; omega⟩
  simp only [member, other, if_false]
  refine ⟨_, rfl, ?_⟩
  simp [readValue_print scalar less _ blank ends, draftOf, once_cons, other, Except.map]

theorem ofText_object {members : List (String × Json)} {text : String} {last : Draft} {kind : Kind} {page : Page}
    (object : IsObject members text) (takes : TakesAll member {} members last) (known : last.kind = some kind)
    (shaped : ofMembers last.members kind = .ok page) : ofText text = .ok page := by
  obtain ⟨front, body, back, whole, blank, written, blankToo⟩ := object
  have reads := readMembersWith_text written takes (Nat.le_refl _)
  simp [ofText, document, read, whole, skipSpace_append blank, skipSpace_cons, isSpace, reads, known, shaped,
    skipSpace_blank blankToo, bind, Except.bind, pure, Except.pure]

theorem only_of_perm {come members : List (String × Json)} {name : String} {v : Json} (order : come.Perm members)
    (other : name ≠ "kind") (single : members.filter (·.1 == name) = [(name, v)]) :
    only (come.filter (·.1 != "kind")) name = .ok v := by
  have found : come.filter (·.1 == name) = [(name, v)] := by
    rw [← List.perm_singleton, ← single]
    exact order.filter _
  have others : (come.filter (·.1 != "kind")).filter (·.1 == name) = come.filter (·.1 == name) := by
    rw [List.filter_filter]
    refine List.filter_congr ?_
    intro m _
    by_cases same : m.1 = name <;> simp [same, other]
  rw [only, others, found]

/-- The members after the tag stand in the order in which they are written; they are told apart by their names. -/
theorem readsBack_of_kind (kind : Kind) {word : String} {members : List (String × Json)} {page : Page}
    (known : Kind.ofName? word = some kind) (scalars : ∀ m ∈ members, Scalar m.2)
    (distinct : ("kind" :: members.map Prod.fst).Nodup)
    (shaped : ∀ come : List (String × Json), come.Perm (("kind", .str word) :: members) →
      ofMembers (come.filter (·.1 != "kind")) kind = .ok page) :
    ReadsBack ofText (.obj (("kind", .str word) :: members)) page := by
  refine readsBack_of_draft member (draftOf kind) ?_ distinct ?_ ?_
  · exact List.forall_mem_cons.mpr ⟨.str word, scalars⟩
  · intro come m belongs unseen
    rcases List.mem_cons.mp belongs with rfl | belongs
    · exact takesIn_kind known unseen
    · refine takesIn_other ?_ (scalars m belongs)
      exact fun same => (List.nodup_cons.mp distinct).1 (same ▸ List.mem_map_of_mem belongs)
  · intro come other text order object taken
    exact ofText_object object taken (once_of_perm _ order List.mem_cons_self) (shaped come order)

def Fits : Page → Prop
  | precompiled .. => True
  | resource _ _ modified => Text.inSigned64 modified = true

theorem reads_back (page : Page) (fits : page.Fits) : ReadsBack ofText page.toJson page := by
  cases page with
  | precompiled uri typeName =>
      refine readsBack_of_kind .precompiled rfl (by simp [Scalar.str]) (by simp) ?_
      intro come order
      have uriOnly : only (come.filter (·.1 != "kind")) "uri" = .ok (.str uri) := only_of_perm order (by simp) rfl
      have nameOnly : only (come.filter (·.1 != "kind")) "type_name" = .ok (.str typeName) :=
        only_of_perm order (by simp) rfl
      simp [ofMembers, uriOnly, nameOnly, asString, bind, Except.bind, pure, Except.pure]
  | resource uri path modified =>
      change Text.inSigned64 modified = true at fits
      refine readsBack_of_kind .resource rfl (by simp [Scalar.str, scalar_int fits]) (by simp) ?_
      intro come order
      have uriOnly : only (come.filter (·.1 != "kind")) "uri" = .ok (.str uri) := only_of_perm order (by simp) rfl
      have pathOnly : only (come.filter (·.1 != "kind")) "path" = .ok (.str path) := only_of_perm order (by simp) rfl
      have timeOnly : only (come.filter (·.1 != "kind")) "last_modified_millis" = .ok (.int modified) :=
        only_of_perm order (by simp) rfl
      simp [ofMembers, uriOnly, pathOnly, timeOnly, asString, asInteger, fits, bind, Except.bind, pure, Except.pure]

end Page

/-- What is written for a key, a page or settings is read back as just that, and so is every object with the
same members, in any order and laid out in any way. -/
theorem written_forms_are_read_back :
    (∀ key : Key, ReadsBack Key.ofText key.toJson key) ∧
    (∀ page : Page, page.Fits → ReadsBack Page.ofText page.toJson page) ∧
    (∀ config : CacheConfig, Text.inSigned64 config.timeout = true →
      ReadsBack CacheConfig.ofText config.toJson config) ∧
    ∀ config : LocatorConfig, Text.inSigned64 config.timeout = true →
      ReadsBack LocatorConfig.ofText config.toJson config :=
  ⟨Key.reads_back, Page.reads_back, CacheConfig.reads_back, LocatorConfig.reads_back⟩

theorem extreme_times_are_read_back :
    let page : Page := .resource "/first\nsecond" "" (-9223372036854775808)
    let cache : CacheConfig := ⟨9223372036854775807, false⟩
    let locator : LocatorConfig := ⟨false, -9223372036854775808, true⟩
    ReadsBack Page.ofText page.toJson page ∧ ReadsBack CacheConfig.ofText cache.toJson cache ∧
      ReadsBack LocatorConfig.ofText locator.toJson locator := by
  obtain ⟨-, pages, caches, locators⟩ := written_forms_are_read_back
  exact ⟨pages _ rfl, caches _ rfl, locators _ rfl⟩

end ViewCache
