import ViewCache.Proofs.Locator.History
import ViewCache.Proofs.Locator.Templates

/-!
Which requests are answered from one cache entry: those whose keys are equal. Spellings that differ in the
extension or in the mark of a template share an entry; the controllers of an absolute view share one as far as the
view begins with its slash.
-/
namespace ViewCache.Locator

open Text ViewName

def entryFor (locator : Locator) (wanted : Wanted) : Option EntryId := locator.cache.store.find? wanted.cacheKey

/-- The two requests are answered from one entry. -/
structure Share (config : LocatorConfig) (source : TimeSource) (first second : Wanted) : Prop where
  entry : ∀ (earlier : List Turn) (one two : Turn), one.action = .lookup first → two.action = .lookup second →
    ∃ id, entryFor (afterTurns config source (two :: one :: earlier)) first = some id ∧
      entryFor (afterTurns config source (two :: one :: earlier)) second = some id
  /-- what is cached for the one is given to the other, and the resolver is not asked -/
  served : ∀ (earlier : List Turn) (turn : Turn) (last : Entry.Standing (Option Page)),
    turn.action = .lookup second → standing config source first.cacheKey earlier = some last →
    ¬ Due config (some last) (turn.clock.now source) →
    (turn.play (afterTurns config source earlier)).2 = some (.ok last.value, false)

variable {config : LocatorConfig} {source : TimeSource} {first second : Wanted}

theorem entryFor_of_lookup {turn : Turn} {wanted : Wanted} (looksUp : turn.action = .lookup wanted)
    (earlier : List Turn) : ∃ id, entryFor (afterTurns config source (turn :: earlier)) wanted = some id := by
  have shows := shows_standing config source earlier
  rw [afterTurns, play_of_lookup looksUp]
  exact shows.entry_of_lookup wanted.cacheKey (turn.answers wanted.cacheKey) turn.clock turn.later

theorem share_of_cacheKey_eq (same : first.cacheKey = second.cacheKey) : Share config source first second := by
  constructor
  case entry =>
    intro earlier one two _ looksUp
    obtain ⟨id, found⟩ : ∃ id, entryFor (afterTurns config source (two :: one :: earlier)) second = some id :=
      entryFor_of_lookup looksUp (one :: earlier)
    refine ⟨id, ?_, found⟩
    rw [entryFor, same]
    exact found
  case served =>
    intro earlier turn last looksUp held served
    rw [same] at held
    rcases lookup_reply looksUp earlier with ⟨due, -⟩ | ⟨other, heldToo, -, told⟩
    · exact absurd (held ▸ due) served
    · rw [held] at heldToo
      cases heldToo
      exact told

def emptyHanded (wanted : Wanted) : Turn := ⟨.lookup wanted, fun _ => .ok none, {}, {}⟩

theorem share_iff : Share config source first second ↔ first.cacheKey = second.cacheKey := by
  refine ⟨fun share => ?_, share_of_cacheKey_eq⟩
  obtain ⟨id, found, foundToo⟩ := share.entry [] (emptyHanded first) (emptyHanded second) rfl rfl
  exact (shows_standing config source _).apart found foundToo

end ViewCache.Locator

namespace ViewCache.Key

open Text ViewName

variable {controller first second : Option String} {view : String} {qualifier : Option String}

theorem ofView_eq_iff : ofView first view qualifier = ofView second view qualifier ↔
    view.toList.head? = some '/' ∨ first = second := by
  by_cases absolute : view.toList.head? = some '/' <;> simp [ofView, absolute]

theorem ofTemplate_eq_iff {name : String} :
    ofTemplate first name qualifier = ofTemplate second name qualifier ↔
      name.toList.head? = some '/' ∨ first = second := by
  rw [ofTemplate, ofTemplate, ofView_eq_iff, head?_template_eq_slash]

/-- Whoever asks for it, an absolute view is looked for in the same place. -/
theorem uri?_of_absolute (absolute : (trim view.toList).head? = some '/') :
    (ofView first view qualifier).uri? = (ofView second view qualifier).uri? := by
  have named : trim view.toList ≠ [] := by
    intro empty
    rw [empty] at absolute
    cases absolute
  have alike (controller : Option String) : cut controller view = splitLast '/' (trim view.toList) := by
    rw [cut, Uri.below_eq, Uri.front_of_absolute absolute, List.nil_append]
  rw [uri?_of_key named, uri?_of_key named, alike, alike]

theorem ofView_append_extension (named : trimStart view.toList ≠ [])
    (last : ∀ c ∈ view.toList.getLast?, isBlank c = false) (bare : ¬ Uri.extension <:+ view.toList) :
    ofView controller (view ++ Convention.pageExtension) qualifier = ofView controller view qualifier := by
  have some : view.toList ≠ [] := by
    intro empty
    rw [empty] at named
    exact named rfl
  have head : (view ++ Convention.pageExtension).toList.head? = view.toList.head? := by
    rw [String.toList_append, List.head?_append_of_ne_nil _ some]
  rw [ofView, ofView, page_append_extension named last bare, head]

def spellings (name : String) : List String :=
  [name, template name, name ++ Convention.pageExtension, template name ++ Convention.pageExtension]

theorem ofTemplate_of_spelling {name spelling : String} (last : ∀ c ∈ name.toList.getLast?, isBlank c = false)
    (bare : ¬ Uri.extension <:+ name.toList) (member : spelling ∈ spellings name) :
    ofTemplate controller spelling qualifier = ofTemplate controller name qualifier := by
  obtain ⟨named, visible, absent⟩ := template_takes_extension last bare
  have extended : ofView controller (template name ++ Convention.pageExtension) qualifier =
      ofView controller (template name) qualifier := ofView_append_extension named visible absent
  simp only [spellings, List.mem_cons, List.not_mem_nil, or_false] at member
  rcases member with rfl | rfl | rfl | rfl
  · rfl
  · rw [ofTemplate, ofTemplate, template_idem]
  · rw [ofTemplate, ofTemplate, template_append_extension, extended]
  · rw [ofTemplate, ofTemplate, template_append_extension, template_idem, extended]

end ViewCache.Key

namespace ViewCache.Locator

open Text ViewName

/-- Two controllers share the entry of an absolute view, or template, if and only if its slash stands right at the
front, or they are the same controller. They mean the same page all the same. -/
theorem absolute_views_share_iff (config : LocatorConfig) (source : TimeSource) {view : String}
    (absolute : (trim view.toList).head? = some '/') (qualifier first second : Option String) :
    (Share config source (.view first view qualifier) (.view second view qualifier) ↔
      view.toList.head? = some '/' ∨ first = second) ∧
    (Share config source (.template first view qualifier) (.template second view qualifier) ↔
      view.toList.head? = some '/' ∨ first = second) ∧
    (Key.ofView first view qualifier).uri? = (Key.ofView second view qualifier).uri? ∧
    (Key.ofTemplate first view qualifier).uri? = (Key.ofTemplate second view qualifier).uri? := by
  refine ⟨?_, ?_, Key.uri?_of_absolute absolute, Key.uri?_of_absolute (head?_trim_template absolute)⟩
  · exact share_iff.trans Key.ofView_eq_iff
  · exact share_iff.trans Key.ofTemplate_eq_iff

theorem layout_is_shared : (trim "/layouts/main".toList).head? = some '/' ∧
    Share {} .manual (.view (some "book") "/layouts/main" none) (.view (some "author") "/layouts/main" none) := by
  have absolute : (trim "/layouts/main".toList).head? = some '/' := by decide
  exact ⟨absolute, (absolute_views_share_iff {} .manual absolute none (some "book") (some "author")).1.mpr
    (.inl (by decide))⟩

/-- A blank in front of the slash splits the entry: the second controller asks the resolver again. -/
theorem indented_view_is_split : (trim " /layouts/main".toList).head? = some '/' ∧
    ¬ Share {} .manual (.view (some "book") " /layouts/main" none) (.view (some "author") " /layouts/main" none) ∧
    ((emptyHanded (.view (some "author") " /layouts/main" none)).play
      (afterTurns {} .manual [emptyHanded (.view (some "book") " /layouts/main" none)])).2 =
        some (.ok none, true) := by
  refine ⟨by decide, ?_, by decide⟩
  rw [share_iff]
  decide

structure MarksLast (name : String) : Prop where
  idempotent : template (template name) = template name
  last : ∃ dir file part, name.toList = dir ++ file ∧ (template name).toList = dir ++ part ∧
    OpenEnded '/' dir ∧ '/' ∉ file ∧ '/' ∉ part ∧ part.head? = some '_' ∧ (part = file ∨ part = '_' :: file)

theorem marksLast (name : String) : MarksLast name := by
  obtain ⟨dir, file, whole, open_, plain⟩ := exists_cut name
  exact ⟨template_idem name, dir, file, marked file, whole, toList_template whole open_ plain, open_, plain,
    slash_not_mem_marked plain, head?_marked file, marked_eq file⟩

/-- A view shares the entry of its full name, and a template that of each of its spellings. -/
theorem spellings_share_entries (config : LocatorConfig) (source : TimeSource) (controller qualifier : Option String) :
    (∀ view : String, view ≠ "" → IsTrimmed view.toList → ¬ Convention.pageExtension.toList <:+ view.toList →
      Share config source (.view controller view qualifier)
        (.view controller (view ++ Convention.pageExtension) qualifier) ∧
      Share config source (.page view qualifier) (.page (view ++ Convention.pageExtension) qualifier)) ∧
    (∀ name : String, (∀ c ∈ name.toList.getLast?, isBlank c = false) →
      ¬ Convention.pageExtension.toList <:+ name.toList → ∀ one ∈ Key.spellings name, ∀ other ∈ Key.spellings name,
        Share config source (.template controller one qualifier) (.template controller other qualifier)) ∧
    ∀ name, MarksLast name := by
  refine ⟨?_, ?_, marksLast⟩
  · intro view nonempty trimmed bare
    have whole : trimStart view.toList = view.toList := by
      rw [← trim_of_last trimmed.2, trim_of_isTrimmed trimmed]
    have named : trimStart view.toList ≠ [] := by
      rw [whole]
      exact fun empty => nonempty (String.toList_inj.mp empty)
    constructor
    · apply share_of_cacheKey_eq
      exact (Key.ofView_append_extension named trimmed.2 bare).symm
    · apply share_of_cacheKey_eq
      rw [Wanted.cacheKey, Wanted.cacheKey, Key.ofPage, Key.ofPage, page_append_extension named trimmed.2 bare]
  · intro name last bare one oneSpells other otherSpells
    apply share_of_cacheKey_eq
    calc Key.ofTemplate controller one qualifier
      _ = Key.ofTemplate controller name qualifier := Key.ofTemplate_of_spelling last bare oneSpells
      _ = Key.ofTemplate controller other qualifier := (Key.ofTemplate_of_spelling last bare otherSpells).symm

theorem row_shares_entry :
    Share {} .manual (.view (some "book") "show" none) (.view (some "book") "show.gsp" none) ∧
    Share {} .manual (.template (some "book") "list/row" none) (.template (some "book") "list/_row.gsp" none) := by
  obtain ⟨views, templates, -⟩ := spellings_share_entries {} .manual (some "book") none
  have trimmed : IsTrimmed "show".toList := by
    constructor
    · rintro _ ⟨⟩
      decide
    · rintro _ ⟨⟩
      decide
  have last : ∀ c ∈ "list/row".toList.getLast?, isBlank c = false := by
    rintro _ ⟨⟩
    decide
  constructor
  · exact (views "show" (by decide) trimmed (by decide)).1
  · exact templates "list/row" last (by decide) "list/row" (by decide) "list/_row.gsp" (by decide)

end ViewCache.Locator
