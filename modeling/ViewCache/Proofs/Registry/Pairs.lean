import Mathlib.Data.Finmap
import Mathlib.Data.Finset.Card
import ViewCache.Proofs.Assoc
import ViewCache.Proofs.Resolver.Search

/-!
The registry against a finite map on pairs of a URI and a namespace. Its keys are texts in which both parts
may hold the separator; the first slash tells them apart, since a URI begins with one and a namespace has
none.
-/
namespace ViewCache.Registry

open Text Uri

structure IsPair (pair : String × Option String) : Prop where
  canonical : ∃ path context, normalize path context = .ok pair.1
  qualifies : Qualifies pair.2

def lead : Option String → List Char
  | none => []
  | some name => name.toList ++ [Convention.namespaceSeparator]

theorem toList_keyOf (uri : String) (qualifier : Option String) :
    (keyOf uri qualifier).toList = lead qualifier ++ uri.toList := by
  cases qualifier <;> simp [keyOf, lead]

theorem slash_not_mem_lead {qualifier : Option String} (qualifies : Qualifies qualifier) : '/' ∉ lead qualifier := by
  cases qualifier with
  | none => exact List.not_mem_nil
  | some name =>
      have plain : '/' ∉ name.toList := (isName_of_isPlainName (qualifies name rfl)).plain
      intro member
      rcases List.mem_append.mp member with within | separator
      · exact plain within
      · have same : '/' = Convention.namespaceSeparator := List.mem_singleton.mp separator
        exact absurd same (by decide)

theorem lead_injective : Function.Injective lead := by
  intro one other same
  cases one with
  | none =>
      cases other with
      | none => rfl
      | some name => simp [lead] at same
  | some name =>
      cases other with
      | none => simp [lead] at same
      | some second =>
          have names : name.toList = second.toList := List.append_cancel_right same
          rw [String.toList_injective names]

/-- Up to its first slash, a key spells the namespace. -/
theorem takeWhile_keyOf {pair : String × Option String} (valid : IsPair pair) :
    (keyOf pair.1 pair.2).toList.takeWhile (· ≠ '/') = lead pair.2 := by
  obtain ⟨path, context, normal⟩ := valid.canonical
  obtain ⟨names, -, -, spelled⟩ := names_of_normalize normal
  have before : ∀ c ∈ lead pair.2, decide (c ≠ '/') = true := by
    intro c member
    have different : c ≠ '/' := fun same => slash_not_mem_lead valid.qualifies (same ▸ member)
    simpa using different
  rw [toList_keyOf, spelled, List.takeWhile_append_of_pos before, List.takeWhile_cons_of_neg (by simp), List.append_nil]

theorem keyOf_injective {one other : String × Option String} (valid : IsPair one) (valid' : IsPair other)
    (same : keyOf one.1 one.2 = keyOf other.1 other.2) : one = other := by
  have leads : lead one.2 = lead other.2 := by
    rw [← takeWhile_keyOf valid, ← takeWhile_keyOf valid', same]
  have whole : lead one.2 ++ one.1.toList = lead other.2 ++ other.1.toList := by
    rw [← toList_keyOf, ← toList_keyOf, same]
  rw [leads] at whole
  apply Prod.ext
  · exact String.toList_injective (List.append_cancel_left whole)
  · exact lead_injective leads

/-! ### The registry as a map on keys -/

section

variable {registry : Registry} {key other typeName : String}

theorem lookup_erase (registry : Registry) (key other : String) :
    (registry.erase key).pages.lookup other = if other = key then none else registry.pages.lookup other := by
  rw [erase, lookup_filter (· != key)]
  by_cases same : other = key <;> simp [same]

theorem lookup_insert (registry : Registry) (key typeName other : String) :
    (registry.insert key typeName).pages.lookup other =
      if other = key then some typeName else registry.pages.lookup other := by
  rw [insert, List.lookup_cons, lookup_filter (· != key)]
  by_cases same : other = key
  · simp [same]
  · simp [same, beq_false_of_ne same]

def keys (registry : Registry) : List String := registry.pages.map Prod.fst

theorem keys_erase_nodup (distinct : registry.keys.Nodup) (key : String) : (registry.erase key).keys.Nodup :=
  distinct.sublist (List.filter_sublist.map Prod.fst)

theorem keys_insert_nodup (distinct : registry.keys.Nodup) (key typeName : String) :
    (registry.insert key typeName).keys.Nodup := by
  apply List.nodup_cons.mpr
  refine ⟨?_, keys_erase_nodup distinct key⟩
  intro member
  obtain ⟨page, kept, same⟩ := List.mem_map.mp member
  have different := (List.mem_filter.mp kept).2
  simp [same] at different

theorem mem_keys_iff : key ∈ registry.keys ↔ (registry.pages.lookup key).isSome := by
  rw [← Option.ne_none_iff_isSome, Ne, List.lookup_eq_none_iff, keys, List.mem_map]
  simp

end

/-! ### Calls -/

inductive Call
  | register (path : String) (qualifier : Option String) (typeName : String)
  | unregister (path : String) (qualifier : Option String)

inductive Answer
  | rejected (fault : PathFault)
  | registered
  | unregistered (was : Bool)

def perform (registry : Registry) : Call → Registry × Answer
  | .register path qualifier typeName =>
    match registry.register path qualifier typeName with
    | .ok next => (next, .registered)
    | .error fault => (registry, .rejected fault)
  | .unregister path qualifier =>
    match registry.unregister path qualifier with
    | .ok (next, was) => (next, .unregistered was)
    | .error fault => (registry, .rejected fault)

def after : List Call → Registry
  | [] => {}
  | call :: earlier => ((after earlier).perform call).1

abbrev PairMap := Finmap fun _ : String × Option String => String

def Call.path : Call → String
  | .register path _ _ | .unregister path _ => path

def Call.qualifier : Call → Option String
  | .register _ qualifier _ | .unregister _ qualifier => qualifier

/-- What a call on a finite map comes to: the map afterwards, and the answer. The path is looked at before the
namespace, and either may be refused. -/
inductive PairMap.Answers (pages : PairMap) : Call → PairMap → Answer → Prop
  | registered {path uri : String} {qualifier : Option String} (typeName : String)
      (normal : normalize path none = .ok uri) (qualifies : Qualifies qualifier) :
      Answers pages (.register path qualifier typeName) (pages.insert (uri, qualifier) typeName) .registered
  | unregistered {path uri : String} {qualifier : Option String} (normal : normalize path none = .ok uri)
      (qualifies : Qualifies qualifier) :
      Answers pages (.unregister path qualifier) (pages.erase (uri, qualifier))
        (.unregistered (pages.lookup (uri, qualifier)).isSome)
  | abnormal {call : Call} {fault : PathFault} (refused : normalize call.path none = .error fault) :
      Answers pages call pages (.rejected fault)
  | misplaced {call : Call} {uri name : String} (normal : normalize call.path none = .ok uri)
      (qualified : call.qualifier = some name) (refused : isPlainName name = false) :
      Answers pages call pages (.rejected (.badNamespace name))

inductive PairMap.After : List Call → PairMap → Prop
  | nil : After [] ∅
  | cons {earlier : List Call} {call : Call} {pages later : PairMap} {answer : Answer} (before : After earlier pages)
      (answers : pages.Answers call later answer) : After (call :: earlier) later

theorem PairMap.exists_answers (pages : PairMap) (call : Call) : ∃ later answer, pages.Answers call later answer := by
  cases normal : normalize call.path none with
  | error fault => exact ⟨_, _, .abnormal normal⟩
  | ok uri =>
      by_cases qualifies : Qualifies call.qualifier
      · cases call with
        | register path qualifier typeName => exact ⟨_, _, .registered typeName normal qualifies⟩
        | unregister path qualifier => exact ⟨_, _, .unregistered normal qualifies⟩
      · obtain ⟨name, qualified, refused⟩ : ∃ name, call.qualifier = some name ∧ isPlainName name = false := by
          simpa [Qualifies] using qualifies
        exact ⟨_, _, .misplaced normal qualified refused⟩

theorem PairMap.exists_after (calls : List Call) : ∃ pages, PairMap.After calls pages := by
  induction calls with
  | nil => exact ⟨∅, .nil⟩
  | cons call earlier ih =>
      obtain ⟨pages, before⟩ := ih
      obtain ⟨later, answer, answers⟩ := pages.exists_answers call
      exact ⟨later, .cons before answers⟩

theorem isPair_of_address {path : String} {qualifier : Option String} {pair : String × Option String}
    (accepted : address path qualifier = .ok pair) : IsPair pair := by
  obtain ⟨normal, qualifies, same⟩ := qualified_eq_ok.mp accepted
  exact ⟨⟨path, none, normal⟩, same ▸ qualifies⟩

structure Represents (registry : Registry) (pages : PairMap) : Prop where
  distinct : registry.keys.Nodup
  pairs : ∀ pair ∈ pages, IsPair pair
  spelled : ∀ key ∈ registry.keys, ∃ pair ∈ pages, keyOf pair.1 pair.2 = key
  shown : ∀ pair, IsPair pair → registry.pages.lookup (keyOf pair.1 pair.2) = pages.lookup pair

variable {registry next : Registry} {pages later : PairMap} {pair : String × Option String}

theorem represents_empty : Represents {} ∅ where
  distinct := List.nodup_nil
  pairs pair member := absurd member Finmap.notMem_empty
  spelled key member := by cases member
  shown pair valid := by
    rw [Finmap.lookup_empty]
    rfl

theorem Represents.update (held : Represents registry pages) (valid : IsPair pair) {value : Option String}
    (distinct : next.keys.Nodup)
    (stored : ∀ key, next.pages.lookup key =
      if key = keyOf pair.1 pair.2 then value else registry.pages.lookup key)
    (mapped : ∀ other, later.lookup other = if other = pair then value else pages.lookup other) :
    Represents next later := by
  have shown (other : String × Option String) (valid' : IsPair other) :
      next.pages.lookup (keyOf other.1 other.2) = later.lookup other := by
    rw [stored, mapped]
    by_cases same : other = pair
    · rw [if_pos same, if_pos (by rw [same])]
    · rw [if_neg same, if_neg fun keys => same (keyOf_injective valid' valid keys)]
      exact held.shown other valid'
  have pairs : ∀ other ∈ later, IsPair other := by
    intro other member
    by_cases same : other = pair
    · exact same ▸ valid
    · apply held.pairs other
      rw [← Finmap.lookup_isSome, mapped, if_neg same] at member
      exact Finmap.lookup_isSome.mp member
  refine ⟨distinct, pairs, ?_, shown⟩
  intro key member
  -- a key is spelled by the pair itself, or by one that was there before
  by_cases same : key = keyOf pair.1 pair.2
  · refine ⟨pair, ?_, same.symm⟩
    rw [← Finmap.lookup_isSome, ← shown pair valid, ← same]
    exact mem_keys_iff.mp member
  · have before : key ∈ registry.keys := by
      rw [mem_keys_iff, stored, if_neg same] at member
      exact mem_keys_iff.mpr member
    obtain ⟨other, kept, spelled⟩ := held.spelled key before
    refine ⟨other, ?_, spelled⟩
    have valid' : IsPair other := held.pairs other kept
    rw [← Finmap.lookup_isSome, ← shown other valid', spelled]
    exact mem_keys_iff.mp member

theorem Represents.insert (held : Represents registry pages) (valid : IsPair pair) (typeName : String) :
    Represents (registry.insert (keyOf pair.1 pair.2) typeName) (pages.insert pair typeName) := by
  apply held.update valid (keys_insert_nodup held.distinct _ _) (lookup_insert registry _ _)
  intro other
  by_cases same : other = pair
  · rw [if_pos same, same, Finmap.lookup_insert]
  · rw [if_neg same, Finmap.lookup_insert_of_ne pages same]

theorem Represents.erase (held : Represents registry pages) (valid : IsPair pair) :
    Represents (registry.erase (keyOf pair.1 pair.2)) (pages.erase pair) := by
  apply held.update valid (keys_erase_nodup held.distinct _) (lookup_erase registry _)
  intro other
  by_cases same : other = pair
  · rw [if_pos same, same, Finmap.lookup_erase]
  · rw [if_neg same, Finmap.lookup_erase_ne same]

theorem perform_of_refused {call : Call} {fault : PathFault}
    (refused : address call.path call.qualifier = .error fault) :
    registry.perform call = (registry, .rejected fault) := by
  cases call with
  | register path qualifier typeName =>
      change address path qualifier = .error fault at refused
      simp only [perform, register, refused, bind, Except.bind]
  | unregister path qualifier =>
      change address path qualifier = .error fault at refused
      simp only [perform, unregister, refused, bind, Except.bind]

theorem Represents.perform {call : Call} {answer : Answer} (held : Represents registry pages)
    (answers : pages.Answers call later answer) :
    Represents (registry.perform call).1 later ∧ (registry.perform call).2 = answer := by
  cases answers with
  | @registered path uri qualifier typeName normal qualifies =>
      have accepted : address path qualifier = .ok (uri, qualifier) := qualified_eq_ok.mpr ⟨normal, qualifies, rfl⟩
      simp only [Registry.perform, register, accepted, bind, Except.bind, pure, Except.pure]
      exact ⟨held.insert (isPair_of_address accepted) typeName, trivial⟩
  | @unregistered path uri qualifier normal qualifies =>
      have accepted : address path qualifier = .ok (uri, qualifier) := qualified_eq_ok.mpr ⟨normal, qualifies, rfl⟩
      have valid : IsPair (uri, qualifier) := isPair_of_address accepted
      simp only [Registry.perform, unregister, accepted, bind, Except.bind, pure, Except.pure]
      exact ⟨held.erase valid, by rw [find?, held.shown _ valid]⟩
  | @abnormal _ fault abnormal =>
      have refused : address call.path call.qualifier = .error fault := by
        rw [address, abnormal]
        rfl
      rw [perform_of_refused refused]
      exact ⟨held, rfl⟩
  | @misplaced _ uri name normal qualified misplaced =>
      have refused : address call.path call.qualifier = .error (.badNamespace name) := by
        rw [address, normal, qualified]
        simp [checkNamespace, misplaced, bind, Except.bind]
      rw [perform_of_refused refused]
      exact ⟨held, rfl⟩

theorem represents_after {calls : List Call} (mapped : PairMap.After calls pages) : Represents (after calls) pages := by
  induction mapped with
  | nil => exact represents_empty
  | cons _ answers ih => exact (ih.perform answers).1

theorem Represents.size (held : Represents registry pages) : registry.size = pages.keys.card := by
  have image : registry.keys.toFinset = pages.keys.image fun pair => keyOf pair.1 pair.2 := by
    ext key
    rw [List.mem_toFinset, Finset.mem_image]
    constructor
    · intro member
      obtain ⟨pair, kept, spelled⟩ := held.spelled key member
      exact ⟨pair, Finmap.mem_keys.mpr kept, spelled⟩
    · rintro ⟨pair, kept, rfl⟩
      have kept : pair ∈ pages := Finmap.mem_keys.mp kept
      rw [mem_keys_iff, held.shown pair (held.pairs pair kept)]
      exact Finmap.lookup_isSome.mpr kept
  have injective : Set.InjOn (fun pair : String × Option String => keyOf pair.1 pair.2) pages.keys := by
    intro one kept other kept' same
    exact keyOf_injective (held.pairs one (Finmap.mem_keys.mp kept)) (held.pairs other (Finmap.mem_keys.mp kept')) same
  calc registry.size
    _ = registry.keys.length := (List.length_map Prod.fst).symm
    _ = registry.keys.toFinset.card := (List.toFinset_card_of_nodup held.distinct).symm
    _ = pages.keys.card := by rw [image, Finset.card_image_of_injOn injective]

theorem Represents.typeOf (held : Represents registry pages) (valid : IsPair pair) :
    registry.typeOf? pair.1 pair.2 = (pages.lookup pair).or (pages.lookup (pair.1, none)) := by
  have plain : IsPair (pair.1, none) := ⟨valid.canonical, fun name missing => by cases missing⟩
  have fallback : registry.find? pair.1 none = pages.lookup (pair.1, none) := held.shown _ plain
  rw [typeOf?, fallback]
  obtain ⟨uri, _ | name⟩ := pair
  · rw [Option.or_self]
    rfl
  · congr 1
    exact held.shown (uri, some name) valid

structure Follows (registry : Registry) (pages : PairMap) : Prop where
  finds : ∀ pair, IsPair pair → registry.find? pair.1 pair.2 = pages.lookup pair
  counts : registry.size = pages.keys.card
  answers : ∀ call later answer, pages.Answers call later answer → (registry.perform call).2 = answer
  refuses : ∀ call fault, (registry.perform call).2 = .rejected fault → (registry.perform call).1 = registry
  /-- the page of the key's namespace, else the one without a namespace, else no precompiled page -/
  resolves : ∀ roots files (key : Key) path uri, key.path = some path → normalize path key.context = .ok uri →
    Qualifies key.qualifier →
      match (pages.lookup (uri, key.qualifier)).or (pages.lookup (uri, none)) with
      | some typeName => Resolver.resolve ⟨roots, registry⟩ files key = .ok (some (.precompiled uri typeName))
      | none => ∀ page, Resolver.resolve ⟨roots, registry⟩ files key = .ok (some page) → page.isPrecompiled = false

theorem rejected_unchanged {call : Call} {fault : PathFault} (rejected : (registry.perform call).2 = .rejected fault) :
    (registry.perform call).1 = registry := by
  cases aimed : address call.path call.qualifier with
  | error fault => rw [perform_of_refused aimed]
  | ok pair =>
      cases call with
      | register path qualifier typeName =>
          change address path qualifier = .ok pair at aimed
          simp [perform, register, aimed, bind, Except.bind, pure, Except.pure] at rejected
      | unregister path qualifier =>
          change address path qualifier = .ok pair at aimed
          simp [perform, unregister, aimed, bind, Except.bind, pure, Except.pure] at rejected

theorem Represents.resolves (held : Represents registry pages) {roots : List String} {files : String → Probe}
    {key : Key} {path uri : String} (asked : key.path = some path) (normal : normalize path key.context = .ok uri)
    (qualifies : Qualifies key.qualifier) :
    match (pages.lookup (uri, key.qualifier)).or (pages.lookup (uri, none)) with
    | some typeName => Resolver.resolve ⟨roots, registry⟩ files key = .ok (some (.precompiled uri typeName))
    | none => ∀ page, Resolver.resolve ⟨roots, registry⟩ files key = .ok (some page) → page.isPrecompiled = false := by
  -- the resolver asks for the very pair that the map is asked for
  have aimed : Resolver.target key = .ok (uri, key.qualifier) :=
    Resolver.target_eq_ok.mpr ⟨⟨path, asked, normal⟩, qualifies, rfl⟩
  have valid : IsPair (uri, key.qualifier) := ⟨⟨path, key.context, normal⟩, qualifies⟩
  have type := held.typeOf valid
  simp only [Resolver.resolve, aimed, type]
  cases (pages.lookup (uri, key.qualifier)).or (pages.lookup (uri, none)) with
  | some typeName => rfl
  | none => exact fun page found => Resolver.not_precompiled_of_found found

/-- Different pairs never share a key, and after any calls the registry behaves as the finite map does. -/
theorem registry_is_map_on_pairs :
    (∀ one other, IsPair one → IsPair other → keyOf one.1 one.2 = keyOf other.1 other.2 → one = other) ∧
      ∀ calls, (∃ pages, PairMap.After calls pages) ∧
        ∀ pages, PairMap.After calls pages → Follows (after calls) pages := by
  refine ⟨fun one other => keyOf_injective, fun calls => ⟨PairMap.exists_after calls, ?_⟩⟩
  intro pages mapped
  have held : Represents (after calls) pages := represents_after mapped
  exact {
    finds := held.shown
    counts := held.size
    answers := fun call later answer answers => (held.perform answers).2
    refuses := fun call fault => rejected_unchanged
    resolves := fun roots files key path uri => held.resolves }

/-- The separator stands in the namespace of one page and in the URI of the other. -/
def twoPages : List Call := [.register "b:/show" (some "a") "Other", .register "show" (some "a:b") "Show"]

theorem separators_do_not_collide : ∃ pages, PairMap.After twoPages pages ∧
    pages.lookup ("/show.gsp", some "a:b") = some "Show" ∧ (after twoPages).size = 2 ∧
      ((after twoPages).perform (.unregister " /show.gsp" (some "a:b"))).2 = .unregistered true ∧
        ∀ roots files, Resolver.resolve ⟨roots, after twoPages⟩ files ⟨some "show", some "a:b", none⟩ =
          .ok (some (.precompiled "/show.gsp" "Show")) := by
  have plain : Qualifies (some "a:b") := fun name given => by cases given; decide
  have plainToo : Qualifies (some "a") := fun name given => by cases given; decide
  have mapped : PairMap.After twoPages
      ((Finmap.insert ("/show.gsp", some "a:b") "Show" ∅).insert ("/b:/show.gsp", some "a") "Other") :=
    .cons (.cons .nil (.registered "Show" (by decide) plain)) (.registered "Other" (by decide) plainToo)
  obtain ⟨-, every⟩ := registry_is_map_on_pairs
  have follows := (every twoPages).2 _ mapped
  have padded : normalize " /show.gsp" none = .ok "/show.gsp" := by decide
  have asked : normalize "show" none = .ok "/show.gsp" := by decide
  exact ⟨_, mapped, by decide, follows.counts, follows.answers _ _ _ (.unregistered padded plain),
    fun roots files => follows.resolves roots files ⟨some "show", some "a:b", none⟩ _ _ rfl asked plain⟩

end ViewCache.Registry
