import ViewCache.Command
import ViewCache.Proofs.Command.Report
import ViewCache.Proofs.Locator.Tally
import ViewCache.Proofs.Text.Split

/-!
A search from the command line, over files that stay as they are. Each view is found just as the resolver finds it
when it is asked directly, and the cache counts as many lookups as there were; or some view fails, and nothing is
printed but the complaint.
-/
namespace ViewCache.Command

open Locator (Answered Wanted)

/-! ### What is asked for -/

def wanted (options : LocateOptions) (view : String) : Wanted :=
  if options.template then .template options.controller view options.qualifier
  else .view options.controller view options.qualifier

theorem cacheKey_wanted (options : LocateOptions) (view : String) :
    (wanted options view).cacheKey = keyOf options view := by
  rw [wanted, keyOf]
  split <;> rfl

/-- The pages are registered one after another. The first equals sign stands between a URI and its type. -/
inductive Registers (qualifier : Option String) : List String → Registry → Registry → Prop
  | nil {registry : Registry} : Registers qualifier [] registry registry
  | cons {registry next last : Registry} {uri typeName : String} {rest : List String} (first : '=' ∉ uri.toList)
      (accepted : registry.register uri qualifier typeName = .ok next) (more : Registers qualifier rest next last) :
      Registers qualifier ((uri ++ "=" ++ typeName) :: rest) registry last

theorem registerAll_eq_ok {qualifier : Option String} {specs : List String} {registry last : Registry} :
    registerAll qualifier specs registry = .ok last ↔ Registers qualifier specs registry last := by
  constructor
  · induction specs generalizing registry with
    | nil =>
        rintro ⟨⟩
        exact .nil
    | cons spec rest ih =>
        intro accepted
        rw [registerAll] at accepted
        cases cut : Text.cutOnce '=' spec.toList with
        | none =>
            rw [cut] at accepted
            cases accepted
        | some parts =>
            obtain ⟨uri, typeName⟩ := parts
            obtain ⟨whole, first⟩ := Text.cutOnce_eq_some.mp cut
            have spelled : spec = String.ofList uri ++ "=" ++ String.ofList typeName := by
              apply String.toList_injective
              simp [whole]
            simp only [cut] at accepted
            cases registered : registry.register (String.ofList uri) qualifier (String.ofList typeName) with
            | error fault =>
                rw [registered] at accepted
                cases accepted
            | ok next =>
                rw [registered] at accepted
                rw [spelled]
                exact .cons (by rwa [String.toList_ofList]) registered (ih accepted)
  · intro registers
    induction registers with
    | nil => rfl
    | @cons registry next last uri typeName rest first accepted more ih =>
        have cut : Text.cutOnce '=' (uri ++ "=" ++ typeName).toList = some (uri.toList, typeName.toList) :=
          Text.cutOnce_eq_some.mpr ⟨by simp, first⟩
        simp only [registerAll, cut, String.ofList_toList, accepted]
        exact ih

/-! ### The lookups -/

theorem repetitions_ne_zero (options : LocateOptions) : max 1 options.repetitions ≠ 0 := by omega

def lookedUp (options : LocateOptions) (views : List String) : List Key :=
  views.flatMap fun view => List.replicate (max 1 options.repetitions) (keyOf options view)

section

variable {config : LocatorConfig} {resolve : Key → Resolution} (clock : Nat → Clock) {options : LocateOptions}
  {looked : List Key} {search : Search} {key : Key} {page : Option Page} {failure : Failure}

theorem Search.look_of_answered (answered : Answered config resolve looked search.locator)
    (answer : resolve key = .ok page) : ∃ next, search.look resolve clock key = (next, .ok page) ∧
      Answered config resolve (key :: looked) next.locator := by
  obtain ⟨told, after⟩ := answered.lookup answer (clock search.readings) (clock (search.readings + 1))
  exact ⟨_, Prod.ext rfl told, after⟩

theorem Search.look_of_failed (answered : Answered config resolve looked search.locator)
    (answer : resolve key = .error failure) :
    ∃ next, search.look resolve clock key = (next, .error failure) :=
  ⟨_, Prod.ext rfl (answered.lookup_failed answer (clock search.readings) (clock (search.readings + 1)))⟩

theorem Search.lookRepeatedly_of_answered (answer : resolve key = .ok page) (times : Nat)
    (answered : Answered config resolve looked search.locator) (previous : Option Page) :
    ∃ last, search.lookRepeatedly resolve clock key times previous = .ok (last, if times = 0 then previous else page) ∧
      Answered config resolve (List.replicate times key ++ looked) last.locator := by
  -- on the lookups to come: each adds the key to those that the locator accounts for
  induction times generalizing search looked previous with
  | zero => exact ⟨search, rfl, answered⟩
  | succ times ih =>
      obtain ⟨next, told, after⟩ := look_of_answered clock answered answer
      obtain ⟨last, found, afterAll⟩ := ih after page
      refine ⟨last, ?_, ?_⟩
      · rw [lookRepeatedly, told]
        simpa using found
      · rwa [List.replicate_succ', List.append_assoc, List.singleton_append]

theorem Search.lookRepeatedly_of_failed (answer : resolve key = .error failure) {times : Nat} (often : times ≠ 0)
    (answered : Answered config resolve looked search.locator) (previous : Option Page) :
    search.lookRepeatedly resolve clock key times previous = .error failure := by
  obtain ⟨times, rfl⟩ := Nat.exists_eq_succ_of_ne_zero often
  obtain ⟨next, told⟩ := look_of_failed clock answered answer
  rw [lookRepeatedly, told]

theorem Search.lookAll_of_answered {views : List String}
    (answers : ∀ view ∈ views, ∃ page, resolve (keyOf options view) = .ok page)
    (answered : Answered config resolve looked search.locator) :
    ∃ last results, search.lookAll resolve clock options views = .ok (last, results) ∧
      List.Forall₂ (fun view result => result.1 = view ∧ resolve (keyOf options view) = .ok result.2) views results ∧
      Answered config resolve ((lookedUp options views).reverse ++ looked) last.locator := by
  -- on the views to come, with what was looked up so far
  induction views generalizing search looked with
  | nil => exact ⟨search, [], rfl, .nil, answered⟩
  | cons view views ih =>
      obtain ⟨⟨page, answer⟩, answers⟩ := List.forall_mem_cons.mp answers
      obtain ⟨next, found, after⟩ :=
        lookRepeatedly_of_answered clock answer (max 1 options.repetitions) answered none
      obtain ⟨last, results, foundAll, each, afterAll⟩ := ih answers after
      refine ⟨last, (view, page) :: results, ?_, .cons ⟨rfl, answer⟩ each, ?_⟩
      · rw [if_neg (repetitions_ne_zero options)] at found
        simp [lookAll, found, foundAll, Except.mapError, bind, Except.bind, pure, Except.pure]
      · simpa [lookedUp] using afterAll

theorem Search.lookAll_of_failed {before : List String} {view : String} (after : List String)
    (answers : ∀ other ∈ before, ∃ page, resolve (keyOf options other) = .ok page)
    (fails : resolve (keyOf options view) = .error failure)
    (answered : Answered config resolve looked search.locator) :
    search.lookAll resolve clock options (before ++ view :: after) =
      .error (Complaint.ofFailure s!"Failed to locate '{view}'" failure) := by
  induction before generalizing search looked with
  | nil =>
      have stopped := lookRepeatedly_of_failed clock fails (repetitions_ne_zero options) answered none
      simp [lookAll, stopped, Except.mapError, bind, Except.bind]
  | cons other before ih =>
      obtain ⟨⟨page, answer⟩, answers⟩ := List.forall_mem_cons.mp answers
      obtain ⟨next, found, ended⟩ :=
        lookRepeatedly_of_answered clock answer (max 1 options.repetitions) answered none
      simp [lookAll, found, ih answers ended, Except.mapError, bind, Except.bind]

end

/-! ### The keys of all lookups -/

section

variable {options : LocateOptions} {views : List String}

theorem length_lookedUp : (lookedUp options views).length = views.length * max 1 options.repetitions := by
  simp [lookedUp, List.length_flatMap]

theorem toFinset_lookedUp : (lookedUp options views).toFinset = (views.map (keyOf options)).toFinset := by
  ext key
  simp [lookedUp, repetitions_ne_zero options, eq_comm]

end

/-! ### The command -/

section

variable (around : Surroundings) (options : LocateOptions) (config : LocatorConfig) (direct : String → Resolution)

structure Located.Accounts (located : Located) : Prop where
  results : List.Forall₂ (fun view result => result.1 = view ∧ direct view = .ok result.2) options.views located.results
  lookups : located.stats.lookups = options.views.length * max 1 options.repetitions
  others : located.stats.counters.stale = 0 ∧ located.stats.counters.coalesced = 0 ∧ located.stats.counters.failed = 0
  entries : located.stats.entries = (options.views.map fun view => (wanted options view).cacheKey).toFinset.card
  initialized : located.stats.initializedEntries = located.stats.entries
  computed : located.stats.entries ≤ located.stats.counters.computed
  once : config.reload = false ∨ config.timeout < 0 → located.stats.counters.computed = located.stats.entries
  always : config.effectiveTimeout = 0 → located.stats.counters.computed = located.stats.lookups

structure AnswersAsResolver : Prop where
  fails : (∃ view ∈ options.views, ∃ failure, direct view = .error failure) →
    ∃ before view after failure, options.views = before ++ view :: after ∧
      (∀ other ∈ before, ∃ page, direct other = .ok page) ∧ direct view = .error failure ∧
      conclude (runLocate around options) =
        { code := 1, output := "", errors := (Complaint.ofFailure s!"Failed to locate '{view}'" failure).text }
  reports : (∀ view ∈ options.views, ∃ page, direct view = .ok page) →
    ∃ located output, locate around options config = .ok located ∧ located.Accounts options config direct ∧
      Prints direct options.views located.stats options.json output ∧
      conclude (runLocate around options) = { code := 0, output }

end

section

variable {around : Surroundings} {options : LocateOptions} {config : LocatorConfig} {registry : Registry}

theorem accounts_of_answered {resolve : Key → Resolution} {locator : Locator} {results : List (String × Option Page)}
    (each : List.Forall₂ (fun view result => result.1 = view ∧ resolve (keyOf options view) = .ok result.2)
      options.views results)
    (answered : Answered config resolve (lookedUp options options.views).reverse locator) :
    (Located.mk results locator.stats).Accounts options config fun view => resolve (keyOf options view) := by
  have distinct : (lookedUp options options.views).reverse.toFinset = (options.views.map (keyOf options)).toFinset := by
    rw [List.toFinset_reverse, toFinset_lookedUp]
  have number : (lookedUp options options.views).reverse.length = options.views.length * max 1 options.repetitions := by
    rw [List.length_reverse, length_lookedUp]
  have stats := answered.stats
  obtain ⟨total, others⟩ := answered.tallied.total
  rw [distinct] at stats
  rw [number] at total
  rw [stats]
  exact {
    results := each
    lookups := by
      simp only [CacheStats.lookups, CacheStats.hits]
      omega
    others
    entries := by rw [funext (cacheKey_wanted options)]
    initialized := rfl
    computed := by
      rw [← distinct]
      exact answered.tallied.distinct_le
    once := by
      intro forever
      rw [← distinct]
      refine answered.tallied.once ?_
      rcases forever with off | negative
      · simp [LocatorConfig.effectiveTimeout, off, Timeout.forever]
      · rw [LocatorConfig.effectiveTimeout]
        split
        · exact negative
        · decide
    always := by
      intro never
      have computed := answered.tallied.always never
      rw [number] at computed
      simp only [CacheStats.lookups, CacheStats.hits]
      omega }

theorem exists_first_failure {direct : String → Resolution} {views : List String}
    (fails : ∃ view ∈ views, ∃ failure, direct view = .error failure) :
    ∃ before view after failure, views = before ++ view :: after ∧
      (∀ other ∈ before, ∃ page, direct other = .ok page) ∧ direct view = .error failure := by
  induction views with
  | nil => simp at fails
  | cons view views ih =>
      cases told : direct view with
      | error failure => exact ⟨[], view, views, failure, rfl, by simp, told⟩
      | ok page =>
          obtain ⟨before, other, after, failure, rfl, answers, failed⟩ := ih (by simpa [told] using fails)
          exact ⟨view :: before, other, after, failure, rfl, List.forall_mem_cons.mpr ⟨⟨page, told⟩, answers⟩, failed⟩

/-- The files do not change while the command runs; the clocks may show anything. -/
theorem search_answers_as_resolver (loaded : loadConfig around options = .ok config)
    (accepted : Registers options.qualifier options.precompiled {} registry) :
    AnswersAsResolver around options config fun view =>
      (⟨options.roots, registry⟩ : Resolver).resolve around.files (wanted options view).cacheKey := by
  let resolver : Resolver := ⟨options.roots, registry⟩
  have begun : Answered config (resolver.resolve around.files) [] (⟨Locator.new config .wall, 0⟩ : Search).locator :=
    .of_new
  have registered := registerAll_eq_ok.mpr accepted
  simp only [cacheKey_wanted]
  constructor
  case fails =>
    intro fails
    obtain ⟨before, view, after, failure, split, answers, failed⟩ := exists_first_failure fails
    refine ⟨before, view, after, failure, split, answers, failed, ?_⟩
    have stopped := Search.lookAll_of_failed around.clock after answers failed begun
    rw [← split] at stopped
    simp [runLocate, loaded, locate, registered, stopped, bind, Except.bind, conclude]
  case reports =>
    intro answers
    obtain ⟨last, results, found, each, answered⟩ := Search.lookAll_of_answered around.clock answers begun
    rw [List.append_nil] at answered
    have reached : locate around options config = .ok ⟨results, last.locator.stats⟩ := by
      simp [locate, registered, found, bind, Except.bind, pure, Except.pure]
    have accounts := accounts_of_answered each answered
    refine ⟨_, _, reached, accounts, prints_results accounts.results accounts.others options.json, ?_⟩
    simp only [runLocate, loaded, reached, bind, Except.bind, pure, Except.pure, conclude]

/-- One file, found under two names, and a page that is registered. -/
def shelf : Surroundings where
  files path := if path = "app/views/book/list.gsp" then .file 7 else .fault .notFound
  readText _ := .error .notFound
  environment _ := none
  clock n := { wall := n }

def shelfSearch : LocateOptions where
  views := ["list", "/layouts/main", "list.gsp"]
  roots := ["app"]
  controller := some "book"
  precompiled := ["/layouts/main=MainLayout"]
  noReload := true
  repetitions := 2

def shelfResolver : Resolver := ⟨["app"], ⟨[("/layouts/main.gsp", "MainLayout")]⟩⟩

theorem shelf_is_searched : conclude (runLocate shelf shelfSearch) = { code := 0, output :=
    "✓ list -> app/views/book/list.gsp\n✓ /layouts/main -> /layouts/main.gsp [MainLayout]\n" ++
    "✓ list.gsp -> app/views/book/list.gsp\n\nCache:\n   Entries: 2\n   Resolutions: 2\n   Hits: 4\n" } := by
  have loaded : loadConfig shelf shelfSearch = .ok { reload := false } := rfl
  have accepted : Registers shelfSearch.qualifier shelfSearch.precompiled {} shelfResolver.registry :=
    registerAll_eq_ok.mp rfl
  have search := search_answers_as_resolver loaded accepted
  have list : shelfResolver.resolve shelf.files (wanted shelfSearch "list").cacheKey =
      .ok (some (.resource "/book/list.gsp" "app/views/book/list.gsp" 7)) := rfl
  have main : shelfResolver.resolve shelf.files (wanted shelfSearch "/layouts/main").cacheKey =
      .ok (some (.precompiled "/layouts/main.gsp" "MainLayout")) := rfl
  have again : shelfResolver.resolve shelf.files (wanted shelfSearch "list.gsp").cacheKey =
      .ok (some (.resource "/book/list.gsp" "app/views/book/list.gsp" 7)) := rfl
  have answers : ∀ view ∈ shelfSearch.views, ∃ page,
      shelfResolver.resolve shelf.files (wanted shelfSearch view).cacheKey = .ok page := by
    simp only [shelfSearch, List.forall_mem_cons]
    exact ⟨⟨_, list⟩, ⟨_, main⟩, ⟨_, again⟩, List.forall_mem_nil _⟩
  obtain ⟨located, output, reached, accounts, printed, concluded⟩ := search.reports answers
  have entries : located.stats.entries = 2 := accounts.entries.trans (by decide)
  have computed : located.stats.counters.computed = 2 := (accounts.once (.inl rfl)).trans entries
  have fresh : located.stats.counters.fresh = 4 := by
    have lookups : located.stats.lookups = 6 := accounts.lookups
    have others := accounts.others
    simp only [CacheStats.lookups, CacheStats.hits] at lookups
    omega
  have asLines : shelfSearch.json = false := rfl
  have counted : counterLines located.stats = "\nCache:\n   Entries: 2\n   Resolutions: 2\n   Hits: 4\n" := by
    unfold counterLines
    rewrite [entries, computed, fresh]
    decide +kernel
  rw [asLines] at printed
  rw [concluded]
  cases printed with
  | lines each =>
      rcases each with _ | ⟨⟨_, first, one⟩, _ | ⟨⟨_, second, two⟩, _ | ⟨⟨_, third, three⟩, ⟨⟩⟩⟩⟩
      cases list.symm.trans first
      cases main.symm.trans second
      cases again.symm.trans third
      cases one
      cases two
      cases three
      rewrite [counted]
      decide +kernel

end

end ViewCache.Command
