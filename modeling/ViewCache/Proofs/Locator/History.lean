import ViewCache.Locator
import ViewCache.Proofs.Cache.Alone
import ViewCache.Proofs.Entry.Sequence

/-!
Lookups, invalidations and clearings made one after another on a view locator, while its resolver may change
its answers. What the locator has cached for a key can be read off the calls before: it is the last answer to
that key since the key was removed, failures aside.
-/
namespace ViewCache.Locator

inductive Wanted
  | key (key : Key)
  | page (uri : String) (qualifier : Option String)
  | view (controller : Option String) (view : String) (qualifier : Option String)
  | template (controller : Option String) (name : String) (qualifier : Option String)

def Wanted.cacheKey : Wanted → Key
  | key asked => asked
  | page uri qualifier => .ofPage uri qualifier
  | view controller name qualifier => .ofView controller name qualifier
  | template controller name qualifier => .ofTemplate controller name qualifier

inductive Action
  | lookup (wanted : Wanted)
  | invalidate (key : Key)
  | clear

structure Turn where
  action : Action
  answers : Key → Resolution
  clock : Clock
  /-- the clocks when the turn is over, and the resolver has answered if it was asked -/
  later : Clock

namespace Turn

def play (turn : Turn) (locator : Locator) : Locator × Option (Resolution × Bool) :=
  match turn.action with
  | .lookup wanted =>
    let (locator, told) := locator.lookup wanted.cacheKey (turn.answers wanted.cacheKey) turn.clock turn.later
    (locator, some told)
  | .invalidate key => ((locator.invalidate key).1, none)
  | .clear => (locator.clear, none)

def removes (turn : Turn) (key : Key) : Bool :=
  match turn.action with
  | .lookup _ => false
  | .invalidate gone => gone == key
  | .clear => true

def asks (turn : Turn) (key : Key) (locator : Locator) : Bool :=
  match turn.action, (turn.play locator).2 with
  | .lookup wanted, some (_, asked) => wanted.cacheKey == key && asked
  | _, _ => false

end Turn

def refreshed (last? : Option (Entry.Standing (Option Page))) (reading : Int) :
    Resolution → Option (Entry.Standing (Option Page))
  | .ok page => some ⟨page, reading, false⟩
  | .error _ => last?

section

variable (config : LocatorConfig) (source : TimeSource)

def afterTurns : List Turn → Locator
  | [] => .new config source
  | turn :: earlier => (turn.play (afterTurns earlier)).1

def standing (key : Key) : List Turn → Option (Entry.Standing (Option Page))
  | [] => none
  | turn :: earlier =>
    if turn.removes key then none
    else if turn.asks key (afterTurns config source earlier) then
      refreshed (standing key earlier) (turn.later.now source) (turn.answers key)
    else standing key earlier

/-- The resolver is asked at this reading of the clock. -/
def Due (last? : Option (Entry.Standing (Option Page))) (now : Int) : Prop :=
  config.effectiveTimeout = 0 ∨
    Entry.Unserved pagePolicy last? ⟨(), config.effectiveTimeout, config.tolerant⟩ now

/-- Every key has an entry of its own, which shows what is cached for it; there is nothing else to a locator. -/
structure Shows (locator : Locator) (cached : Key → Option (Entry.Standing (Option Page))) : Prop where
  configured : locator.cache.config = config.cacheConfig
  pinning : locator.cache.policy = pagePolicy
  measured : locator.cache.source = source
  missing : ∀ {key}, locator.cache.store.find? key = none → cached key = none
  shown : ∀ {key id}, locator.cache.store.find? key = some id →
    locator.cache.store.entry? id = some (Entry.showing pagePolicy source (cached key))
  apart : ∀ {key other id}, locator.cache.store.find? key = some id →
    locator.cache.store.find? other = some id → key = other

end

variable {config : LocatorConfig} {source : TimeSource} {locator : Locator}
  {cached : Key → Option (Entry.Standing (Option Page))}

theorem Shows.of_new : Shows config source (new config source) fun _ => none := by
  constructor
  case missing => exact fun _ => rfl
  case shown | apart => simp [new, Store.find?]
  all_goals rfl

theorem Shows.entered (shows : Shows config source locator cached) {key : Key} {store : Store Key (Option Page) Unit}
    {id : EntryId} (entered : locator.cache.store.insertIfAbsent key locator.cache.newEntry = (store, id)) :
    Shows config source { locator with cache := { locator.cache with store } } cached ∧ store.find? key = some id := by
  cases found : locator.cache.store.find? key with
  | some held =>
      simp only [Store.insertIfAbsent, found, Prod.mk.injEq] at entered
      obtain ⟨rfl, rfl⟩ := entered
      exact ⟨shows, found⟩
  | none =>
      simp only [Store.insertIfAbsent, found, Prod.mk.injEq] at entered
      obtain ⟨rfl, rfl⟩ := entered
      have below {other : Key} {id : EntryId} (held : locator.cache.store.find? other = some id) :
          id < locator.cache.store.entries.size :=
        (Array.getElem?_eq_some_iff.mp (shows.shown held)).1
      refine ⟨⟨shows.configured, shows.pinning, shows.measured, ?_, ?_, ?_⟩, ?_⟩
      · intro other absent
        rw [Store.find?_insert] at absent
        split at absent
        · cases absent
        · exact shows.missing absent
      · intro other id held
        rw [Store.find?_insert] at held
        split at held
        case isTrue same =>
          cases held
          have empty : locator.cache.newEntry = Entry.showing pagePolicy source none := by
            rw [Cache.newEntry, shows.pinning, shows.measured]
            rfl
          rw [← same, shows.missing found, ← empty]
          exact Array.getElem?_push_size
        case isFalse =>
          have old : id ≠ locator.cache.store.entries.size := Nat.ne_of_lt (below held)
          have shown := shows.shown held
          unfold Store.entry? at shown ⊢
          simpa [Array.getElem?_push, old] using shown
      · intro first second id held heldToo
        rw [Store.find?_insert] at held heldToo
        split at held <;> split at heldToo
        case isTrue.isTrue same sameToo => exact same.symm.trans sameToo
        case isFalse.isFalse => exact shows.apart held heldToo
        case isTrue.isFalse =>
          cases held
          exact absurd (below heldToo) (Nat.lt_irrefl _)
        case isFalse.isTrue =>
          cases heldToo
          exact absurd (below held) (Nat.lt_irrefl _)
      · rw [Store.find?_insert, if_pos rfl]

theorem Shows.answered (shows : Shows config source locator cached) {key : Key} {id : EntryId}
    (found : locator.cache.store.find? key = some id) (next? : Option (Entry.Standing (Option Page)))
    (reply : Reply (Option Page) Failure) :
    Shows config source
      { locator with cache := Cache.answered locator.cache id (Entry.showing pagePolicy source next?) reply }
      (Function.update cached key next?) := by
  refine ⟨shows.configured, shows.pinning, shows.measured, ?_, ?_, shows.apart⟩
  · intro other absent
    have different : other ≠ key := by
      rintro rfl
      simp [Cache.answered, Store.find?_set, found] at absent
    rw [Function.update_of_ne different]
    exact shows.missing absent
  · intro other held at_other
    by_cases same : other = key
    · subst same
      cases found.symm.trans at_other
      rw [Function.update_self]
      exact Store.entry?_set_self (shows.shown found)
    · have different : held ≠ id := fun here => same (shows.apart at_other (here ▸ found))
      rw [Function.update_of_ne same]
      exact (Store.entry?_set_of_ne _ _ different).trans (shows.shown at_other)

theorem Shows.removed (shows : Shows config source locator cached) (key : Key) :
    Shows config source (locator.invalidate key).1 (Function.update cached key none) := by
  have kept {other : Key} {id : EntryId} (held : (locator.invalidate key).1.cache.store.find? other = some id) :
      key ≠ other ∧ locator.cache.store.find? other = some id := by
    have removed : (locator.cache.store.remove key).find? other = some id := held
    rwa [Store.find?_remove, Option.ite_none_left_eq_some] at removed
  refine ⟨shows.configured, shows.pinning, shows.measured, ?_, ?_, ?_⟩
  · intro other absent
    by_cases same : key = other
    · rw [same, Function.update_self]
    · have absent : (locator.cache.store.remove key).find? other = none := absent
      rw [Store.find?_remove, if_neg same] at absent
      rw [Function.update_of_ne (Ne.symm same)]
      exact shows.missing absent
  · intro other id held
    obtain ⟨different, before⟩ := kept held
    rw [Function.update_of_ne (Ne.symm different)]
    exact shows.shown before
  · exact fun held heldToo => shows.apart (kept held).2 (kept heldToo).2

theorem Shows.cleared (shows : Shows config source locator cached) :
    Shows config source locator.clear fun _ => none := by
  refine ⟨shows.configured, shows.pinning, shows.measured, fun _ => rfl, ?_, ?_⟩
  all_goals simp [clear, Cache.clear, Store.clear, Store.find?]

theorem showing_source (last? : Option (Entry.Standing (Option Page))) :
    (Entry.showing pagePolicy source last?).source = source := by
  cases last? <;> rfl

theorem updated_showing (last? : Option (Entry.Standing (Option Page))) (reading : Int) (answer : Resolution) :
    Call.updated (Entry.showing pagePolicy source last?) reading answer =
      Entry.showing pagePolicy source (refreshed last? reading answer) := by
  cases answer <;> cases last? <;> rfl

theorem Shows.lookup_eq (shows : Shows config source locator cached) (key : Key) (answer : Resolution)
    (clock later : Clock) : ∃ store id next? reply,
      locator.cache.store.insertIfAbsent key locator.cache.newEntry = (store, id) ∧
      locator.lookup key answer clock later =
        ({ locator with cache :=
            Cache.answered { locator.cache with store } id (Entry.showing pagePolicy source next?) reply },
          resolutionOf reply, reply.ran) ∧
      ((Due config (cached key) (clock.now source) ∧ reply = Entry.ownReply answer ∧
          next? = refreshed (cached key) (later.now source) answer) ∨
        ∃ last, cached key = some last ∧ ¬ Due config (cached key) (clock.now source) ∧
          reply = .answered last.value .fresh ∧ next? = cached key) := by
  obtain ⟨⟨store, id⟩, entered⟩ : ∃ pair, locator.cache.store.insertIfAbsent key locator.cache.newEntry = pair :=
    ⟨_, rfl⟩
  obtain ⟨inside, found⟩ := shows.entered entered
  have known := inside.shown found
  have query : locator.cache.query () = ⟨(), config.effectiveTimeout, config.tolerant⟩ := by
    rw [Cache.query, shows.configured]
    rfl
  -- a run of the lookup on the key's entry alone is one through the cache
  have through {last : Entry (Option Page) Unit} {reply : Reply (Option Page) Failure} {updates : Nat}
      (run : Call.runCounted answer (later.now source) Call.manySteps (clock.now source)
        (Entry.showing pagePolicy source (cached key))
        (Call.start (.lookup ⟨(), config.effectiveTimeout, config.tolerant⟩)) =
        ((last, ⟨.lookup ⟨(), config.effectiveTimeout, config.tolerant⟩, .done reply⟩), updates)) :
      locator.lookup key answer clock later =
        ({ locator with cache := Cache.answered { locator.cache with store } id last reply },
          resolutionOf reply, reply.ran) := by
    have performed : (Entry.showing pagePolicy source (cached key)).perform (.lookup (locator.cache.query ())) answer
        (clock.now (Entry.showing pagePolicy source (cached key)).source)
        (later.now (Entry.showing pagePolicy source (cached key)).source) = (last, some reply) := by
      rw [showing_source, query, Entry.perform, ← Call.runCounted_fst, run]
      rfl
    rw [Locator.lookup, Cache.lookup, Cache.lookupOr_eq entered known performed]
  rcases Entry.runCounted_lookup source (cached key) ⟨(), config.effectiveTimeout, config.tolerant⟩ answer
    (clock.now source) (later.now source) with ⟨due, run⟩ | ⟨last, held, served, run⟩
  · rw [updated_showing] at run
    exact ⟨store, id, _, _, entered, through run, .inl ⟨due, rfl, rfl⟩⟩
  · exact ⟨store, id, _, _, entered, through run, .inr ⟨last, held, served, rfl, rfl⟩⟩

theorem Shows.lookup (shows : Shows config source locator cached) (key : Key) (answer : Resolution)
    (clock later : Clock) :
    (Due config (cached key) (clock.now source) ∧ (locator.lookup key answer clock later).2 = (answer, true) ∧
        Shows config source (locator.lookup key answer clock later).1
          (Function.update cached key (refreshed (cached key) (later.now source) answer))) ∨
      ∃ last, cached key = some last ∧ ¬ Due config (cached key) (clock.now source) ∧
        (locator.lookup key answer clock later).2 = (.ok last.value, false) ∧
        Shows config source (locator.lookup key answer clock later).1 cached := by
  obtain ⟨store, id, next?, reply, entered, run, outcome⟩ := shows.lookup_eq key answer clock later
  obtain ⟨inside, found⟩ := shows.entered entered
  rw [run]
  rcases outcome with ⟨due, rfl, rfl⟩ | ⟨last, held, served, rfl, rfl⟩
  · refine .inl ⟨due, ?_, inside.answered found _ _⟩
    cases answer <;> rfl
  · refine .inr ⟨last, held, served, rfl, ?_⟩
    have same := inside.answered found (cached key) (.answered last.value .fresh)
    rwa [Function.update_eq_self] at same

theorem Shows.entry_of_lookup (shows : Shows config source locator cached) (key : Key) (answer : Resolution)
    (clock later : Clock) :
    ∃ id, (locator.lookup key answer clock later).1.cache.store.find? key = some id := by
  obtain ⟨store, id, _, _, entered, run, -⟩ := shows.lookup_eq key answer clock later
  obtain ⟨-, found⟩ := shows.entered entered
  rw [run]
  exact ⟨id, found⟩

theorem standing_of_lookup {turn : Turn} {wanted : Wanted} (looksUp : turn.action = .lookup wanted)
    {earlier : List Turn} {told : Resolution} {asked : Bool}
    (answered : (turn.play (afterTurns config source earlier)).2 = some (told, asked)) (key : Key) :
    standing config source key (turn :: earlier) =
      if key = wanted.cacheKey ∧ asked = true then
        refreshed (standing config source key earlier) (turn.later.now source) (turn.answers key)
      else standing config source key earlier := by
  have keeps : turn.removes key = false := by simp [Turn.removes, looksUp]
  have asks : turn.asks key (afterTurns config source earlier) = (wanted.cacheKey == key && asked) := by
    simp only [Turn.asks, looksUp, answered]
  have swap : (wanted.cacheKey == key && asked) = true ↔ key = wanted.cacheKey ∧ asked = true := by
    rw [Bool.and_eq_true, beq_iff_eq]
    exact and_congr_left' eq_comm
  rw [standing, if_neg (by simp [keeps]), asks]
  exact if_congr swap rfl rfl

theorem play_of_lookup {turn : Turn} {wanted : Wanted} (looksUp : turn.action = .lookup wanted) (locator : Locator) :
    turn.play locator =
      ((locator.lookup wanted.cacheKey (turn.answers wanted.cacheKey) turn.clock turn.later).1,
        some (locator.lookup wanted.cacheKey (turn.answers wanted.cacheKey) turn.clock turn.later).2) := by
  simp only [Turn.play, looksUp]

variable (config source) in
theorem shows_standing (turns : List Turn) :
    Shows config source (afterTurns config source turns) fun key => standing config source key turns := by
  -- on the turns: a lookup that asks writes under its key, and all else leaves entries as they are or takes them out
  induction turns with
  | nil => exact .of_new
  | cons turn earlier ih =>
      cases action : turn.action with
      | lookup wanted =>
          have played := play_of_lookup action (afterTurns config source earlier)
          have answered {told : Resolution × Bool} (same : ((afterTurns config source earlier).lookup wanted.cacheKey
              (turn.answers wanted.cacheKey) turn.clock turn.later).2 = told) :
              (turn.play (afterTurns config source earlier)).2 = some told := by
            rw [played, same]
          rw [afterTurns, played]
          rcases ih.lookup wanted.cacheKey (turn.answers wanted.cacheKey) turn.clock turn.later with
            ⟨_, told, after⟩ | ⟨last, _, _, told, after⟩
          · have same : (fun key => standing config source key (turn :: earlier)) =
                Function.update (fun key => standing config source key earlier) wanted.cacheKey
                  (refreshed (standing config source wanted.cacheKey earlier) (turn.later.now source)
                    (turn.answers wanted.cacheKey)) := by
              funext key
              rw [standing_of_lookup action (answered told)]
              by_cases here : key = wanted.cacheKey
              · simp [here]
              · simp [here]
            rw [same]
            exact after
          · have same : (fun key => standing config source key (turn :: earlier)) =
                fun key => standing config source key earlier := by
              funext key
              rw [standing_of_lookup action (answered told)]
              simp
            rw [same]
            exact after
      | invalidate gone =>
          have same : (fun key => standing config source key (turn :: earlier)) =
              Function.update (fun key => standing config source key earlier) gone none := by
            funext key
            by_cases here : key = gone
            · simp [standing, Turn.removes, action, here]
            · have other : (gone == key) = false := by simpa using Ne.symm here
              simp [standing, Turn.removes, Turn.asks, action, here, other]
          rw [same, afterTurns, Turn.play, action]
          exact ih.removed gone
      | clear =>
          have same : (fun key => standing config source key (turn :: earlier)) = fun _ => none := by
            funext key
            simp [standing, Turn.removes, action]
          rw [same, afterTurns, Turn.play, action]
          exact ih.cleared

/-- A lookup is answered by the resolver if that is due, and by what is cached if not. -/
theorem lookup_reply {turn : Turn} {wanted : Wanted} (looksUp : turn.action = .lookup wanted) (earlier : List Turn) :
    (Due config (standing config source wanted.cacheKey earlier) (turn.clock.now source) ∧
        (turn.play (afterTurns config source earlier)).2 = some (turn.answers wanted.cacheKey, true)) ∨
      ∃ last, standing config source wanted.cacheKey earlier = some last ∧
        ¬ Due config (standing config source wanted.cacheKey earlier) (turn.clock.now source) ∧
        (turn.play (afterTurns config source earlier)).2 = some (.ok last.value, false) := by
  rw [play_of_lookup looksUp]
  rcases (shows_standing config source earlier).lookup wanted.cacheKey (turn.answers wanted.cacheKey) turn.clock
    turn.later with ⟨due, told, _⟩ | ⟨last, held, served, told, _⟩
  · exact .inl ⟨due, congrArg some told⟩
  · exact .inr ⟨last, held, served, congrArg some told⟩

theorem source_of_standing {key : Key} {turns : List Turn} {last : Entry.Standing (Option Page)}
    (held : standing config source key turns = some last) : ∃ since teller before,
      turns = since ++ teller :: before ∧ teller.asks key (afterTurns config source before) = true ∧
        teller.answers key = .ok last.value ∧ last = ⟨last.value, teller.later.now source, false⟩ ∧
        ∀ turn ∈ since, turn.removes key = false := by
  induction turns with
  | nil => cases held
  | cons turn earlier ih =>
      have older (held : standing config source key earlier = some last) (keeps : turn.removes key = false) :
          ∃ since teller before, turn :: earlier = since ++ teller :: before ∧
            teller.asks key (afterTurns config source before) = true ∧ teller.answers key = .ok last.value ∧
            last = ⟨last.value, teller.later.now source, false⟩ ∧ ∀ turn ∈ since, turn.removes key = false := by
        obtain ⟨since, teller, before, rfl, asks, answer, reading, kept⟩ := ih held
        exact ⟨turn :: since, teller, before, rfl, asks, answer, reading, List.forall_mem_cons.mpr ⟨keeps, kept⟩⟩
      rw [standing] at held
      split at held
      · cases held
      case isFalse keeps =>
        have keeps : turn.removes key = false := by simpa using keeps
        split at held
        case isTrue asks =>
          cases answer : turn.answers key with
          | ok page =>
              rw [answer] at held
              cases held
              exact ⟨[], turn, earlier, rfl, asks, answer, rfl, by simp⟩
          | error failure =>
              rw [answer] at held
              exact older held keeps
        case isFalse => exact older held keeps

end ViewCache.Locator
