import ViewCache.Proofs.Cache.Alone
import ViewCache.Proofs.Store.Run

/-!
Operations on a cache, one after another. Those on one key have nothing to do with those on another: what they
answer, which updaters run, and what the key's entry is in the end can be told without the operations on other keys.
-/
namespace ViewCache

variable {K V C E : Type}

namespace Store

variable [DecidableEq K]

def held (store : Store K V C) (key : K) : Option (Entry V C) := (store.find? key).bind store.entry?

structure Tidy (store : Store K V C) : Prop where
  known : ∀ {key id}, store.find? key = some id → ∃ entry, store.entry? id = some entry ∧ entry.holder = none
  apart : ∀ {key other id}, store.find? key = some id → store.find? other = some id → key = other

structure Puts (store after : Store K V C) (key : K) (id : EntryId) (entry : Entry V C) : Prop where
  here : after.find? key = some id
  shown : after.entry? id = some entry
  others : ∀ other, other ≠ key → after.find? other = store.find? other ∧ store.find? other ≠ some id
  rest : ∀ other, other ≠ id → after.entry? other = store.entry? other

section

variable {store after : Store K V C} {key other : K} {id : EntryId} {entry : Entry V C}

theorem held_of_find? (found : store.find? key = some id) : store.held key = store.entry? id := by
  simp [held, found]

theorem Tidy.free (tidy : store.Tidy) (holds : store.held key = some entry) : entry.holder = none := by
  obtain ⟨id, found, shown⟩ := Option.bind_eq_some_iff.mp holds
  obtain ⟨known, at_id, free⟩ := tidy.known found
  rw [shown] at at_id
  cases at_id
  exact free

theorem tidy_of_absent (absent : ∀ key, store.find? key = none) : store.Tidy := by
  constructor
  case known =>
    intro key id found
    rw [absent] at found
    cases found
  case apart =>
    intro key other id found
    rw [absent] at found
    cases found

theorem Puts.held (puts : store.Puts after key id entry) : after.held key = some entry := by
  rw [held_of_find? puts.here, puts.shown]

theorem Puts.held_of_ne (puts : store.Puts after key id entry) (different : other ≠ key) :
    after.held other = store.held other := by
  obtain ⟨same, elsewhere⟩ := puts.others other different
  rw [Store.held, Store.held, same]
  cases found : store.find? other with
  | none => rfl
  | some place => exact puts.rest place fun clash => elsewhere (clash ▸ found)

theorem Puts.tidy (puts : store.Puts after key id entry) (tidy : store.Tidy) (free : entry.holder = none) :
    after.Tidy := by
  constructor
  case known =>
    intro sought place found
    by_cases same : sought = key
    · subst same
      rw [puts.here] at found
      cases found
      exact ⟨entry, puts.shown, free⟩
    · obtain ⟨before, elsewhere⟩ := puts.others sought same
      rw [before] at found
      rw [puts.rest place fun clash => elsewhere (clash ▸ found)]
      exact tidy.known found
  case apart =>
    intro first second place foundFirst foundSecond
    by_cases sameFirst : first = key <;> by_cases sameSecond : second = key
    · rw [sameFirst, sameSecond]
    · subst sameFirst
      rw [puts.here] at foundFirst
      cases foundFirst
      obtain ⟨before, elsewhere⟩ := puts.others second sameSecond
      exact absurd (before ▸ foundSecond) elsewhere
    · subst sameSecond
      rw [puts.here] at foundSecond
      cases foundSecond
      obtain ⟨before, elsewhere⟩ := puts.others first sameFirst
      exact absurd (before ▸ foundFirst) elsewhere
    · rw [(puts.others first sameFirst).1] at foundFirst
      rw [(puts.others second sameSecond).1] at foundSecond
      exact tidy.apart foundFirst foundSecond

theorem Puts.set (puts : store.Puts after key id entry) (last : Entry V C) :
    store.Puts (after.set id last) key id last where
  here := puts.here
  shown := entry?_set_self puts.shown
  others := puts.others
  rest := fun other different => (entry?_set_of_ne after last different).trans (puts.rest other different)

theorem Tidy.puts_insert (tidy : store.Tidy) (key : K) (fresh : Entry V C) :
    store.Puts (store.insertIfAbsent key fresh).1 key (store.insertIfAbsent key fresh).2
      ((store.held key).getD fresh) := by
  cases found : store.find? key with
  | some id =>
      obtain ⟨entry, shown, -⟩ := tidy.known found
      simp only [insertIfAbsent, found, held_of_find? found, shown, Option.getD_some]
      refine ⟨found, shown, ?_, fun _ _ => rfl⟩
      exact fun other different => ⟨rfl, fun clash => different (tidy.apart clash found)⟩
  | none =>
      have unborn : store.entry? store.entries.size = none := Array.getElem?_eq_none (Nat.le_refl _)
      simp only [insertIfAbsent, found, held, Option.bind_none, Option.getD_none]
      refine ⟨by simp [find?_insert], by simp [Store.entry?], ?_, ?_⟩
      · intro other different
        refine ⟨(find?_insert ..).trans (if_neg (Ne.symm different)), ?_⟩
        intro clash
        obtain ⟨entry, shown, -⟩ := tidy.known clash
        rw [unborn] at shown
        cases shown
      · intro other different
        simp [Store.entry?, Array.getElem?_push, different]

theorem held_remove (store : Store K V C) (key other : K) :
    Store.held (store.remove key) other = if key = other then none else store.held other := by
  rw [held, find?_remove]
  split <;> rfl

theorem Tidy.remove (tidy : store.Tidy) (key : K) : Tidy (store.remove key) := by
  have kept {other : K} {id : EntryId} (found : Store.find? (store.remove key) other = some id) :
      store.find? other = some id := by
    rw [find?_remove] at found
    split at found
    · cases found
    · exact found
  exact ⟨fun found => tidy.known (kept found), fun first second => tidy.apart (kept first) (kept second)⟩

theorem Tidy.of_expiry (tidy : store.Tidy) (index : ∀ key, after.find? key = store.find? key)
    (entries : ∀ id, after.entry? id = store.entry? id ∨ after.entry? id = (store.entry? id).map Entry.expire) :
    after.Tidy := by
  constructor
  case known =>
    intro key id found
    obtain ⟨entry, shown, free⟩ := tidy.known ((index key).symm.trans found)
    rcases entries id with same | expired
    · exact ⟨entry, same.trans shown, free⟩
    · exact ⟨entry.expire, by rw [expired, shown]; rfl, free⟩
  case apart =>
    intro first second id foundFirst foundSecond
    exact tidy.apart ((index first).symm.trans foundFirst) ((index second).symm.trans foundSecond)

theorem Tidy.expire (tidy : store.Tidy) (key : K) : (store.expire key).1.Tidy := by
  refine tidy.of_expiry (find?_expire store key) fun id => ?_
  rw [entry?_expire]
  split
  · exact .inr rfl
  · exact .inl rfl

theorem Tidy.expireAll (tidy : store.Tidy) : store.expireAll.Tidy := by
  refine tidy.of_expiry (find?_expireAll store) fun id => ?_
  rw [entry?_expireAll]
  split
  · exact .inr rfl
  · exact .inl rfl

theorem Tidy.held_expire (tidy : store.Tidy) (key other : K) : (store.expire key).1.held other =
    if key = other then (store.held other).map Entry.expire else store.held other := by
  rw [held, find?_expire, held]
  cases found : store.find? other with
  | none => simp
  | some id =>
      simp only [Option.bind_some, entry?_expire]
      by_cases same : key = other
      · rw [if_pos (same ▸ found), if_pos same]
      · rw [if_neg fun clash => same (tidy.apart clash found), if_neg same]

theorem held_expireAll (store : Store K V C) (key : K) :
    store.expireAll.held key = (store.held key).map Entry.expire := by
  rw [held, find?_expireAll, held]
  cases found : store.find? key with
  | none => rfl
  | some id =>
      simp only [Option.bind_some, entry?_expireAll]
      exact if_pos (List.mem_map_of_mem (mem_index_of_find? found))

end

end Store

namespace Cache

/-- What is done to a cache, one thing after another. The time that passes in an updater is told by what the clocks
read when it returns; it passes for all that comes after only with a `moveClock` that follows. -/
inductive Action (K V C E : Type)
  /-- a missing entry is made by the caller's factory, if there is one -/
  | lookup (key : K) (context : C) (outcome : Except E V) (later : Clock) (factory : Option (Store.Unshared V C))
  | entry (key : K)
  | peek (key : K)
  | invalidate (key : K)
  | expire (key : K)
  | expireAll
  | clear
  | withPolicy (policy : RefreshPolicy V C)
  | moveClock (move : Clock → Clock)

inductive Answer (V C E : Type)
  | replied (reply : Reply V E) (updates : Nat)
  | handed (entry : Option (Entry V C))
  | found (value : Option V)
  | present (was : Bool)
  | done

namespace Action

def key? : Action K V C E → Option K
  | lookup key .. | entry key | peek key | invalidate key | expire key => some key
  | expireAll | clear | withPolicy _ | moveClock _ => none

def concerns [DecidableEq K] (key : K) (action : Action K V C E) : Bool := action.key?.all (· == key)

def removes [DecidableEq K] (key : K) : Action K V C E → Bool
  | invalidate other => other == key
  | clear => true
  | _ => false

def makes? [DecidableEq K] (key : K) (inForce : RefreshPolicy V C) : Action K V C E → Option (RefreshPolicy V C)
  | lookup other _ _ _ factory => if other = key then some (factory.elim inForce (·.entry.policy)) else none
  | entry other => if other = key then some inForce else none
  | _ => none

def inForce (policy : RefreshPolicy V C) (actions : List (Action K V C E)) : RefreshPolicy V C :=
  actions.foldl (fun policy action => match action with | withPolicy next => next | _ => policy) policy

end Action

structure Scene (K V C : Type) where
  cache : Cache K V C
  clock : Clock

def freshFor (cache : Cache K V C) (factory : Option (Store.Unshared V C)) : Entry V C :=
  factory.elim cache.newEntry (·.entry)

theorem free_freshFor (cache : Cache K V C) (factory : Option (Store.Unshared V C)) :
    (cache.freshFor factory).holder = none := by
  cases factory with
  | none => rfl
  | some fresh => exact fresh.free

variable [DecidableEq K]

def updatesOr (fresh : Entry V C) (cache : Cache K V C) (key : K) (context : C) (outcome : Except E V)
    (clock later : Clock) : Nat :=
  (Call.runCounted fresh outcome later Call.manySteps clock cache (Call.lookup cache key context)).2

namespace Scene

def play (scene : Scene K V C) : Action K V C E → Scene K V C × Answer V C E
  | .lookup key context outcome later factory =>
    let fresh := scene.cache.freshFor factory
    let (cache, reply) := lookupOr fresh scene.cache key context outcome scene.clock later
    (⟨cache, scene.clock⟩, .replied reply (updatesOr fresh scene.cache key context outcome scene.clock later))
  | .entry key =>
    let (cache, id) := scene.cache.entry key
    (⟨cache, scene.clock⟩, .handed (cache.store.entry? id))
  | .peek key => (scene, .found (scene.cache.peek key))
  | .invalidate key =>
    let (cache, was) := scene.cache.invalidate key
    (⟨cache, scene.clock⟩, .present was)
  | .expire key =>
    let (cache, was) := scene.cache.expire key
    (⟨cache, scene.clock⟩, .present was)
  | .expireAll => (⟨scene.cache.expireAll, scene.clock⟩, .done)
  | .clear => (⟨scene.cache.clear, scene.clock⟩, .done)
  | .withPolicy policy => (⟨scene.cache.withPolicy policy, scene.clock⟩, .done)
  | .moveClock move => (⟨scene.cache, move scene.clock⟩, .done)

def playAll (scene : Scene K V C) : List (Action K V C E) → Scene K V C × List (Action K V C E × Answer V C E)
  | [] => (scene, [])
  | action :: rest =>
    let (next, answer) := scene.play action
    let (last, answers) := next.playAll rest
    (last, (action, answer) :: answers)

structure Alike (key : K) (first second : Scene K V C) : Prop where
  config : first.cache.config = second.cache.config
  policy : first.cache.policy = second.cache.policy
  source : first.cache.source = second.cache.source
  clock : first.clock = second.clock
  held : first.cache.store.held key = second.cache.store.held key

section

variable {scene first second : Scene K V C} {key other : K}

theorem Alike.trans {third : Scene K V C} (front : Alike key first second) (back : Alike key second third) :
    Alike key first third :=
  ⟨front.config.trans back.config, front.policy.trans back.policy, front.source.trans back.source,
    front.clock.trans back.clock, front.held.trans back.held⟩

/-- A lookup by key is one on the entry that the key holds, or on the one that is made for it. -/
theorem play_lookup (tidy : scene.cache.store.Tidy) (key : K) (context : C) (outcome : Except E V) (later : Clock)
    (factory : Option (Store.Unshared V C)) {entry : Entry V C}
    (here : (scene.cache.store.held key).getD (scene.cache.freshFor factory) = entry) :
    ∃ id last reply times store, ViewCache.Call.runCounted outcome (later.now entry.source) ViewCache.Call.manySteps
        (scene.clock.now entry.source) entry (ViewCache.Call.start (.lookup (scene.cache.query context))) =
          ((last, ⟨.lookup (scene.cache.query context), .done reply⟩), times) ∧
      (last.holder = none ∧ last.policy = entry.policy) ∧ scene.cache.store.Puts store key id last ∧
      scene.play (.lookup key context outcome later factory) =
        (⟨{ scene.cache with store, counters := scene.cache.counters.record reply }, scene.clock⟩,
          .replied reply times) := by
  have puts := tidy.puts_insert key (scene.cache.freshFor factory)
  rw [here] at puts
  have free : entry.holder = none := by
    cases holds : scene.cache.store.held key with
    | none =>
        rw [holds] at here
        exact here ▸ free_freshFor scene.cache factory
    | some shown =>
        rw [holds] at here
        exact here ▸ tidy.free holds
  obtain ⟨last, reply, times, alone, left⟩ := Entry.runCounted_free free (scene.cache.query context) outcome
    (scene.clock.now entry.source) (later.now entry.source)
  have kept : last.holder = none ∧ last.policy = entry.policy := by
    rcases left with rfl | rfl
    · exact ⟨free, rfl⟩
    · cases outcome <;> exact ⟨rfl, rfl⟩
  have runs : Call.runCounted (scene.cache.freshFor factory) outcome later Call.manySteps scene.clock scene.cache
      (Call.lookup scene.cache key context) = _ := runCounted_lookup rfl puts.shown alone rfl
  refine ⟨_, last, reply, times, _, alone, kept, puts.set last, ?_⟩
  simp only [play, lookupOr, updatesOr, ← runCounted_fst, runs]
  rfl

theorem play_entry (tidy : scene.cache.store.Tidy) (key : K) {entry : Entry V C}
    (here : (scene.cache.store.held key).getD scene.cache.newEntry = entry) :
    ∃ id store, scene.cache.store.Puts store key id entry ∧
      scene.play (.entry key : Action K V C E) =
        (⟨{ scene.cache with store }, scene.clock⟩, .handed (some entry)) := by
  have puts := tidy.puts_insert key scene.cache.newEntry
  rw [here] at puts
  exact ⟨_, _, puts, by simp [play, Cache.entry, puts.shown]⟩

theorem peek_eq (scene : Scene K V C) (key : K) :
    scene.cache.peek key = (scene.cache.store.held key).bind Entry.value? :=
  (Option.bind_assoc ..).symm

theorem find?_isSome (tidy : scene.cache.store.Tidy) (key : K) :
    (scene.cache.store.find? key).isSome = (scene.cache.store.held key).isSome := by
  cases found : scene.cache.store.find? key with
  | none => simp [Store.held, found]
  | some id =>
      obtain ⟨entry, shown, -⟩ := tidy.known found
      simp [Store.held, found, shown]

theorem expire_eq (scene : Scene K V C) (key : K) : scene.cache.expire key =
    ({ scene.cache with store := (scene.cache.store.expire key).1 }, (scene.cache.store.find? key).isSome) := by
  cases found : scene.cache.store.find? key <;> simp [Cache.expire, Store.expire, found]

theorem tidy_play (tidy : scene.cache.store.Tidy) (action : Action K V C E) :
    (scene.play action).1.cache.store.Tidy := by
  cases action with
  | lookup key context outcome later factory =>
      obtain ⟨_, _, _, _, _, _, ⟨free, _⟩, puts, played⟩ :=
        play_lookup tidy key context outcome later factory rfl
      rw [played]
      exact puts.tidy tidy free
  | entry key =>
      obtain ⟨_, _, puts, played⟩ := play_entry (E := E) tidy key rfl
      rw [played]
      refine puts.tidy tidy ?_
      cases holds : scene.cache.store.held key with
      | none => rfl
      | some entry => exact tidy.free holds
  | invalidate key => exact tidy.remove key
  | expire key =>
      simp only [play, expire_eq]
      exact tidy.expire key
  | expireAll => exact tidy.expireAll
  | clear => exact Store.tidy_of_absent fun key => rfl
  | peek | withPolicy | moveClock => exact tidy

theorem alike_of_unconcerned (tidy : scene.cache.store.Tidy) {action : Action K V C E}
    (unconcerned : action.concerns key = false) : Alike key (scene.play action).1 scene := by
  have different {other : K} (mine : action.key? = some other) : key ≠ other := by
    rintro rfl
    simp [Action.concerns, mine] at unconcerned
  cases action with
  | lookup other context outcome later factory =>
      obtain ⟨_, _, _, _, _, _, _, puts, played⟩ := play_lookup tidy other context outcome later factory rfl
      rw [played]
      exact ⟨rfl, rfl, rfl, rfl, puts.held_of_ne (different rfl)⟩
  | entry other =>
      obtain ⟨_, _, puts, played⟩ := play_entry (E := E) tidy other rfl
      rw [played]
      exact ⟨rfl, rfl, rfl, rfl, puts.held_of_ne (different rfl)⟩
  | invalidate other =>
      refine ⟨rfl, rfl, rfl, rfl, ?_⟩
      exact (Store.held_remove ..).trans (if_neg (Ne.symm (different rfl)))
  | expire other =>
      simp only [play, expire_eq]
      refine ⟨rfl, rfl, rfl, rfl, ?_⟩
      exact (tidy.held_expire other key).trans (if_neg (Ne.symm (different rfl)))
  | peek other => exact ⟨rfl, rfl, rfl, rfl, rfl⟩
  | expireAll | clear | withPolicy | moveClock => cases unconcerned

theorem play_alike (tidy : first.cache.store.Tidy) (tidyToo : second.cache.store.Tidy)
    (alike : Alike key first second) {action : Action K V C E} (concerned : action.concerns key = true) :
    (first.play action).2 = (second.play action).2 ∧ Alike key (first.play action).1 (second.play action).1 := by
  have mine {other : K} (at_other : action.key? = some other) : other = key := by
    simpa [Action.concerns, at_other] using concerned
  obtain ⟨config, policy, source, clock, held⟩ := alike
  have newEntry : first.cache.newEntry = second.cache.newEntry := by rw [newEntry, newEntry, policy, source]
  cases action with
  | lookup other context outcome later factory =>
      obtain rfl := mine rfl
      have made : first.cache.freshFor factory = second.cache.freshFor factory := by
        rw [freshFor, freshFor, newEntry]
      have query : first.cache.query context = second.cache.query context := by rw [query, query, config]
      obtain ⟨_, last, reply, times, _, alone, _, puts, played⟩ :=
        play_lookup tidy other context outcome later factory rfl
      obtain ⟨_, lastToo, replyToo, timesToo, _, aloneToo, _, putsToo, playedToo⟩ :=
        play_lookup tidyToo other context outcome later factory rfl
      -- both are the same lookup on the same entry
      rw [held, made, clock, query, aloneToo] at alone
      cases alone
      rw [played, playedToo]
      exact ⟨rfl, config, policy, source, clock, puts.held.trans putsToo.held.symm⟩
  | entry other =>
      obtain rfl := mine rfl
      obtain ⟨_, _, puts, played⟩ := play_entry (E := E) tidy other rfl
      obtain ⟨_, _, putsToo, playedToo⟩ := play_entry (E := E) tidyToo other rfl
      rw [played, playedToo]
      refine ⟨by rw [held, newEntry], config, policy, source, clock, ?_⟩
      rw [puts.held, putsToo.held, held, newEntry]
  | peek other =>
      obtain rfl := mine rfl
      refine ⟨?_, config, policy, source, clock, held⟩
      simp only [play, peek_eq, held]
  | invalidate other =>
      obtain rfl := mine rfl
      refine ⟨?_, config, policy, source, clock, ?_⟩
      · simp only [play, Cache.invalidate, find?_isSome tidy, find?_isSome tidyToo, held]
      · exact (Store.held_remove ..).trans (held ▸ (Store.held_remove ..).symm)
  | expire other =>
      obtain rfl := mine rfl
      simp only [play, expire_eq]
      refine ⟨by rw [find?_isSome tidy, find?_isSome tidyToo, held], config, policy, source, clock, ?_⟩
      exact (tidy.held_expire ..).trans (held ▸ (tidyToo.held_expire ..).symm)
  | expireAll =>
      refine ⟨rfl, config, policy, source, clock, ?_⟩
      exact (Store.held_expireAll ..).trans (held ▸ (Store.held_expireAll ..).symm)
  | clear => exact ⟨rfl, config, policy, source, clock, rfl⟩
  | withPolicy next => exact ⟨rfl, config, rfl, source, clock, held⟩
  | moveClock move => exact ⟨rfl, config, policy, source, congrArg move clock, held⟩

/-- Without the actions on other keys all that concerns the key goes the same way. -/
theorem playAll_alike (tidy : first.cache.store.Tidy) (tidyToo : second.cache.store.Tidy)
    (alike : Alike key first second) (actions : List (Action K V C E)) :
    (first.playAll actions).2.filter (fun played => played.1.concerns key) =
        (second.playAll (actions.filter (·.concerns key))).2 ∧
      Alike key (first.playAll actions).1 (second.playAll (actions.filter (·.concerns key))).1 := by
  -- on the actions: those on other keys are missing in `second`, and make no difference for the key in `first`
  induction actions generalizing first second with
  | nil => exact ⟨rfl, alike⟩
  | cons action rest ih =>
      cases concerned : action.concerns key with
      | true =>
          obtain ⟨answers, alike⟩ := play_alike tidy tidyToo alike concerned
          obtain ⟨later, last⟩ := ih (tidy_play tidy action) (tidy_play tidyToo action) alike
          rw [List.filter_cons_of_pos concerned]
          refine ⟨?_, last⟩
          calc ((action, (first.play action).2) :: ((first.play action).1.playAll rest).2).filter
                (fun played => played.1.concerns key)
              = (action, (first.play action).2) ::
                  ((first.play action).1.playAll rest).2.filter (fun played => played.1.concerns key) :=
                List.filter_cons_of_pos concerned
            _ = (action, (second.play action).2) ::
                  ((second.play action).1.playAll (rest.filter (·.concerns key))).2 := by rw [answers, later]
      | false =>
          have still := (alike_of_unconcerned tidy concerned).trans alike
          obtain ⟨later, last⟩ := ih (tidy_play tidy action) tidyToo still
          have skipped : ¬ action.concerns key = true := by simp [concerned]
          rw [List.filter_cons_of_neg skipped]
          refine ⟨?_, last⟩
          calc ((action, (first.play action).2) :: ((first.play action).1.playAll rest).2).filter
                (fun played => played.1.concerns key)
              = ((first.play action).1.playAll rest).2.filter (fun played => played.1.concerns key) :=
                List.filter_cons_of_neg skipped
            _ = (second.playAll (rest.filter (·.concerns key))).2 := later

theorem play_kept (tidy : scene.cache.store.Tidy) {entry : Entry V C} (holds : scene.cache.store.held key = some entry)
    {action : Action K V C E} (stays : action.removes key = false) :
    ∃ next, (scene.play action).1.cache.store.held key = some next ∧ next.policy = entry.policy := by
  have expired {seen : Option (Entry V C)} (same : seen = some entry ∨ seen = some entry.expire) :
      ∃ next, seen = some next ∧ next.policy = entry.policy := by
    rcases same with rfl | rfl <;> exact ⟨_, rfl, rfl⟩
  cases concerned : action.concerns key with
  | false => exact ⟨entry, (alike_of_unconcerned tidy concerned).held.trans holds, rfl⟩
  | true =>
      have mine {other : K} (at_other : action.key? = some other) : other = key := by
        simpa [Action.concerns, at_other] using concerned
      cases action with
      | lookup other context outcome later factory =>
          obtain rfl := mine rfl
          obtain ⟨_, last, _, _, _, _, ⟨_, policy⟩, puts, played⟩ :=
            play_lookup tidy other context outcome later factory (by rw [holds])
          rw [played]
          exact ⟨last, puts.held, policy⟩
      | entry other =>
          obtain rfl := mine rfl
          obtain ⟨_, _, puts, played⟩ := play_entry (E := E) tidy other (by rw [holds])
          rw [played]
          exact ⟨entry, puts.held, rfl⟩
      | expire other =>
          obtain rfl := mine rfl
          simp only [play, expire_eq]
          refine expired (.inr ((tidy.held_expire ..).trans ?_))
          simp [holds]
      | expireAll =>
          refine expired (.inr ((Store.held_expireAll ..).trans ?_))
          rw [holds]
          rfl
      | invalidate other =>
          obtain rfl := mine rfl
          simp [Action.removes] at stays
      | clear => cases stays
      | peek | withPolicy | moveClock => exact ⟨entry, holds, rfl⟩

theorem playAll_kept (tidy : scene.cache.store.Tidy) {entry : Entry V C}
    (holds : scene.cache.store.held key = some entry) {actions : List (Action K V C E)}
    (stays : ∀ action ∈ actions, action.removes key = false) :
    ∃ last, (scene.playAll actions).1.cache.store.held key = some last ∧ last.policy = entry.policy := by
  induction actions generalizing scene entry with
  | nil => exact ⟨entry, holds, rfl⟩
  | cons action rest ih =>
      obtain ⟨first, later⟩ := List.forall_mem_cons.mp stays
      obtain ⟨next, holds, policy⟩ := play_kept tidy holds first
      obtain ⟨last, holds, same⟩ := ih (tidy_play tidy action) holds later
      exact ⟨last, holds, same.trans policy⟩

theorem play_made (tidy : scene.cache.store.Tidy) (absent : scene.cache.store.held key = none)
    {action : Action K V C E} {policy : RefreshPolicy V C}
    (makes : action.makes? key scene.cache.policy = some policy) :
    ∃ entry, (scene.play action).1.cache.store.held key = some entry ∧ entry.policy = policy := by
  cases action with
  | lookup other context outcome later factory =>
      simp only [Action.makes?, Option.ite_none_right_eq_some, Option.some.injEq] at makes
      obtain ⟨rfl, made⟩ := makes
      obtain ⟨_, last, _, _, _, _, ⟨_, same⟩, puts, played⟩ :=
        play_lookup tidy other context outcome later factory (by rw [absent])
      rw [played]
      refine ⟨last, puts.held, same.trans ?_⟩
      cases factory <;> exact made
  | entry other =>
      simp only [Action.makes?, Option.ite_none_right_eq_some, Option.some.injEq] at makes
      obtain ⟨rfl, rfl⟩ := makes
      obtain ⟨_, _, puts, played⟩ := play_entry (E := E) tidy other (by rw [absent])
      rw [played]
      exact ⟨_, puts.held, rfl⟩
  | peek | invalidate | expire | expireAll | clear | withPolicy | moveClock => cases makes

theorem playAll_append (scene : Scene K V C) (front back : List (Action K V C E)) :
    (scene.playAll (front ++ back)).1 = ((scene.playAll front).1.playAll back).1 := by
  induction front generalizing scene with
  | nil => rfl
  | cons action front ih => exact ih _

theorem tidy_playAll (tidy : scene.cache.store.Tidy) (actions : List (Action K V C E)) :
    (scene.playAll actions).1.cache.store.Tidy := by
  induction actions generalizing scene with
  | nil => exact tidy
  | cons action rest ih => exact ih (tidy_play tidy action)

theorem policy_play (tidy : scene.cache.store.Tidy) (action : Action K V C E) :
    (scene.play action).1.cache.policy = Action.inForce scene.cache.policy [action] := by
  cases action with
  | lookup key context outcome later factory =>
      obtain ⟨_, _, _, _, _, _, _, _, played⟩ := play_lookup tidy key context outcome later factory rfl
      rw [played]
      rfl
  | entry key =>
      obtain ⟨_, _, _, played⟩ := play_entry (E := E) tidy key rfl
      rw [played]
      rfl
  | expire key =>
      simp only [play, expire_eq]
      rfl
  | peek | invalidate | expireAll | clear | withPolicy | moveClock => rfl

theorem policy_playAll (tidy : scene.cache.store.Tidy) (actions : List (Action K V C E)) :
    (scene.playAll actions).1.cache.policy = Action.inForce scene.cache.policy actions := by
  induction actions generalizing scene with
  | nil => rfl
  | cons action rest ih =>
      refine (ih (tidy_play tidy action)).trans ?_
      rw [policy_play tidy]
      rfl

/-- What is done to other keys makes no difference to a key: not to what is answered there, nor to which updaters
run, nor to the entry. An entry is made with the policy in force, unless a factory makes it, and keeps its policy
until it is removed. -/
theorem keys_do_not_interfere (config : CacheConfig) (policy : RefreshPolicy V C) (source : TimeSource) (clock : Clock)
    (actions : List (Action K V C E)) (key : K) :
    let start : Scene K V C := ⟨{ config, policy, source }, clock⟩
    let all := start.playAll actions
    let own := start.playAll (actions.filter (·.concerns key))
    all.2.filter (fun played => played.1.concerns key) = own.2 ∧
      all.1.cache.store.held key = own.1.cache.store.held key ∧
      ∀ earlier action later made, actions = earlier ++ action :: later →
        (start.playAll earlier).1.cache.store.held key = none →
        action.makes? key (Action.inForce policy earlier) = some made →
        (∀ next ∈ later, next.removes key = false) →
        ∃ entry, all.1.cache.store.held key = some entry ∧ entry.policy = made := by
  intro start all own
  have tidy : start.cache.store.Tidy := Store.tidy_of_absent fun key => rfl
  have same : Alike key start start := ⟨rfl, rfl, rfl, rfl, rfl⟩
  obtain ⟨answers, alike⟩ := playAll_alike tidy tidy same actions
  refine ⟨answers, alike.held, ?_⟩
  intro earlier action later made split absent makes stays
  have tidyThen := tidy_playAll tidy earlier
  rw [← policy_playAll tidy] at makes
  obtain ⟨entry, holds, its⟩ := play_made tidyThen absent makes
  obtain ⟨last, holds, kept⟩ := playAll_kept (tidy_play tidyThen action) holds stays
  refine ⟨last, ?_, kept.trans its⟩
  rw [← holds]
  simp only [all, split, playAll_append]
  rfl

end

def pinFive : RefreshPolicy Nat Unit := .pinWhen fun v _ => v == 5

def beforeSeven : List (Action Nat Nat Unit Unit) := [.entry 8, .withPolicy pinFive]

def lookUpSeven : Action Nat Nat Unit Unit := .lookup 7 () (.ok 5) {} none

def afterSeven : List (Action Nat Nat Unit Unit) := [.withPolicy .timed, .invalidate 8, .expireAll]

theorem pinned_entry_outlives_policy :
    ∃ entry, (playAll ⟨{}, {}⟩ (beforeSeven ++ lookUpSeven :: afterSeven)).1.cache.store.held 7 = some entry ∧
      entry.policy = pinFive := by
  obtain ⟨-, -, keeps⟩ := keys_do_not_interfere {} .timed .wall {} (beforeSeven ++ lookUpSeven :: afterSeven) 7
  have absent : (playAll ⟨{}, {}⟩ beforeSeven).1.cache.store.held 7 = none := rfl
  have makes : lookUpSeven.makes? 7 (Action.inForce .timed beforeSeven) = some pinFive := rfl
  exact keeps beforeSeven lookUpSeven afterSeven pinFive rfl absent makes (by decide)

end Scene

end Cache

end ViewCache
