import ViewCache.Proofs.Cache.Run
import ViewCache.Proofs.Store.Call

namespace ViewCache

variable {K V C E : Type}

namespace Cache.Run

def arrival (me : CallId) (entry : EntryId) : Store.Goal C → Log V C E
  | .entry => []
  | .lookup q => [(entry, .began me (.lookup q))]

theorem news_arrive (me : CallId) (clock : Clock) (store : Store K V C) (counted : Bool)
    (before : Store.Call K V C E) (seeks : before.seeks?.isSome) (entry : EntryId) (goal : Store.Goal C) :
    news me clock store (Call.wrap counted before) (.wrap counted (.arrive entry goal)) =
      arrival me entry goal := by
  cases counted <;> cases before <;> simp [Store.Call.seeks?] at seeks <;> cases goal <;>
    simp [news, Call.wrap, Call.within?, Store.Call.arrive, arrival, ViewCache.Call.start]

variable [DecidableEq K]

/-- What becomes of a task, of the cache and of the log by one step of the task; `none` is a task that has
not begun. -/
inductive Turn {shards : Nat} (shardOf : K → Fin shards) (cache : Cache K V C) (id : CallId) :
    Option (Task K V C E) → Cache K V C → Task K V C E → Log V C E → Prop
  | sought (counted key goal) :
      Turn shardOf cache id none cache (.call (.wrap counted (.find key goal))) []
  | held {entry request} (known : entry < cache.store.entries.size) :
      Turn shardOf cache id none cache (.call (.onHeld entry request)) [(entry, .began id request)]
  | invalidate {key} : Turn shardOf cache id none cache (.invalidating key) []
  | clear : Turn shardOf cache id none cache (.clearing 0 []) []
  | missed {counted key goal} :
      Turn shardOf cache id (some (.call (.wrap counted (.find key goal)))) cache
        (.call (.wrap counted (.build key goal))) []
  | supplied (counted) {key goal policy source} :
      Turn shardOf cache id (some (.call (.wrap counted (.build key goal)))) cache
        (.call (.wrap counted (.insert key goal { policy, source }))) []
  | arrived {counted call key goal entry} (seeks : call.seeks? = some (key, goal))
      (found : cache.store.find? key = some entry) :
      Turn shardOf cache id (some (.call (.wrap counted call))) cache
        (.call (.wrap counted (.arrive entry goal))) (arrival id entry goal)
  | inserted {counted key goal fresh} (absent : cache.store.find? key = none) :
      Turn shardOf cache id (some (.call (.wrap counted (.insert key goal fresh))))
        { cache with store := ⟨cache.store.entries.push fresh,
            (key, cache.store.entries.size) :: cache.store.index⟩ }
        (.call (.wrap counted (.arrive cache.store.entries.size goal)))
        (arrival id cache.store.entries.size goal)
  | stepped {counted entryId request phase entry now after next}
      (known : cache.store.entry? entryId = some entry)
      (advance : ViewCache.Call.Advance id now request entry phase after next) :
      Turn shardOf cache id (some (.call (.wrap counted (.within entryId ⟨request, phase⟩))))
        { cache with store := cache.store.set entryId after }
        (.call (.wrap counted (.within entryId ⟨request, next⟩)))
        [(entryId, .stepped id now entry phase next)]
  | returned (counted) {entryId q outcome} :
      Turn shardOf cache id (some (.call (.wrap counted (.within entryId ⟨.lookup q, .updating⟩)))) cache
        (.call (.wrap counted (.within entryId ⟨.lookup q, ViewCache.Call.resumed q outcome⟩)))
        [(entryId, .returned id outcome)]
  | recorded {entryId request reply counters} :
      Turn shardOf cache id (some (.call (.wrap true (.within entryId ⟨request, .done reply⟩))))
        { cache with counters } (.call (.recorded entryId reply)) []
  | invalidated {key} :
      Turn shardOf cache id (some (.invalidating key))
        { cache with store := cache.store.drop (· == key) } (.removed (cache.store.find? key).toList) []
  | swept {shard gone} (more : shard < shards) :
      Turn shardOf cache id (some (.clearing shard gone))
        { cache with store := cache.store.drop fun key => (shardOf key).val == shard }
        (.clearing (shard + 1) ((cache.store.dropped fun key => (shardOf key).val == shard) ++ gone)) []
  | cleared {shard gone} (all : shards ≤ shard) :
      Turn shardOf cache id (some (.clearing shard gone)) { cache with counters := {} } (.removed gone) []

inductive Step {shards : Nat} (shardOf : K → Fin shards) (run : Run K V C E) : Run K V C E → Prop
  | turned {id before cache task news} (running : run.tasks id = before)
      (turn : Turn shardOf run.cache id before cache task news) :
      Step shardOf run (run.put id cache task news)
  | policySet {policy} : Step shardOf run { run with cache := run.cache.withPolicy policy }

section

variable {shards : Nat} {shardOf : K → Fin shards} {cache after : Cache K V C} {id : CallId} {clock : Clock}
  {call next : Call K V C E}

theorem turn_of_advance {counted : Bool} {call next : Store.Call K V C E} {store : Store K V C}
    (advance : Store.Call.Advance id clock cache.store call store next) :
    Turn shardOf cache id (some (.call (.wrap counted call))) { cache with store } (.call (.wrap counted next))
      (news id clock cache.store (.wrap counted call) (.wrap counted next)) := by
  cases advance with
  | hit found =>
      rw [news_arrive _ _ _ _ _ rfl]
      exact .arrived rfl found
  | @missed key goal =>
      have quiet : news id clock cache.store (Call.wrap counted (.find key goal))
          (.wrap counted (.build key goal)) = ([] : Log V C E) := by
        cases counted <;> rfl
      rw [quiet]
      exact .missed
  | lost found =>
      rw [news_arrive _ _ _ _ _ rfl]
      exact .arrived rfl found
  | inserted absent =>
      rw [news_arrive _ _ _ _ _ rfl]
      exact .inserted absent
  | @within entryId request phase entry after next known advance =>
      have told : news id clock cache.store (Call.wrap counted (.within entryId ⟨request, phase⟩))
          (.wrap counted (.within entryId ⟨request, next⟩)) =
          [(entryId, .stepped id (clock.now entry.source) entry phase next)] := by
        cases counted <;> simp [news, Call.wrap, Call.within?, known]
      rw [told]
      exact .stepped known advance

theorem turn_of_call (advances : call.step id clock cache = some (after, next)) :
    Turn shardOf cache id (some (.call call)) after (.call next) (news id clock cache.store call next) := by
  have through (counted : Bool) {inner : Store.Call K V C E} (same : call = .wrap counted inner)
      (inside : (inner.step id clock cache.store).map (fun moved =>
        ({ cache with store := moved.1 }, Call.wrap counted moved.2)) = some (after, next)) :
      Turn shardOf cache id (some (.call call)) after (.call next) (news id clock cache.store call next) := by
    subst same
    obtain ⟨⟨store, moved⟩, moves, same⟩ := Option.map_eq_some_iff.mp inside
    cases same
    exact turn_of_advance (Store.Call.advance_cases moves)
  cases call with
  | uncounted inner => exact through false rfl advances
  | counted inner =>
      cases inner with
      | within entryId call =>
          cases replied : call.reply? with
          | some reply =>
              obtain ⟨request, phase⟩ := call
              cases phase <;> simp [ViewCache.Call.reply?] at replied
              subst replied
              simp [Call.step, Store.Call.entryId?, Store.Call.reply?, ViewCache.Call.reply?] at advances
              obtain ⟨rfl, rfl⟩ := advances
              exact .recorded
          | none =>
              refine through true rfl ?_
              simpa [Call.step, Call.wrap, Store.Call.entryId?, Store.Call.reply?, replied] using advances
      | find | build | insert | got => exact through true rfl advances
  | recorded => simp [Call.step] at advances

theorem turn_of_supply {policy : RefreshPolicy V C} {source : TimeSource}
    (supplies : call.supply { policy, source } = some next) :
    Turn shardOf cache id (some (.call call)) cache (.call next) [] := by
  cases call with
  | recorded => simp [Call.supply] at supplies
  | uncounted inner =>
      cases inner <;> simp [Call.supply, Store.Call.supply] at supplies
      subst supplies
      exact .supplied false
  | counted inner =>
      cases inner <;> simp [Call.supply, Store.Call.supply] at supplies
      subst supplies
      exact .supplied true

theorem turn_of_resume {outcome : Except E V} (resumes : call.resume outcome = some next) :
    Turn shardOf cache id (some (.call call)) cache (.call next)
      (next.within?.toList.map fun (entry, _) => (entry, .returned id outcome)) := by
  have through (counted : Bool) {inner : Store.Call K V C E} (same : call = .wrap counted inner)
      (inside : (inner.resume outcome).map (Call.wrap counted) = some next) :
      Turn shardOf cache id (some (.call call)) cache (.call next)
        (next.within?.toList.map fun (entry, _) => (entry, .returned id outcome)) := by
    subst same
    obtain ⟨after, resumed, rfl⟩ := Option.map_eq_some_iff.mp inside
    cases inner with
    | within entryId waiting =>
        obtain ⟨request, phase⟩ := waiting
        simp only [Store.Call.resume, Option.map_eq_some_iff] at resumed
        obtain ⟨back, resumed, rfl⟩ := resumed
        cases request with
        | lookup q =>
            cases phase <;> simp [ViewCache.Call.resume] at resumed
            subst resumed
            rw [Call.within?_wrap]
            exact .returned counted
        | store | expire | read => simp [ViewCache.Call.resume] at resumed
    | find | build | insert | got => simp [Store.Call.resume] at resumed
  cases call with
  | uncounted inner => exact through false rfl resumes
  | counted inner => exact through true rfl resumes
  | recorded => simp [Call.resume] at resumes

end

section

variable {shards : Nat} {shardOf : K → Fin shards} {run next : Run K V C E} {id : CallId}

theorem turn_of_step {clock : Clock} (moved : run.next? shardOf (.step id clock) = some next) :
    ∃ task cache after news, run.tasks id = some task ∧ Turn shardOf run.cache id (some task) cache after news ∧
      next = run.put id cache after news := by
  simp only [next?, Option.bind_eq_some_iff] at moved
  obtain ⟨task, running, stepped⟩ := moved
  cases task with
  | call call =>
      simp only [step?, Option.map_eq_some_iff] at stepped
      obtain ⟨⟨cache, after⟩, advances, rfl⟩ := stepped
      exact ⟨_, _, _, _, running, turn_of_call advances, rfl⟩
  | invalidating key =>
      cases stepped
      exact ⟨_, _, _, _, running, .invalidated, rfl⟩
  | clearing shard gone =>
      by_cases more : shard < shards
      · simp only [step?, more, if_true, Option.some.injEq] at stepped
        exact ⟨_, _, _, _, running, .swept more, stepped.symm⟩
      · simp only [step?, more, if_false, Option.some.injEq] at stepped
        exact ⟨_, _, _, _, running, .cleared (by omega), stepped.symm⟩
  | removed gone => simp [step?] at stepped

theorem resumed_of_next {outcome : Except E V} (moved : run.next? shardOf (.resume id outcome) = some next) :
    ∃ call after, run.tasks id = some (.call call) ∧ call.resume outcome = some after ∧
      next = run.put id run.cache (.call after)
        (after.within?.toList.map fun (entry, _) => (entry, .returned id outcome)) := by
  simp only [next?] at moved
  split at moved
  case h_1 call running =>
    obtain ⟨resumed, resumes, rfl⟩ := Option.map_eq_some_iff.mp moved
    exact ⟨call, resumed, running, resumes, rfl⟩
  case h_2 => cases moved

theorem supplied_of_next {policy : RefreshPolicy V C} {source : TimeSource}
    (moved : run.next? shardOf (.supply id policy source) = some next) :
    ∃ call after, run.tasks id = some (.call call) ∧ call.supply { policy, source } = some after ∧
      next = run.put id run.cache (.call after) [] := by
  simp only [next?] at moved
  split at moved
  case h_1 call running =>
    obtain ⟨supplied, supplies, rfl⟩ := Option.map_eq_some_iff.mp moved
    exact ⟨call, supplied, running, supplies, rfl⟩
  case h_2 => cases moved

theorem step_of_next {move : Move K V C E} (moved : run.next? shardOf move = some next) :
    Step shardOf run next := by
  cases move with
  | invoke id operation =>
      obtain ⟨unused, begun⟩ := begin_of_invoke moved
      cases operation with
      | lookup key context =>
          cases begun
          exact .turned unused (.sought true key (.lookup (run.cache.query context)))
      | find key goal =>
          cases begun
          exact .turned unused (.sought false key goal)
      | held entry request =>
          simp only [begin?, Option.ite_none_right_eq_some, Option.some.injEq] at begun
          obtain ⟨known, rfl⟩ := begun
          exact .turned unused (.held known)
      | invalidate key =>
          cases begun
          exact .turned unused .invalidate
      | clear =>
          cases begun
          exact .turned unused .clear
  | step id clock =>
      obtain ⟨_, _, _, _, running, turn, rfl⟩ := turn_of_step moved
      exact .turned running turn
  | supply id policy source =>
      obtain ⟨_, _, running, supplies, rfl⟩ := supplied_of_next moved
      exact .turned running (turn_of_supply supplies)
  | resume id outcome =>
      obtain ⟨_, _, running, resumes, rfl⟩ := resumed_of_next moved
      exact .turned running (turn_of_resume resumes)
  | setPolicy policy =>
      cases moved
      exact .policySet

end

end Cache.Run

end ViewCache
