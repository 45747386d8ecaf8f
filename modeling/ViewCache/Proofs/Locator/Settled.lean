import ViewCache.Proofs.Cache.Isolation
import ViewCache.Proofs.Entry.Settled
import ViewCache.Proofs.Locator.Threads

namespace ViewCache.Locator

open Cache (Task entryLog)

namespace Run

def Lasting (config : LocatorConfig) (page : Option Page) : Prop :=
  page.any Page.isPrecompiled = true ∨ config.reload = false

structure Settled (config : LocatorConfig) (run : Run) (key : Key) (entry : EntryId) (page : Option Page) : Prop where
  holds : run.cache.store.find? key = some entry
  published : Entry.Published page (entryLog entry run.log)
  lasts : Lasting config page

/-- The way of a lookup to a page that its entry shows, with the steps that are left of it. -/
inductive Course (query : Query Unit) (entry : EntryId) (page : Option Page) :
    Nat → Task Key (Option Page) Unit Failure → Prop
  | stamp : Course query entry page 4 (.call (.counted (.within entry ⟨.lookup query, .loadStamp⟩)))
  | flag {snapshot} (stamped : snapshot ≠ neverPublished) :
      Course query entry page 3 (.call (.counted (.within entry ⟨.lookup query, .loadFlag snapshot⟩)))
  | slot {snapshot} (stamped : snapshot ≠ neverPublished) :
      Course query entry page 2 (.call (.counted (.within entry ⟨.lookup query, .readSlot snapshot⟩)))
  | done :
      Course query entry page 1 (.call (.counted (.within entry ⟨.lookup query, .done (.answered page .fresh)⟩)))
  | recorded : Course query entry page 0 (.call (.recorded entry (.answered page .fresh)))

/-- What holds of a lookup that has taken `taken` steps since it looked into the map. -/
structure FromCache {shards : Nat} (shardOf : Key → Fin shards) (page : Option Page) (id : CallId) (taken : Nat)
    (run : Run) : Prop where
  bounded : taken ≤ 4
  goesOn : taken < 4 → ∀ clock, ∃ next, run.next? shardOf (.step id clock) = some next
  ends : taken = 4 → ∃ entry reply, run.tasks id = some (.call (.recorded entry reply))
  answered : ∀ {entry reply}, run.tasks id = some (.call (.recorded entry reply)) → resolutionOf reply = .ok page
  unasked : ∀ entry, ¬ Entry.Started id (entryLog entry run.log)

variable {config : LocatorConfig} {source : TimeSource} {shards : Nat} {shardOf : Key → Fin shards}
  {run next last : Run} {key : Key} {entry : EntryId} {page : Option Page} {id : CallId}

theorem locked_of_timeout (timeout : config.effectiveTimeout ≠ 0) : (query config).isUnlocked = false := by
  simpa [query, Query.isUnlocked, Timeout.never] using timeout

theorem Lasting.of_query (lasts : Lasting config page) :
    pagePolicy.isPinned page (query config).context = true ∨ (query config).timeout < 0 := by
  refine Or.imp_right ?_ lasts
  intro kept
  simp [query, LocatorConfig.effectiveTimeout, kept, Timeout.forever]

theorem Reaches.published (reaches : run.Reaches shardOf last)
    (published : Entry.Published page (entryLog entry run.log)) : Entry.Published page (entryLog entry last.log) := by
  obtain ⟨news, log⟩ := reaches.log
  rw [log, Cache.entryLog_append]
  exact published.later _

structure Shows (page : Option Page) (cells : Entry (Option Page) Unit) : Prop where
  slot : cells.slot = some page
  initialized : cells.initialized = true
  stamped : cells.stamp ≠ neverPublished
  policy : cells.policy = pagePolicy

theorem shown_of_published (timeout : config.effectiveTimeout ≠ 0) (reaches : (new config source).Reaches shardOf run)
    (steady : run.Steady) (published : Entry.Published page (entryLog entry run.log))
    (lasts : Lasting config page) :
    ∃ cells, run.cache.store.entry? entry = some cells ∧ Shows page cells := by
  have kept := kept_of_new reaches
  have known : entry < run.cache.store.entries.size := by
    obtain ⟨_, _, _, returned⟩ := published
    exact (Cache.Run.sound_of_new reaches.onCache).logged (Cache.mem_entryLog.mp returned)
  obtain ⟨policy, _, alone, early, mirrors⟩ := Cache.Run.mirrored reaches.onCache known
  have pins : alone.entry.policy = pagePolicy := kept.pins mirrors.shown
  have settles : Entry.Settles policy page alone.log := by
    intro other request began
    rw [mirrors.log, Cache.mem_entryLog] at began
    refine ⟨query config, kept.asked began, locked_of_timeout timeout, ?_⟩
    rw [← Entry.Run.policy_fixed early, pins]
    exact lasts.of_query
  rw [← mirrors.log] at published
  have steadyAlone : Entry.Steady alone.log := mirrors.log ▸ steady.entryLog entry
  obtain ⟨slot, up, stamped⟩ := Entry.Run.shown_of_published early steadyAlone settles published
  exact ⟨alone.entry, mirrors.shown, slot, up, stamped, pins⟩

theorem next?_of_call {call : Cache.Call Key (Option Page) Unit Failure} (running : run.tasks id = some (.call call))
    (resting : call.isBuilding = false) (clock : Clock) :
    run.next? shardOf (.step id clock) = (call.step id clock run.cache).map fun moved =>
      Cache.Run.put run id moved.1 (.call moved.2) (Cache.Run.news id clock run.cache.store call moved.2) := by
  simp [next?, onCache, running, resting, Cache.Run.next?, Cache.Run.step?]

variable (shardOf) in
theorem next_of_within {request : Request (Option Page) Unit} {phase after : Phase (Option Page) Failure}
    {cells left : Entry (Option Page) Unit} {clock : Clock}
    (running : run.tasks id = some (.call (.counted (.within entry ⟨request, phase⟩))))
    (known : run.cache.store.entry? entry = some cells)
    (advance : Call.Advance id (clock.now cells.source) request cells phase left after) :
    ∃ next, run.next? shardOf (.step id clock) = some next ∧
      next.tasks id = some (.call (.counted (.within entry ⟨request, after⟩))) := by
  have unanswered : (⟨request, phase⟩ : Call (Option Page) Unit Failure).reply? = none := by
    cases advance <;> rfl
  rw [next?_of_call running rfl]
  simp [Cache.Call.step, Store.Call.entryId?, Store.Call.reply?, unanswered, Store.Call.step, known,
    ViewCache.Call.step, Call.advance_of_case advance, Cache.Run.put]

variable {left : Nat} {task : Task Key (Option Page) Unit Failure}

theorem Course.nearer {cells : Entry (Option Page) Unit} (course : Course (query config) entry page (left + 1) task)
    (running : run.tasks id = some task) (known : run.cache.store.entry? entry = some cells)
    (shows : Shows page cells) (lasts : Lasting config page) (clock : Clock) :
    ∃ next after, run.next? shardOf (.step id clock) = some next ∧ next.tasks id = some after ∧
      Course (query config) entry page left after := by
  cases course with
  | stamp =>
      have loaded : Call.Advance id (clock.now cells.source) (.lookup (query config)) cells
          (.loadStamp : Phase (Option Page) Failure) cells (.loadFlag cells.stamp) := .loadStamp
      obtain ⟨next, moved, after⟩ := next_of_within shardOf running known loaded
      exact ⟨next, _, moved, after, .flag shows.stamped⟩
  | flag stamped =>
      obtain ⟨next, moved, after⟩ := next_of_within shardOf running known (.flagUp rfl shows.initialized)
      exact ⟨next, _, moved, after, .slot stamped⟩
  | @slot snapshot stamped =>
      have taken : Call.Advance id (clock.now cells.source) (.lookup (query config)) cells
          (.readSlot snapshot : Phase (Option Page) Failure) cells (.done (.answered page .fresh)) := by
        cases pin : cells.policy.isPinned page (query config).context with
        | true => exact .pinned rfl shows.slot pin
        | false =>
            refine .forever rfl shows.slot pin stamped ?_
            refine lasts.of_query.resolve_left ?_
            simpa [shows.policy] using pin
      obtain ⟨next, moved, after⟩ := next_of_within shardOf running known taken
      exact ⟨next, _, moved, after, .done⟩
  | done =>
      have recorded : run.next? shardOf (.step id clock) = _ := next?_of_call running rfl clock
      exact ⟨_, _, recorded, Function.update_self .., .recorded⟩

theorem Course.own {cells : Entry (Option Page) Unit} {move : Move}
    (course : Course (query config) entry page left task) (running : run.tasks move.id = some task)
    (known : run.cache.store.entry? entry = some cells) (shows : Shows page cells) (lasts : Lasting config page)
    (moved : run.next? shardOf move = some next) :
    ∃ fewer after, left = fewer + 1 ∧ next.tasks move.id = some after ∧
      Course (query config) entry page fewer after := by
  cases move with
  | lookup id key | invalidate id key | clear id =>
      obtain ⟨unused, -⟩ := Cache.Run.begin_of_invoke moved
      rw [Move.id, unused] at running
      cases running
  | step id clock =>
      have running : run.tasks id = some task := running
      cases left with
      | zero =>
          cases course
          rw [next?_of_call running rfl] at moved
          cases moved
      | succ left =>
          obtain ⟨nearer, after, moves, there, course⟩ := course.nearer running known shows lasts clock
          rw [moved] at moves
          cases moves
          exact ⟨left, after, rfl, there, course⟩
  | answer id resolution =>
      obtain ⟨_, _, waiting, resumes, -⟩ := Cache.Run.resumed_of_next moved
      rw [Move.id, waiting] at running
      cases running
      cases course <;> simp [Cache.Call.resume, Store.Call.resume, ViewCache.Call.resume] at resumes

theorem Course.follow (timeout : config.effectiveTimeout ≠ 0) (lasts : Lasting config page) {moves : List Move}
    (early : (new config source).Reaches shardOf run) (published : Entry.Published page (entryLog entry run.log))
    (course : Course (query config) entry page left task) (running : run.tasks id = some task)
    (followed : run.follow? shardOf moves = some last) (steady : last.Steady) :
    ∃ fewer after, left = fewer + moves.countP (·.id == id) ∧ last.tasks id = some after ∧
      Course (query config) entry page fewer after := by
  -- only a move of its own thread shortens the way, and the entry shows the page before each of them
  induction moves generalizing run left task with
  | nil =>
      cases followed
      exact ⟨left, task, rfl, running, course⟩
  | cons move moves ih =>
      have whole : run.Reaches shardOf last := .of_follow followed
      rw [follow?, List.foldlM_cons] at followed
      obtain ⟨next, moved, rest⟩ := Option.bind_eq_some_iff.mp followed
      have later : (new config source).Reaches shardOf next := early.tail ⟨move, moved⟩
      have still : Entry.Published page (entryLog entry next.log) :=
        (Reaches.of_next moved).published published
      by_cases own : move.id = id
      · subst own
        obtain ⟨cells, known, shows⟩ := shown_of_published timeout early (whole.steady steady) published lasts
        obtain ⟨fewer, after, one, there, course⟩ := course.own running known shows lasts moved
        obtain ⟨left, last, count, there, course⟩ := ih later still course there rest
        refine ⟨left, last, ?_, there, course⟩
        simp only [List.countP_cons, beq_self_eq_true, if_true]
        omega
      · have there := (tasks_of_next moved (Ne.symm own)).trans running
        obtain ⟨fewer, after, count, there, course⟩ := ih later still course there rest
        exact ⟨fewer, after, by simpa [List.countP_cons, own] using count, there, course⟩

theorem Course.unasked (course : Course (query config) entry page left task)
    (reaches : (new config source).Reaches shardOf run) (running : run.tasks id = some task) (other : EntryId) :
    ¬ Entry.Started id (entryLog other run.log) := by
  intro started
  have called := started
  obtain ⟨event, member, starts⟩ := called
  have known := (Cache.Run.sound_of_new reaches.onCache).logged (Cache.mem_entryLog.mp member)
  obtain ⟨standing, there, at_other⟩ := Cache.Run.stands_of_logged reaches.onCache member
  rw [Entry.Event.id_of_starts starts, running] at there
  cases there
  obtain ⟨policy, _, alone, early, mirrors⟩ := Cache.Run.mirrored reaches.onCache known
  have calling : ∃ request phase, alone.calls id = some ⟨request, phase⟩ ∧ Entry.isUnstarted phase = true := by
    cases course with
    | recorded =>
        cases at_other
        obtain ⟨request, ended⟩ := mirrors.recorded running
        exact ⟨request, _, ended, rfl⟩
    | stamp | flag | slot | done =>
        cases at_other
        exact ⟨_, _, mirrors.within (show _ = some (Task.call (.wrap true _)) from running), rfl⟩
  obtain ⟨request, phase, calling, fresh⟩ := calling
  exact Entry.Run.not_started early calling fresh (mirrors.log ▸ started)

theorem Course.begins (timeout : config.effectiveTimeout ≠ 0) (kept : Kept config run)
    (held : run.cache.store.find? key = some entry)
    (running : run.tasks id = some (.call (.lookup run.cache key ()))) {clock : Clock}
    (moved : run.next? shardOf (.step id clock) = some next) (page : Option Page) :
    ∃ task, next.tasks id = some task ∧ Course (query config) entry page 4 task := by
  rw [next?_of_call running rfl] at moved
  simp [Cache.Call.lookup, Cache.Call.step, Store.Call.entryId?, Store.Call.step, held, kept.asks, Store.Call.arrive,
    ViewCache.Call.start, locked_of_timeout timeout] at moved
  subst moved
  exact ⟨_, Function.update_self .., .stamp⟩

theorem Course.fromCache (timeout : config.effectiveTimeout ≠ 0) (reaches : (new config source).Reaches shardOf run)
    (steady : run.Steady) (published : Entry.Published page (entryLog entry run.log))
    (lasts : Lasting config page)
    (course : Course (query config) entry page left task) (running : run.tasks id = some task) {taken : Nat}
    (count : 4 = left + taken) : FromCache shardOf page id taken run := by
  refine ⟨by omega, ?goesOn, ?ends, ?answered, course.unasked reaches running⟩
  case goesOn =>
    intro few clock
    obtain ⟨fewer, rfl⟩ : ∃ fewer, left = fewer + 1 := Nat.exists_eq_succ_of_ne_zero (by omega)
    obtain ⟨cells, known, shows⟩ := shown_of_published timeout reaches steady published lasts
    obtain ⟨next, _, moved, _⟩ := course.nearer running known shows lasts clock
    exact ⟨next, moved⟩
  case ends =>
    intro all
    obtain rfl : left = 0 := by omega
    cases course
    exact ⟨entry, _, running⟩
  case answered =>
    intro other reply ended
    rw [running] at ended
    cases ended
    cases course
    rfl

/-- No entry's updaters come to a page twice where pages are cached forever. -/
theorem succeeds_once_forever (kept : config.reload = false) (reaches : (new config source).Reaches shardOf run)
    (steady : run.Steady) (entry : EntryId) : (entryLog entry run.log).countP Entry.Event.succeeds ≤ 1 := by
  by_cases known : entry < run.cache.store.entries.size
  · obtain ⟨_, _, alone, early, mirrors⟩ := Cache.Run.mirrored reaches.onCache known
    -- with reloading off every lookup asks for any age
    have forever : Entry.Forever alone.log := by
      intro other request began
      rw [mirrors.log, Cache.mem_entryLog] at began
      refine ⟨query config, (kept_of_new reaches).asked began, ?_⟩
      simp [query, LocatorConfig.effectiveTimeout, kept, Timeout.forever]
    have steadyAlone : Entry.Steady alone.log := mirrors.log ▸ steady.entryLog entry
    exact mirrors.log ▸ Entry.Run.succeeds_once early steadyAlone forever
  · have silent : entryLog entry run.log = [] := by
      refine Cache.entryLog_eq_nil ?_
      rintro other event member rfl
      exact known ((Cache.Run.sound_of_new reaches.onCache).logged member)
    simp [silent]

/-- Once a lookup has published a page that does not expire, on the entry that the key holds, every lookup of the
key that looks into the map before the key is taken out again answers that page within four more steps of its own,
of which each is possible at any time, and does not ask the resolver. If pages are cached forever, the resolver
comes to at most one for each entry. -/
theorem settled_lookups_stay_settled (config : LocatorConfig) (source : TimeSource) {shards : Nat}
    (shardOf : Key → Fin shards) {last : Run} (timeout : config.effectiveTimeout ≠ 0)
    (reaches : (new config source).Reaches shardOf last) (steady : last.Steady) :
    (∀ settled looking looked key entry page id clock moves, (new config source).Reaches shardOf settled →
      Settled config settled key entry page → Calm shardOf key settled looking →
      looking.tasks id = some (.call (.lookup looking.cache key ())) →
      looking.next? shardOf (.step id clock) = some looked → looked.follow? shardOf moves = some last →
      FromCache shardOf page id (moves.countP (·.id == id)) last) ∧
    (config.reload = false → ∀ entry, (entryLog entry last.log).countP Entry.Event.succeeds ≤ 1) := by
  refine ⟨?_, fun kept => succeeds_once_forever kept reaches steady⟩
  intro settled looking looked key entry page id clock moves early made calm running looks followed
  have here : (new config source).Reaches shardOf looking := early.trans calm.reaches
  have started : (new config source).Reaches shardOf looked := here.tail ⟨_, looks⟩
  have further : settled.Reaches shardOf looked := calm.reaches.tail ⟨_, looks⟩
  have published : Entry.Published page (entryLog entry looked.log) := further.published made.published
  obtain ⟨task, first, course⟩ :=
    Course.begins timeout (kept_of_new here) (calm.found made.holds) running looks page
  obtain ⟨left, task, count, there, course⟩ :=
    course.follow timeout made.lasts started published first followed steady
  have still : Entry.Published page (entryLog entry last.log) := (Reaches.of_follow followed).published published
  exact course.fromCache timeout reaches steady still made.lasts there count

/-- A lookup asks the resolver, which finds nothing, and publishes that. -/
def findNothing : List Move :=
  List.flatten [[.lookup 1 {}], List.replicate 8 (.step 1 {}), [.answer 1 (.ok none)], List.replicate 4 (.step 1 {})]

/-- Another thread takes the key out while a second lookup is on its way. -/
def removedOnTheWay : List Move :=
  [.invalidate 3 {}, .step 2 {}, .step 2 {}, .step 3 {}, .step 2 { wall := 5000000 }, .step 2 { wall := 5000000 }]

def oneShard : Key → Fin 1 := fun _ => ⟨0, Nat.zero_lt_one⟩

theorem missing_view_stays_missing : ∃ settled looking looked last : Run,
    (new .production .wall).follow? oneShard findNothing = some settled ∧
      Settled .production settled {} 0 none ∧ settled.next? oneShard (.lookup 2 {}) = some looking ∧
      Calm oneShard {} settled looking ∧ looking.next? oneShard (.step 2 {}) = some looked ∧
      looked.follow? oneShard removedOnTheWay = some last ∧ last.cache.store.find? {} = none ∧ last.Steady ∧
      FromCache oneShard none 2 4 last ∧ (entryLog 0 last.log).countP Entry.Event.succeeds ≤ 1 := by
  have computed : ((new .production .wall).follow? oneShard findNothing).bind (fun settled =>
      (settled.next? oneShard (.lookup 2 {})).bind fun looking =>
      (looking.next? oneShard (.step 2 {})).bind fun looked =>
      (looked.follow? oneShard removedOnTheWay).map fun last =>
      (settled.cache.store.find? {}, Entry.publishes (entryLog 0 settled.log), (entryLog 0 settled.log)[4]?,
        looking.tasks 2, last.cache.store.find? {}, Entry.readings (last.log.map Prod.snd))) =
      some (some 0, [(1, 1)], some (.returned 1 (.ok none)),
        some (.call (.counted (.find {} (.lookup (query .production))))), none, [1]) := by
    rfl
  obtain ⟨settled, early, computed⟩ := Option.bind_eq_some_iff.mp computed
  obtain ⟨looking, invoked, computed⟩ := Option.bind_eq_some_iff.mp computed
  obtain ⟨looked, looks, computed⟩ := Option.bind_eq_some_iff.mp computed
  obtain ⟨last, followed, facts⟩ := Option.map_eq_some_iff.mp computed
  simp only [Prod.mk.injEq] at facts
  obtain ⟨holds, published, returned, running, removed, readings⟩ := facts
  have made : Settled .production settled {} 0 none :=
    ⟨holds, ⟨1, 1, by simp [published], List.mem_of_getElem? returned⟩, .inr rfl⟩
  have calm : Calm oneShard {} settled looking := .single ⟨_, invoked, not_false⟩
  have here : (new .production .wall).Reaches oneShard looking := (Reaches.of_follow early).trans calm.reaches
  have steady : last.Steady := by simp [Steady, Entry.Steady, readings]
  have asks : looking.tasks 2 = some (.call (.lookup looking.cache {} ())) := by
    rw [running, Cache.Call.lookup, (kept_of_new here).asks]
  have whole : (new .production .wall).Reaches oneShard last :=
    (here.tail ⟨_, looks⟩).trans (Reaches.of_follow followed)
  obtain ⟨served, once⟩ := settled_lookups_stay_settled .production .wall oneShard (by decide) whole steady
  exact ⟨settled, looking, looked, last, early, made, invoked, calm, looks, followed, removed, steady,
    served settled looking looked {} 0 none 2 {} _ (.of_follow early) made calm asks looks followed, once rfl 0⟩

end Run

end ViewCache.Locator
