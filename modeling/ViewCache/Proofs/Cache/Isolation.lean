import ViewCache.Proofs.Cache.Mirror
import ViewCache.Proofs.Entry.Account

/-!
Lookups that begin after a key was removed do not see what was published for it before, nor what is still
published through the handles that others have kept.
-/
namespace ViewCache.Cache

variable {K V C E : Type}

def Call.seeks? : Call K V C E → Option K
  | uncounted call | counted call => call.seeks?.map Prod.fst
  | recorded .. => none

@[simp]
theorem Call.seeks?_wrap (counted : Bool) (call : Store.Call K V C E) :
    (wrap counted call).seeks? = call.seeks?.map Prod.fst := by
  cases counted <;> rfl

theorem Call.entryId?_of_reply {call : Call K V C E} {v : V} {how : Served}
    (answered : call.reply? = some (.answered v how)) : ∃ entry, call.entryId? = some entry := by
  cases call with
  | counted inner => simp [reply?] at answered
  | recorded id reply => exact ⟨id, rfl⟩
  | uncounted inner =>
      cases inner with
      | within id call => exact ⟨id, rfl⟩
      | find | build | insert | got => simp [reply?, Store.Call.reply?] at answered

/-- How far the removal of a key has come: what it leaves is not older than `bound`. -/
def Emptied {shards : Nat} (shardOf : K → Fin shards) (bound : EntryId) (key : K) (store : Store K V C) :
    Task K V C E → Prop
  | .invalidating other => other = key
  | .clearing shard _ => ∀ entry, (key, entry) ∈ store.index → (shardOf key).val < shard → bound ≤ entry
  | .removed _ => ∀ entry, (key, entry) ∈ store.index → bound ≤ entry
  | .call _ => False

/-- The call is on its way to the key's entry, or has come to one that is `allowed`. -/
def Heads (key : K) (allowed : EntryId → Prop) : Task K V C E → Prop
  | .call call => (∀ other, call.seeks? = some other → other = key) ∧
      ∀ entry, call.entryId? = some entry → allowed entry
  | _ => False

namespace Run

variable [DecidableEq K] {shards : Nat} {shardOf : K → Fin shards} {run next first : Run K V C E}

theorem Reaches.rule {last : Run K V C E} {P : Run K V C E → Prop} (reaches : first.Reaches shardOf last)
    (holds : P first)
    (kept : ∀ {run next}, first.Reaches shardOf run → P run → Step shardOf run next → P next) : P last :=
  Leads.induct reaches holds fun reached holds moved => kept reached holds (step_of_next moved)

theorem Step.size_le (step : Step shardOf run next) :
    run.cache.store.entries.size ≤ next.cache.store.entries.size := by
  cases step with
  | policySet => exact Nat.le_refl _
  | turned running turn =>
      cases turn with
      | inserted => simp [put]
      | stepped => simp [put]
      | _ => exact Nat.le_refl _

theorem Reaches.size_le (reaches : first.Reaches shardOf run) :
    first.cache.store.entries.size ≤ run.cache.store.entries.size := by
  refine reaches.rule (P := fun run => first.cache.store.entries.size ≤ run.cache.store.entries.size)
    (Nat.le_refl _) ?_
  intro run next _ le step
  exact Nat.le_trans le step.size_le

theorem Step.listed (step : Step shardOf run next) {key : K} {entry : EntryId}
    (member : (key, entry) ∈ next.cache.store.index) :
    (key, entry) ∈ run.cache.store.index ∨ run.cache.store.entries.size ≤ entry := by
  cases step with
  | policySet => exact .inl member
  | turned running turn =>
      cases turn with
      | inserted =>
          rcases List.mem_cons.mp member with same | earlier
          · cases same
            exact .inr (Nat.le_refl _)
          · exact .inl earlier
      | invalidated | swept => exact .inl (Store.mem_index_drop.mp member).1
      | _ => exact .inl member

theorem Step.own (step : Step shardOf run next) {id : CallId} {task : Task K V C E}
    (running : run.tasks id = some task) :
    next.tasks id = some task ∨ ∃ cache after news,
      Turn shardOf run.cache id (some task) cache after news ∧ next = run.put id cache after news := by
  cases step with
  | policySet => exact .inl running
  | @turned me before cache after news found turn =>
      by_cases same : id = me
      · subst same
        rw [running] at found
        subst found
        exact .inr ⟨cache, after, news, turn, rfl⟩
      · exact .inl (by simpa [put, same] using running)

theorem Turn.stays {id : CallId} {task after : Task K V C E} {cache : Cache K V C} {news : Log V C E}
    (turn : Turn shardOf run.cache id (some task) cache after news) {entry : EntryId}
    (here : task.entryId? = some entry) : after.entryId? = some entry := by
  cases turn with
  | @arrived counted call key goal other seeks found =>
      cases call <;> simp [Store.Call.seeks?, Store.Call.entryId?] at seeks here
  | stepped | returned => simpa [Store.Call.entryId?] using here
  | recorded =>
      rw [Task.entryId?_call, Call.entryId?_wrap] at here
      exact here
  | missed | supplied | inserted => simp [Store.Call.entryId?] at here
  | invalidated | swept | cleared => simp [Task.entryId?] at here

theorem Reaches.stays (reaches : first.Reaches shardOf run) {id : CallId} {task : Task K V C E}
    {entry : EntryId} (running : first.tasks id = some task) (here : task.entryId? = some entry) :
    ∃ after, run.tasks id = some after ∧ after.entryId? = some entry := by
  refine reaches.rule (P := fun run => ∃ after, run.tasks id = some after ∧ after.entryId? = some entry)
    ⟨task, running, here⟩ ?_
  intro run next _ known step
  obtain ⟨task, running, here⟩ := known
  rcases step.own running with still | ⟨cache, after, news, turn, rfl⟩
  · exact ⟨task, still, here⟩
  · exact ⟨after, Function.update_self .., turn.stays here⟩

theorem Step.emptied (step : Step shardOf run next) {bound : EntryId} {key : K} {id : CallId}
    {task : Task K V C E} (older : bound ≤ run.cache.store.entries.size)
    (running : run.tasks id = some task) (emptied : Emptied shardOf bound key run.cache.store task) :
    ∃ after, next.tasks id = some after ∧ Emptied shardOf bound key next.cache.store after := by
  rcases step.own running with still | ⟨cache, after, news, turn, rfl⟩
  · refine ⟨task, still, ?_⟩
    cases task with
    | call call => exact emptied
    | invalidating other => exact emptied
    | clearing shard gone =>
        intro entry member below
        rcases step.listed member with earlier | new
        · exact emptied entry earlier below
        · exact Nat.le_trans older new
    | removed gone =>
        intro entry member
        rcases step.listed member with earlier | new
        · exact emptied entry earlier
        · exact Nat.le_trans older new
  · refine ⟨after, Function.update_self .., ?_⟩
    cases turn with
    | @invalidated other =>
        -- the task names the key, which has just been taken out
        have same : other = key := emptied
        intro entry member
        have kept := (Store.mem_index_drop.mp member).2
        simp [same] at kept
    | @swept shard gone more =>
        intro entry member below
        obtain ⟨earlier, kept⟩ := Store.mem_index_drop.mp member
        have different : (shardOf key).val ≠ shard := by simpa using kept
        exact emptied entry earlier (by omega)
    | @cleared shard gone all =>
        intro entry member
        exact emptied entry member (Nat.lt_of_lt_of_le (shardOf key).isLt all)
    | _ => exact emptied.elim

theorem Reaches.emptied (reaches : first.Reaches shardOf run) {bound : EntryId} {key : K} {id : CallId}
    {task : Task K V C E} (older : bound ≤ first.cache.store.entries.size)
    (running : first.tasks id = some task) (emptied : Emptied shardOf bound key first.cache.store task) :
    ∃ after, run.tasks id = some after ∧ Emptied shardOf bound key run.cache.store after := by
  refine reaches.rule (P := fun run => ∃ after, run.tasks id = some after ∧
    Emptied shardOf bound key run.cache.store after) ⟨task, running, emptied⟩ ?_
  intro run next reached known step
  obtain ⟨task, running, emptied⟩ := known
  exact step.emptied (Nat.le_trans older reached.size_le) running emptied

theorem Turn.heads {id : CallId} {task after : Task K V C E} {cache : Cache K V C} {news : Log V C E}
    (turn : Turn shardOf run.cache id (some task) cache after news) {key : K} {allowed : EntryId → Prop}
    (heads : Heads key allowed task)
    (held : ∀ entry, (key, entry) ∈ run.cache.store.index → allowed entry)
    (new : allowed run.cache.store.entries.size) : Heads key allowed after := by
  have arrives (counted : Bool) {entry : EntryId} (goal : Store.Goal C) (fine : allowed entry) :
      Heads key allowed (.call (.wrap counted (.arrive entry goal)) : Task K V C E) := by
    refine ⟨?_, ?_⟩
    · intro other seeks
      cases goal <;> simp [Store.Call.arrive, Store.Call.seeks?] at seeks
    · intro found here
      rw [Call.entryId?_wrap, Store.Call.entryId?_arrive] at here
      cases here
      exact fine
  cases turn with
  | missed | supplied => simpa [Heads, Store.Call.seeks?, Store.Call.entryId?] using heads
  | @arrived counted call other goal entry seeks found =>
      have same : other = key := heads.1 other (by simp [seeks])
      subst same
      exact arrives counted goal (held entry (Store.mem_index_of_find? found))
  | @inserted counted other goal fresh absent => exact arrives counted goal new
  | stepped | returned => simpa [Heads, Store.Call.seeks?, Store.Call.entryId?] using heads
  | recorded =>
      refine ⟨by simp [Call.seeks?], ?_⟩
      intro entry here
      cases here
      exact heads.2 _ (Call.entryId?_wrap ..)
  | invalidated | swept | cleared => exact heads.elim

theorem Reaches.heads {last : Run K V C E} (reaches : first.Reaches shardOf last)
    (sound : first.Sound) {bound : EntryId} {key : K} {remover reader : CallId} {gone : List EntryId}
    {task : Task K V C E} (older : bound ≤ first.cache.store.entries.size)
    (removed : first.tasks remover = some (.removed gone))
    (emptied : Emptied shardOf bound key first.cache.store (.removed gone : Task K V C E))
    (reading : first.tasks reader = some task)
    (heads : Heads key (fun entry => bound ≤ entry ∧ entry ∉ gone) task) :
    ∃ after, last.tasks reader = some after ∧
      Heads key (fun entry => bound ≤ entry ∧ entry ∉ gone) after := by
  refine (reaches.rule (P := fun run => run.Sound ∧ run.tasks remover = some (.removed gone) ∧
    ∃ after, run.tasks reader = some after ∧ Heads key (fun entry => bound ≤ entry ∧ entry ∉ gone) after)
    ⟨sound, removed, task, reading, heads⟩ ?_).2.2
  intro run next reached known step
  obtain ⟨sound, still, task, reading, heads⟩ := known
  refine ⟨step.sound sound, ?_, ?_⟩
  · rcases step.own still with still | ⟨_, _, _, turn, _⟩
    · exact still
    · cases turn
  · rcases step.own reading with waits | ⟨cache, after, news, turn, rfl⟩
    · exact ⟨task, waits, heads⟩
    · refine ⟨after, Function.update_self .., turn.heads heads ?_ ?_⟩
      · intro entry member
        obtain ⟨found, again, empty⟩ := reached.emptied older removed emptied
        rw [still] at again
        cases again
        have present : entry ∈ run.cache.store.present := List.mem_map_of_mem member
        exact ⟨empty entry member, fun out => (sound.gone still entry out).2 present⟩
      · have known := Nat.le_trans older reached.size_le
        exact ⟨known, fun out => Nat.lt_irrefl _ (sound.gone still _ out).1⟩

variable {config : CacheConfig} {policy : RefreshPolicy V C} {source : TimeSource}

theorem stands_of_logged (reaches : (new config policy source).Reaches shardOf run) {entry : EntryId}
    {event : Entry.Event V C E} (member : event ∈ entryLog entry run.log) :
    ∃ task, run.tasks event.id = some task ∧ task.entryId? = some entry := by
  have known := (sound_of_new reaches).logged (mem_entryLog.mp member)
  obtain ⟨_, _, alone, early, mirrors⟩ := mirrored reaches known
  exact mirrors.known (Entry.Run.silent early event (mirrors.log ▸ member))

theorem stands_of_yields (reaches : (new config policy source).Reaches shardOf run) {entry : EntryId}
    {writer : CallId} {v : V} (yields : Entry.Yields writer v (entryLog entry run.log)) :
    ∃ task, run.tasks writer = some task ∧ task.entryId? = some entry := by
  rcases yields with returned | began
  · exact stands_of_logged reaches returned
  · exact stands_of_logged reaches began

theorem answer_at_entry (reaches : (new config policy source).Reaches shardOf run) {reader : CallId}
    {call : Call K V C E} {entry : EntryId} {v : V} {how : Served}
    (running : run.tasks reader = some (.call call)) (here : call.entryId? = some entry)
    (answered : call.reply? = some (.answered v how)) :
    ∃ writer, Entry.origin reader (entryLog entry run.log) = some writer ∧
      Entry.Yields writer v (entryLog entry run.log) := by
  have known := (sound_of_new reaches).reached running here
  obtain ⟨_, _, alone, early, mirrors⟩ := mirrored reaches known
  have done : ∃ request, alone.calls reader = some ⟨request, .done (.answered v how)⟩ := by
    cases call with
    | counted inner => simp [Call.reply?] at answered
    | recorded id reply =>
        cases here
        cases answered
        exact mirrors.recorded running
    | uncounted inner =>
        cases inner with
        | within id call =>
            cases here
            have running : run.tasks reader = some (.call (.wrap false (.within entry call))) := running
            have standing := mirrors.within running
            obtain ⟨request, phase⟩ := call
            cases phase <;> simp [Call.reply?, Store.Call.reply?, ViewCache.Call.reply?] at answered
            subst answered
            exact ⟨request, standing⟩
        | find | build | insert | got => simp [Call.reply?, Store.Call.reply?] at answered
  obtain ⟨request, done⟩ := done
  rw [← mirrors.log]
  exact Entry.Run.answer_source early done

theorem emptied_of_removal {started finished : Run K V C E} {key : K} {removal : Operation K V C}
    {remover : CallId} {gone : List EntryId} (removes : removal = .invalidate key ∨ removal = .clear)
    (invoked : first.next? shardOf (.invoke remover removal) = some started)
    (during : started.Reaches shardOf finished) (returned : finished.tasks remover = some (.removed gone)) :
    first.cache.store.entries.size ≤ finished.cache.store.entries.size ∧
      Emptied shardOf first.cache.store.entries.size key finished.cache.store
        (.removed gone : Task K V C E) := by
  obtain ⟨_, starts⟩ := begin_of_invoke invoked
  obtain ⟨task, removing, same, emptying⟩ : ∃ task, started.tasks remover = some task ∧
      started.cache.store.entries.size = first.cache.store.entries.size ∧
      Emptied shardOf first.cache.store.entries.size key started.cache.store task := by
    rcases removes with rfl | rfl
    · cases starts
      exact ⟨_, Function.update_self .., rfl, rfl⟩
    · cases starts
      exact ⟨_, Function.update_self .., rfl, fun _ _ below => absurd below (Nat.not_lt_zero _)⟩
  obtain ⟨done, removed, emptied⟩ := during.emptied (Nat.le_of_eq same.symm) removing emptying
  rw [returned] at removed
  cases removed
  exact ⟨Nat.le_trans (Nat.le_of_eq same.symm) during.size_le, emptied⟩

/-- A call stays at its entry: whoever has a value for an entry that was made later had called no updater
before. -/
theorem unstarted_of_young {last : Run K V C E} (early : (new config policy source).Reaches shardOf first)
    (whole : first.Reaches shardOf last) {entry : EntryId} (young : first.cache.store.entries.size ≤ entry)
    {writer : CallId} {v : V} (yields : Entry.Yields writer v (entryLog entry last.log)) (other : EntryId) :
    ¬ Entry.Started writer (entryLog other first.log) := by
  intro started
  obtain ⟨event, member, starts⟩ := started
  obtain ⟨before, standing, at_other⟩ := stands_of_logged early member
  rw [Entry.Event.id_of_starts starts] at standing
  obtain ⟨later, still, at_other⟩ := whole.stays standing at_other
  obtain ⟨again, also, at_entry⟩ := stands_of_yields (Reaches.trans early whole) yields
  rw [still] at also
  cases also
  rw [at_other] at at_entry
  cases at_entry
  have known := (sound_of_new early).logged (mem_entryLog.mp member)
  exact Nat.lt_irrefl _ (Nat.lt_of_lt_of_le known young)

/-- After a key was removed, or all were, a lookup answers what was computed or published on an entry that
was not there when the removal began, nor taken out by it, by a call whose updater had not been called on
any entry before. -/
theorem lookups_after_removal_are_isolated {started finished begun last : Run K V C E} {key : K}
    {removal lookup : Operation K V C} {remover reader : CallId} {gone : List EntryId}
    {call : Call K V C E} {v : V} {how : Served}
    (early : (new config policy source).Reaches shardOf first)
    (removes : removal = .invalidate key ∨ removal = .clear)
    (invoked : first.next? shardOf (.invoke remover removal) = some started)
    (during : started.Reaches shardOf finished)
    (returned : finished.tasks remover = some (.removed gone))
    (looksUp : (∃ context, lookup = .lookup key context) ∨ ∃ q, lookup = .find key (.lookup q))
    (asked : finished.next? shardOf (.invoke reader lookup) = some begun)
    (after : begun.Reaches shardOf last)
    (running : last.tasks reader = some (.call call)) (answered : call.reply? = some (.answered v how)) :
    ∃ entry writer, call.entryId? = some entry ∧ Entry.origin reader (entryLog entry last.log) = some writer ∧
      Entry.Yields writer v (entryLog entry last.log) ∧ first.cache.store.entries.size ≤ entry ∧
      entry ∉ gone ∧ ∀ other, ¬ Entry.Started writer (entryLog other first.log) := by
  have finishedHere := (early.next invoked).trans during
  have lastHere := (finishedHere.next asked).trans after
  obtain ⟨older, emptied⟩ := emptied_of_removal removes invoked during returned
  obtain ⟨unused, begins⟩ := begin_of_invoke asked
  obtain ⟨counted, goal, rfl⟩ : ∃ counted goal,
      begun = finished.put reader finished.cache (.call (.wrap counted (.find key goal))) [] := by
    rcases looksUp with ⟨context, rfl⟩ | ⟨q, rfl⟩
    · exact ⟨true, _, (Option.some.inj begins).symm⟩
    · exact ⟨false, _, (Option.some.inj begins).symm⟩
  have other : remover ≠ reader := by
    rintro rfl
    rw [returned] at unused
    cases unused
  -- the removal has left nothing older in the map, and the lookup takes what it finds there
  obtain ⟨found, reading, heads⟩ := after.heads (sound_of_new (finishedHere.next asked)) older
    ((Function.update_of_ne other _ _).trans returned) emptied (Function.update_self ..)
    (by simp [Heads, Store.Call.seeks?, Store.Call.entryId?])
  rw [running] at reading
  cases reading
  obtain ⟨entry, here⟩ := Call.entryId?_of_reply answered
  obtain ⟨young, kept⟩ := heads.2 entry here
  obtain ⟨writer, source, yields⟩ := answer_at_entry lastHere running here answered
  have whole : first.Reaches shardOf last :=
    ((Reaches.trans (Reaches.next .refl invoked) during).next asked).trans after
  exact ⟨entry, writer, here, source, yields, young, kept, unstarted_of_young early whole young yields⟩

/-- A lookup of key 7 whose updater is running. -/
def refreshUnderWay : List (Move Nat Nat Unit Unit) :=
  List.flatten [[.invoke 1 (.lookup 7 ()), .step 1 {}, .supply 1 .timed .wall], List.replicate 6 (.step 1 {})]

/-- The key is removed, the refresh is published, and another value after it through the same handle. -/
def removeAndPublish : List (Move Nat Nat Unit Unit) :=
  List.flatten [[.step 2 {}, .resume 1 (.ok 1)], List.replicate 6 (.step 1 {}),
    [.invoke 3 (.held 0 (.store 9))], List.replicate 6 (.step 3 {})]

def lookUpAgain : List (Move Nat Nat Unit Unit) :=
  List.flatten [[.step 4 {}, .supply 4 .timed .wall], List.replicate 6 (.step 4 {}),
    [.resume 4 (.ok 2)], List.replicate 6 (.step 4 {})]

def oneShard : Nat → Fin 1 := fun _ => 0

theorem refresh_across_removal_is_isolated : ∃ first started finished begun last : Run Nat Nat Unit Unit,
    ∃ writer, (new { timeout := -1 } .timed .wall).follow? oneShard refreshUnderWay = some first ∧
      first.next? oneShard (.invoke 2 (.invalidate 7)) = some started ∧
      started.follow? oneShard removeAndPublish = some finished ∧ finished.tasks 2 = some (.removed [0]) ∧
      (finished.cache.store.entry? 0).bind Entry.value? = some 9 ∧
      finished.next? oneShard (.invoke 4 (.lookup 7 ())) = some begun ∧
      begun.follow? oneShard lookUpAgain = some last ∧
      last.tasks 4 = some (.call (.recorded 1 (.answered 2 .computed))) ∧
      Entry.origin 4 (entryLog 1 last.log) = some writer ∧ Entry.Yields writer 2 (entryLog 1 last.log) ∧
      first.cache.store.entries.size ≤ 1 ∧ 1 ∉ [0] ∧ ∀ other, ¬ Entry.Started writer (entryLog other first.log) := by
  have computed : (((new { timeout := -1 } .timed .wall).follow? oneShard refreshUnderWay).bind
      fun first : Run Nat Nat Unit Unit =>
        (first.next? oneShard (.invoke 2 (.invalidate 7))).bind fun started =>
        (started.follow? oneShard removeAndPublish).bind fun finished =>
        (finished.next? oneShard (.invoke 4 (.lookup 7 ()))).bind fun begun =>
        (begun.follow? oneShard lookUpAgain).map fun last =>
        (finished.tasks 2, (finished.cache.store.entry? 0).bind Entry.value?, last.tasks 4)) =
      some (some (.removed [0]), some 9, some (.call (.recorded 1 (.answered 2 .computed)))) := by
    rfl
  obtain ⟨first, early, computed⟩ := Option.bind_eq_some_iff.mp computed
  obtain ⟨started, invoked, computed⟩ := Option.bind_eq_some_iff.mp computed
  obtain ⟨finished, during, computed⟩ := Option.bind_eq_some_iff.mp computed
  obtain ⟨begun, asked, computed⟩ := Option.bind_eq_some_iff.mp computed
  obtain ⟨last, after, facts⟩ := Option.map_eq_some_iff.mp computed
  simp only [Prod.mk.injEq] at facts
  obtain ⟨returned, published, answered⟩ := facts
  obtain ⟨entry, writer, here, source, yields, young, kept, unstarted⟩ :=
    lookups_after_removal_are_isolated (.of_follow early) (.inl rfl) invoked (.of_follow during) returned
      (.inl ⟨(), rfl⟩) asked (.of_follow after) answered rfl
  cases here
  exact ⟨first, started, finished, begun, last, writer, early, invoked, during, returned, published, asked,
    after, answered, source, yields, young, kept, unstarted⟩

end Run

end ViewCache.Cache
