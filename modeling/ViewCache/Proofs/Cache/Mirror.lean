import ViewCache.Proofs.Cache.Handles
import ViewCache.Proofs.Entry.Step

namespace ViewCache.Cache

variable {K V C E : Type}

theorem entryLog_append (entry : EntryId) (newer older : Log V C E) :
    entryLog entry (newer ++ older) = entryLog entry newer ++ entryLog entry older :=
  List.filterMap_append

theorem entryLog_eq_nil {entry : EntryId} {log : Log V C E}
    (elsewhere : ∀ {other event}, (other, event) ∈ log → other ≠ entry) : entryLog entry log = [] := by
  refine List.filterMap_eq_nil_iff.mpr ?_
  intro told member
  exact if_neg (elsewhere member)

theorem entryLog_self (entry : EntryId) (event : Entry.Event V C E) :
    entryLog entry [(entry, event)] = [event] := by
  simp [entryLog]

theorem entryLog_other {entry other : EntryId} (different : other ≠ entry) (event : Entry.Event V C E) :
    entryLog entry [(other, event)] = [] := by
  simp [entryLog, different]

theorem mem_entryLog {entry : EntryId} {log : Log V C E} {event : Entry.Event V C E} :
    event ∈ entryLog entry log ↔ (entry, event) ∈ log := by
  simp [entryLog]

namespace Run

/-- The run `alone` is what the run on the cache is for one of its entries. -/
structure Mirrors (entry : EntryId) (run : Run K V C E) (alone : Entry.Run V C E) : Prop where
  shown : run.cache.store.entry? entry = some alone.entry
  log : alone.log = entryLog entry run.log
  within : ∀ {id counted call}, run.tasks id = some (.call (.wrap counted (.within entry call))) →
    alone.calls id = some call
  recorded : ∀ {id reply}, run.tasks id = some (.call (.recorded entry reply)) →
    ∃ request, alone.calls id = some ⟨request, .done reply⟩
  known : ∀ {id}, alone.calls id ≠ none → ∃ task, run.tasks id = some task ∧ task.entryId? = some entry

variable {run : Run K V C E} {alone : Entry.Run V C E} {entry : EntryId} {id : CallId}
  {cache : Cache K V C} {news : Log V C E}

theorem Mirrors.move (mirrors : Mirrors entry run alone) {counted : Bool} {call : ViewCache.Call V C E}
    {after : Entry V C} {event : Entry.Event V C E} (shown : cache.store.entry? entry = some after)
    (told : entryLog entry news = [event]) :
    Mirrors entry (run.put id cache (.call (.wrap counted (.within entry call))) news)
      (alone.put id call after event) := by
  refine ⟨shown, ?_, ?_, ?_, ?_⟩
  · simp only [Entry.Run.put, put, entryLog_append, told, mirrors.log, List.singleton_append]
  · intro other again found running
    rcases tasks_put running with ⟨rfl, same⟩ | ⟨different, running⟩
    · cases Task.wrap_injective same
      simp [Entry.Run.put]
    · simpa [Entry.Run.put, different] using mirrors.within running
  · intro other reply running
    rcases tasks_put running with ⟨rfl, same⟩ | ⟨different, running⟩
    · exact absurd same Task.recorded_ne_wrap
    · simpa [Entry.Run.put, different] using mirrors.recorded running
  · intro other busy
    by_cases same : other = id
    · subst same
      exact ⟨_, Function.update_self .., by simp [Store.Call.entryId?]⟩
    · obtain ⟨task, running, at_entry⟩ := mirrors.known (by simpa [Entry.Run.put, same] using busy)
      exact ⟨task, by simpa [put, same] using running, at_entry⟩

theorem Mirrors.quiet (mirrors : Mirrors entry run alone) {task : Task K V C E}
    (same : cache.store.entry? entry = run.cache.store.entry? entry) (silent : entryLog entry news = [])
    (unknown : alone.calls id = none)
    (idle : ∀ counted call, task ≠ .call (.wrap counted (.within entry call)))
    (open_end : ∀ reply, task ≠ .call (.recorded entry reply)) :
    Mirrors entry (run.put id cache task news) alone := by
  refine ⟨same.trans mirrors.shown, ?_, ?_, ?_, ?_⟩
  · simp only [put, entryLog_append, silent, mirrors.log, List.nil_append]
  · intro other counted call running
    rcases tasks_put running with ⟨rfl, same⟩ | ⟨_, running⟩
    · exact absurd same.symm (idle counted call)
    · exact mirrors.within running
  · intro other reply running
    rcases tasks_put running with ⟨rfl, same⟩ | ⟨_, running⟩
    · exact absurd same.symm (open_end reply)
    · exact mirrors.recorded running
  · intro other busy
    have different : other ≠ id := by
      rintro rfl
      exact busy unknown
    obtain ⟨task, running, at_entry⟩ := mirrors.known busy
    exact ⟨task, by simpa [put, different] using running, at_entry⟩

theorem Mirrors.unknown (mirrors : Mirrors entry run alone)
    (away : (run.tasks id).bind Task.entryId? ≠ some entry) : alone.calls id = none := by
  by_contra busy
  obtain ⟨task, running, at_entry⟩ := mirrors.known busy
  exact away (by simp [running, at_entry])

theorem Mirrors.other (mirrors : Mirrors entry run alone) {task : Task K V C E}
    (same : cache.store.entry? entry = run.cache.store.entry? entry)
    (silent : entryLog entry news = [])
    (away : (run.tasks id).bind Task.entryId? ≠ some entry)
    (elsewhere : task.entryId? ≠ some entry) : Mirrors entry (run.put id cache task news) alone := by
  refine mirrors.quiet same silent (mirrors.unknown away) ?_ ?_
  · rintro counted call rfl
    simp [Store.Call.entryId?] at elsewhere
  · rintro reply rfl
    exact elsewhere rfl

theorem Mirrors.record (mirrors : Mirrors entry run alone) {request : Request V C} {reply : Reply V E}
    (running : run.tasks id = some (.call (.counted (.within entry ⟨request, .done reply⟩))))
    (same : cache.store = run.cache.store) :
    Mirrors entry (run.put id cache (.call (.recorded entry reply)) []) alone := by
  have running : run.tasks id = some (.call (.wrap true (.within entry ⟨request, .done reply⟩))) := running
  refine ⟨by rw [put, same]; exact mirrors.shown, mirrors.log, ?_, ?_, ?_⟩
  · intro other counted call found
    rcases tasks_put found with ⟨rfl, same⟩ | ⟨_, found⟩
    · exact absurd same.symm Task.recorded_ne_wrap
    · exact mirrors.within found
  · intro other told found
    rcases tasks_put found with ⟨rfl, same⟩ | ⟨_, found⟩
    · cases same
      exact ⟨request, mirrors.within running⟩
    · exact mirrors.recorded found
  · intro other busy
    by_cases same : other = id
    · subst same
      exact ⟨_, Function.update_self .., rfl⟩
    · obtain ⟨task, found, at_entry⟩ := mirrors.known busy
      exact ⟨task, by simpa [put, same] using found, at_entry⟩

theorem entryLog_arrival {other : EntryId} (different : other ≠ entry) {goal : Store.Goal C} :
    entryLog entry (Run.arrival id other goal : Log V C E) = [] := by
  cases goal with
  | entry => rfl
  | lookup q => exact entryLog_other different _

variable {policy : RefreshPolicy V C} {source : TimeSource}

theorem Mirrors.arrival (mirrors : Mirrors entry run alone)
    (early : (Entry.Run.new policy source).Reaches alone) (unknown : alone.calls id = none)
    (same : cache.store.entry? entry = run.cache.store.entry? entry) (counted : Bool)
    (goal : Store.Goal C) :
    ∃ after, (Entry.Run.new policy source).Reaches after ∧
      Mirrors entry (run.put id cache (.call (.wrap counted (.arrive entry goal))) (arrival id entry goal))
        after := by
  cases goal with
  | entry =>
      refine ⟨alone, early, mirrors.quiet same rfl unknown ?_ ?_⟩
      · intro again call
        cases counted <;> cases again <;> simp [Call.wrap, Store.Call.arrive]
      · intro reply
        cases counted <;> simp [Call.wrap, Store.Call.arrive]
  | lookup q =>
      exact ⟨_, early.step (.began unknown),
        mirrors.move (same.trans mirrors.shown) (entryLog_self ..)⟩

theorem mirrors_fresh (sound : run.Sound) (policy : RefreshPolicy V C) (source : TimeSource) (key : K) :
    Mirrors run.cache.store.entries.size
      { run with cache.store := ⟨run.cache.store.entries.push { policy, source },
          (key, run.cache.store.entries.size) :: run.cache.store.index⟩ }
      (Entry.Run.new policy source) := by
  refine ⟨?_, ?_, ?_, ?_, ?_⟩
  · unfold Store.entry?
    simp [Entry.Run.new, Entry.Run.start]
  · refine (entryLog_eq_nil ?_).symm
    intro other event member
    exact Nat.ne_of_lt (sound.logged member)
  · intro other counted call running
    exact absurd (sound.reached running (by simp [Store.Call.entryId?])) (Nat.lt_irrefl _)
  · intro other reply running
    exact absurd (sound.reached running rfl) (Nat.lt_irrefl _)
  · intro other busy
    simp [Entry.Run.new, Entry.Run.start] at busy

theorem mirrors_inserted (sound : run.Sound) {counted : Bool} {key : K} {goal : Store.Goal C} {fresh : Entry V C}
    (running : run.tasks id = some (.call (.wrap counted (.insert key goal fresh)))) :
    ∃ policy source alone, (Entry.Run.new policy source).Reaches alone ∧
      Mirrors run.cache.store.entries.size
        (run.put id
          { run.cache with store := ⟨run.cache.store.entries.push fresh,
              (key, run.cache.store.entries.size) :: run.cache.store.index⟩ }
          (.call (.wrap counted (.arrive run.cache.store.entries.size goal)))
          (arrival id run.cache.store.entries.size goal)) alone := by
  obtain ⟨policy, source, rfl⟩ := sound.built running
  obtain ⟨alone, early, mirrors⟩ :=
    (mirrors_fresh sound policy source key).arrival (.refl _) rfl rfl counted goal
  exact ⟨policy, source, alone, early, mirrors⟩

variable [DecidableEq K] {shards : Nat} {shardOf : K → Fin shards} {next : Run K V C E}

theorem Turn.mirrors {before : Option (Task K V C E)} {task : Task K V C E}
    (turn : Turn shardOf run.cache id before cache task news) (running : run.tasks id = before)
    (known : entry < run.cache.store.entries.size) (early : (Entry.Run.new policy source).Reaches alone)
    (mirrors : Mirrors entry run alone) :
    ∃ after, (Entry.Run.new policy source).Reaches after ∧ Mirrors entry (run.put id cache task news) after := by
  cases turn with
  | @sought counted key goal =>
      exact ⟨alone, early, mirrors.other rfl rfl (by simp [running]) (by simp [Store.Call.entryId?])⟩
  | @held other request _ =>
      by_cases same : other = entry
      · subst same
        have unknown : alone.calls id = none := mirrors.unknown (by simp [running])
        have moved : Mirrors other
            (run.put id run.cache (.call (.wrap false (.within other (.start request)))) [(other, .began id request)])
            (alone.put id (.start request) alone.entry (.began id request)) :=
          mirrors.move mirrors.shown (entryLog_self ..)
        exact ⟨_, early.step (.began unknown), moved⟩
      · refine ⟨alone, early, mirrors.other rfl (entryLog_other same _) (by simp [running]) ?_⟩
        intro at_entry
        exact same (by simpa [Call.onHeld, Call.entryId?, Store.Call.entryId?] using at_entry)
  | invalidate | clear =>
      exact ⟨alone, early, mirrors.other rfl rfl (by simp [running]) (by simp [Task.entryId?])⟩
  | missed =>
      exact ⟨alone, early, mirrors.other rfl rfl (by simp [running, Store.Call.entryId?])
        (by simp [Store.Call.entryId?])⟩
  | supplied counted =>
      exact ⟨alone, early, mirrors.other rfl rfl (by simp [running, Store.Call.entryId?])
        (by simp [Store.Call.entryId?])⟩
  | @arrived counted call key goal other seeks found =>
      -- a call that is still on its way to an entry has done nothing to this one
      have away : (run.tasks id).bind Task.entryId? ≠ some entry := by
        cases call <;> simp_all [Store.Call.seeks?, Store.Call.entryId?]
      by_cases same : other = entry
      · subst same
        exact mirrors.arrival early (mirrors.unknown away) rfl counted goal
      · refine ⟨alone, early, mirrors.other rfl (entryLog_arrival same) away ?_⟩
        simpa [Store.Call.entryId?_arrive] using same
  | @inserted counted key goal fresh absent =>
      -- this entry was there before the new one
      have different : run.cache.store.entries.size ≠ entry := Nat.ne_of_gt known
      refine ⟨alone, early, mirrors.other ?_ (entryLog_arrival different)
        (by simp [running, Store.Call.entryId?]) ?_⟩
      · unfold Store.entry?
        simp [Array.getElem?_push, different.symm]
      · simpa [Store.Call.entryId?_arrive] using different
  | @stepped counted entryId request phase seen now after following found advance =>
      by_cases same : entryId = entry
      · subst same
        have seenAlone : seen = alone.entry := Option.some.inj (found.symm.trans mirrors.shown)
        subst seenAlone
        exact ⟨_, early.step (.stepped (mirrors.within running) advance),
          mirrors.move (Store.entry?_set_self found) (entryLog_self ..)⟩
      · refine ⟨alone, early, mirrors.other (Store.entry?_set_of_ne _ _ (Ne.symm same)) (entryLog_other same _)
          (by simpa [running, Store.Call.entryId?] using same) ?_⟩
        simpa [Store.Call.entryId?] using same
  | @returned counted entryId q outcome =>
      by_cases same : entryId = entry
      · subst same
        exact ⟨_, early.step (.returned (mirrors.within running)), mirrors.move mirrors.shown (entryLog_self ..)⟩
      · refine ⟨alone, early, mirrors.other rfl (entryLog_other same _)
          (by simpa [running, Store.Call.entryId?] using same) ?_⟩
        simpa [Store.Call.entryId?] using same
  | @recorded entryId request reply counters =>
      by_cases same : entryId = entry
      · subst same
        exact ⟨alone, early, mirrors.record running rfl⟩
      · exact ⟨alone, early, mirrors.other rfl rfl
          (by simpa [running, Store.Call.entryId?] using same)
          (by simpa [Call.entryId?] using same)⟩
  | @invalidated key =>
      exact ⟨alone, early, mirrors.other rfl rfl (by simp [running, Task.entryId?]) (by simp [Task.entryId?])⟩
  | @swept shard gone more =>
      exact ⟨alone, early, mirrors.other rfl rfl (by simp [running, Task.entryId?]) (by simp [Task.entryId?])⟩
  | @cleared shard gone all =>
      exact ⟨alone, early, mirrors.other rfl rfl (by simp [running, Task.entryId?]) (by simp [Task.entryId?])⟩

theorem Step.mirrors (step : Step shardOf run next) (known : entry < run.cache.store.entries.size)
    (early : (Entry.Run.new policy source).Reaches alone) (mirrors : Mirrors entry run alone) :
    ∃ after, (Entry.Run.new policy source).Reaches after ∧ Mirrors entry next after := by
  cases step with
  | policySet => exact ⟨alone, early, mirrors.shown, mirrors.log, mirrors.within, mirrors.recorded, mirrors.known⟩
  | turned running turn => exact turn.mirrors running known early mirrors

/-- Every entry of a cache went through a run of its own. -/
theorem mirrored {config : CacheConfig} {policy : RefreshPolicy V C} {source : TimeSource}
    (reaches : (new config policy source).Reaches shardOf run) (known : entry < run.cache.store.entries.size) :
    ∃ policy source alone, (Entry.Run.new policy source).Reaches alone ∧ Mirrors entry run alone := by
  revert known
  refine Leads.induct reaches (P := fun run => entry < run.cache.store.entries.size →
    ∃ policy source alone, (Entry.Run.new policy source).Reaches alone ∧ Mirrors entry run alone)
    (fun known => absurd known (Nat.not_lt_zero entry)) ?_
  intro run move next reached mirrored moved known
  have step := step_of_next moved
  -- an entry's own run begins with the step that puts it into the map
  by_cases earlier : entry < run.cache.store.entries.size
  · obtain ⟨policy, source, alone, early, mirrors⟩ := mirrored earlier
    obtain ⟨after, late, mirrors⟩ := step.mirrors earlier early mirrors
    exact ⟨policy, source, after, late, mirrors⟩
  · have sound := sound_of_new reached
    cases step with
    | policySet => exact absurd known earlier
    | turned running turn =>
        cases turn with
        | @inserted counted key goal fresh absent =>
            have newest : entry = run.cache.store.entries.size := by
              simp only [put, Array.size_push] at known
              exact Nat.le_antisymm (Nat.le_of_lt_succ known) (Nat.le_of_not_lt earlier)
            exact newest ▸ mirrors_inserted sound running
        | stepped => exact absurd (by simpa [put] using known) earlier
        | _ => exact absurd known earlier

end Run

end ViewCache.Cache
