import Mathlib.Data.List.Nodup
import ViewCache.Proofs.Cache.Step

namespace ViewCache

variable {K V C E : Type}

namespace Store

def present (store : Store K V C) : List EntryId := store.index.map Prod.snd

@[simp]
theorem entries_drop (store : Store K V C) (drops : K → Bool) : (store.drop drops).entries = store.entries := rfl

theorem mem_index_drop {store : Store K V C} {drops : K → Bool} {key : K} {id : EntryId} :
    (key, id) ∈ (store.drop drops).index ↔ (key, id) ∈ store.index ∧ drops key = false := by
  simp [drop]

theorem find?_drop [DecidableEq K] {store : Store K V C} {drops : K → Bool} {key : K} (kept : drops key = false) :
    (store.drop drops).find? key = store.find? key := by
  refine (lookup_filter (fun key => !drops key) store.index key).trans ?_
  simp [kept, find?]

theorem present_drop (store : Store K V C) (drops : K → Bool) :
    (store.drop drops).present.Sublist store.present :=
  List.filter_sublist.map _

theorem not_present_of_dropped {store : Store K V C} {drops : K → Bool} (nodup : store.present.Nodup)
    {id : EntryId} (gone : id ∈ store.dropped drops) : id ∉ (store.drop drops).present := by
  intro kept
  obtain ⟨⟨key, _⟩, out, rfl⟩ := List.mem_map.mp gone
  obtain ⟨⟨other, _⟩, within, same⟩ := List.mem_map.mp kept
  obtain ⟨listed, drop⟩ := List.mem_filter.mp out
  obtain ⟨still, keep⟩ := mem_index_drop.mp within
  simp only at same drop
  subst same
  have one := List.inj_on_of_nodup_map nodup listed still rfl
  simp only [Prod.mk.injEq, and_true] at one
  subst one
  rw [keep] at drop
  cases drop

theorem mem_dropped {store : Store K V C} {drops : K → Bool} {id : EntryId} :
    id ∈ store.dropped drops ↔ ∃ key, (key, id) ∈ store.index ∧ drops key = true := by
  simp [dropped]

end Store

namespace Cache

def Task.removes {shards : Nat} (shardOf : K → Fin shards) (key : K) : Task K V C E → Prop
  | invalidating other => other = key
  | clearing shard _ => (shardOf key).val = shard
  | call _ | removed _ => False

namespace Run

structure Sound (run : Run K V C E) : Prop where
  nodup : run.cache.store.present.Nodup
  listed : ∀ id ∈ run.cache.store.present, id < run.cache.store.entries.size
  gone : ∀ {id task}, run.tasks id = some task → ∀ entry ∈ task.gone,
    entry < run.cache.store.entries.size ∧ entry ∉ run.cache.store.present
  reached : ∀ {id task entry}, run.tasks id = some task → task.entryId? = some entry →
    entry < run.cache.store.entries.size
  built : ∀ {id counted key goal fresh},
    run.tasks id = some (.call (.wrap counted (.insert key goal fresh))) →
      ∃ policy source, fresh = { policy, source }
  logged : ∀ {entry event}, (entry, event) ∈ run.log → entry < run.cache.store.entries.size

theorem tasks_put {run : Run K V C E} {id other : CallId} {cache : Cache K V C} {task found : Task K V C E}
    {news : Log V C E} (held : (run.put id cache task news).tasks other = some found) :
    other = id ∧ found = task ∨ other ≠ id ∧ run.tasks other = some found := by
  by_cases same : other = id
  · subst same
    exact .inl ⟨rfl, by simpa [put] using held.symm⟩
  · exact .inr ⟨same, by simpa [put, same] using held⟩

theorem Sound.put {run : Run K V C E} (sound : run.Sound) {id : CallId} {cache : Cache K V C}
    {task : Task K V C E} {news : Log V C E}
    (same : cache.store.entries.size = run.cache.store.entries.size)
    (fewer : cache.store.present.Sublist run.cache.store.present)
    (gone : ∀ entry ∈ task.gone, entry < run.cache.store.entries.size ∧ entry ∉ cache.store.present)
    (reached : ∀ entry, task.entryId? = some entry → entry < run.cache.store.entries.size)
    (built : ∀ counted key goal fresh, task = .call (.wrap counted (.insert key goal fresh)) →
      ∃ policy source, fresh = { policy, source })
    (logged : ∀ entry event, (entry, event) ∈ news → entry < run.cache.store.entries.size) :
    (run.put id cache task news).Sound := by
  refine ⟨sound.nodup.sublist fewer, ?_, ?_, ?_, ?_, ?_⟩
  · intro entry present
    exact same ▸ sound.listed entry (fewer.subset present)
  · intro other found running entry out
    rcases tasks_put running with ⟨rfl, rfl⟩ | ⟨_, running⟩
    · exact same ▸ gone entry out
    · obtain ⟨known, absent⟩ := sound.gone running entry out
      exact ⟨same ▸ known, fun present => absent (fewer.subset present)⟩
  · intro other found entry running at_entry
    rcases tasks_put running with ⟨rfl, rfl⟩ | ⟨_, running⟩
    · exact same ▸ reached entry at_entry
    · exact same ▸ sound.reached running at_entry
  · intro other counted key goal fresh running
    rcases tasks_put running with ⟨rfl, same⟩ | ⟨_, running⟩
    · exact built counted key goal fresh same.symm
    · exact sound.built running
  · intro entry event member
    rcases List.mem_append.mp member with now | earlier
    · exact same ▸ logged entry event now
    · exact same ▸ sound.logged earlier

theorem mem_arrival {me : CallId} {entry found : EntryId} {goal : Store.Goal C} {event : Entry.Event V C E}
    (member : (found, event) ∈ arrival me entry goal) : found = entry := by
  cases goal with
  | entry => cases member
  | lookup q =>
      simp only [arrival, List.mem_singleton, Prod.mk.injEq] at member
      exact member.1

theorem arrive_ne_insert {entry : EntryId} {goal : Store.Goal C} {key : K} {wanted : Store.Goal C}
    {fresh : Entry V C} : (.arrive entry goal : Store.Call K V C E) ≠ .insert key wanted fresh := by
  cases goal <;> simp [Store.Call.arrive]

theorem Sound.insert {run : Run K V C E} (sound : run.Sound) {id : CallId} {counted : Bool} {key : K}
    {goal : Store.Goal C} {fresh : Entry V C} :
    (run.put id
      { run.cache with store := ⟨run.cache.store.entries.push fresh,
          (key, run.cache.store.entries.size) :: run.cache.store.index⟩ }
      (.call (.wrap counted (.arrive run.cache.store.entries.size goal)))
      (arrival id run.cache.store.entries.size goal)).Sound := by
  have unlisted : run.cache.store.entries.size ∉ run.cache.store.present := by
    intro present
    exact Nat.lt_irrefl _ (sound.listed _ present)
  have grown {entry : EntryId} (known : entry < run.cache.store.entries.size) :
      entry < (run.cache.store.entries.push fresh).size := by
    rw [Array.size_push]
    exact Nat.lt_succ_of_lt known
  have newest : run.cache.store.entries.size < (run.cache.store.entries.push fresh).size := by
    rw [Array.size_push]
    exact Nat.lt_succ_self _
  refine ⟨List.nodup_cons.mpr ⟨unlisted, sound.nodup⟩, ?_, ?_, ?_, ?_, ?_⟩
  · intro entry present
    rcases List.mem_cons.mp present with rfl | earlier
    · exact newest
    · exact grown (sound.listed entry earlier)
  · intro other task running entry out
    rcases tasks_put running with ⟨rfl, rfl⟩ | ⟨_, running⟩
    · cases out
    · obtain ⟨known, absent⟩ := sound.gone running entry out
      refine ⟨grown known, ?_⟩
      intro present
      rcases List.mem_cons.mp present with rfl | earlier
      · exact Nat.lt_irrefl _ known
      · exact absent earlier
  · intro other task entry running at_entry
    rcases tasks_put running with ⟨rfl, rfl⟩ | ⟨_, running⟩
    · rw [Task.entryId?_call, Call.entryId?_wrap, Store.Call.entryId?_arrive] at at_entry
      cases at_entry
      exact newest
    · exact grown (sound.reached running at_entry)
  · intro other again key' goal' fresh' running
    rcases tasks_put running with ⟨rfl, same⟩ | ⟨_, running⟩
    · exact absurd (Task.wrap_injective same).symm arrive_ne_insert
    · exact sound.built running
  · intro entry event member
    rcases List.mem_append.mp member with now | earlier
    · rw [mem_arrival now]
      exact newest
    · exact grown (sound.logged earlier)

variable [DecidableEq K] {shards : Nat} {shardOf : K → Fin shards}

theorem Turn.sound {run : Run K V C E} {id : CallId} {before : Option (Task K V C E)} {cache : Cache K V C}
    {task : Task K V C E} {news : Log V C E} (turn : Turn shardOf run.cache id before cache task news)
    (running : run.tasks id = before) (sound : run.Sound) : (run.put id cache task news).Sound := by
  cases turn with
  | sought counted key goal =>
      refine sound.put rfl (.refl _) (by simp [Task.gone]) ?_ ?_ (by simp)
      · intro entry at_entry
        simp [Store.Call.entryId?] at at_entry
      · intro again key' goal' fresh same
        cases Task.wrap_injective same
  | held known =>
      refine sound.put rfl (.refl _) (by simp [Task.gone]) ?_ ?_ ?_
      · intro found at_entry
        cases at_entry
        exact known
      · intro again key goal fresh same
        cases again <;> simp [Call.wrap, Call.onHeld] at same
      · intro found event member
        simp only [List.mem_singleton, Prod.mk.injEq] at member
        exact member.1 ▸ known
  | invalidate | clear =>
      exact sound.put rfl (.refl _) (by simp [Task.gone]) (by simp [Task.entryId?]) (by simp) (by simp)
  | @missed counted key goal =>
      refine sound.put rfl (.refl _) (by simp [Task.gone]) ?_ ?_ (by simp)
      · intro entry at_entry
        simp [Store.Call.entryId?] at at_entry
      · intro again key' goal' fresh same
        cases Task.wrap_injective same
  | @supplied counted key goal policy source =>
      refine sound.put rfl (.refl _) (by simp [Task.gone]) ?_ ?_ (by simp)
      · intro entry at_entry
        simp [Store.Call.entryId?] at at_entry
      · intro again key' goal' fresh same
        cases Task.wrap_injective same
        exact ⟨policy, source, rfl⟩
  | @arrived counted call key goal entry seeks found =>
      have known : entry < run.cache.store.entries.size :=
        sound.listed entry (List.mem_map_of_mem (Store.mem_index_of_find? found))
      refine sound.put rfl (.refl _) (by simp [Task.gone]) ?_ ?_ ?_
      · intro found at_entry
        rw [Task.entryId?_call, Call.entryId?_wrap, Store.Call.entryId?_arrive] at at_entry
        cases at_entry
        exact known
      · intro again key' goal' fresh same
        exact absurd (Task.wrap_injective same) arrive_ne_insert
      · intro found event member
        exact mem_arrival member ▸ known
  | inserted => exact sound.insert
  | @stepped counted entryId request phase entry now after following known advance =>
      have reached : entryId < run.cache.store.entries.size :=
        sound.reached running (by simp [Store.Call.entryId?])
      refine sound.put (Store.size_set ..) (.refl _) (by simp [Task.gone]) ?_ ?_ ?_
      · intro found at_entry
        simp only [Task.entryId?_call, Call.entryId?_wrap, Store.Call.entryId?, Option.some.injEq] at at_entry
        exact at_entry ▸ reached
      · intro again key goal fresh same
        cases Task.wrap_injective same
      · intro found event member
        simp only [List.mem_singleton, Prod.mk.injEq] at member
        exact member.1 ▸ reached
  | @returned counted entryId q outcome =>
      have reached : entryId < run.cache.store.entries.size :=
        sound.reached running (by simp [Store.Call.entryId?])
      refine sound.put rfl (.refl _) (by simp [Task.gone]) ?_ ?_ ?_
      · intro found at_entry
        simp only [Task.entryId?_call, Call.entryId?_wrap, Store.Call.entryId?, Option.some.injEq] at at_entry
        exact at_entry ▸ reached
      · intro again key goal fresh same
        cases Task.wrap_injective same
      · intro found event member
        simp only [List.mem_singleton, Prod.mk.injEq] at member
        exact member.1 ▸ reached
  | @recorded entryId request reply counters =>
      refine sound.put rfl (.refl _) (by simp [Task.gone]) ?_ ?_ (by simp)
      · intro found at_entry
        cases at_entry
        exact sound.reached running rfl
      · intro again key goal fresh same
        exact absurd same Task.recorded_ne_wrap
  | @invalidated key =>
      refine sound.put rfl (Store.present_drop ..) ?_ (by simp [Task.entryId?]) (by simp) (by simp)
      intro entry out
      have listed := Store.mem_index_of_find? (Option.mem_toList.mp out)
      refine ⟨sound.listed entry (List.mem_map_of_mem listed), ?_⟩
      -- no other key holds the entry that this one has lost
      exact Store.not_present_of_dropped sound.nodup (Store.mem_dropped.mpr ⟨key, listed, by simp⟩)
  | @swept shard gone more =>
      refine sound.put rfl (Store.present_drop ..) ?_ (by simp [Task.entryId?]) (by simp) (by simp)
      intro entry out
      rcases List.mem_append.mp out with now | earlier
      · obtain ⟨key, listed, _⟩ := Store.mem_dropped.mp now
        exact ⟨sound.listed entry (List.mem_map_of_mem listed), Store.not_present_of_dropped sound.nodup now⟩
      · obtain ⟨known, absent⟩ := sound.gone running entry earlier
        -- sweeping puts nothing back
        exact ⟨known, fun present => absent ((Store.present_drop ..).subset present)⟩
  | @cleared shard gone all =>
      have absent := sound.gone running
      exact sound.put rfl (.refl _) absent (by simp [Task.entryId?]) (by simp) (by simp)

/-- A key holds its entry until it is taken out. -/
theorem Turn.keeps_found {cache after : Cache K V C} {id : CallId} {before : Option (Task K V C E)}
    {task : Task K V C E} {news : Log V C E} (turn : Turn shardOf cache id before after task news) {key : K}
    {entry : EntryId} (held : cache.store.find? key = some entry)
    (stays : ∀ found ∈ before, ¬ found.removes shardOf key) : after.store.find? key = some entry := by
  cases turn with
  | @inserted counted other goal fresh absent =>
      have different : other ≠ key := by
        rintro rfl
        rw [absent] at held
        cases held
      rw [Store.find?_insert, if_neg different]
      exact held
  | @invalidated other =>
      have different : key ≠ other := Ne.symm (stays _ rfl)
      refine (Store.find?_drop ?_).trans held
      exact beq_false_of_ne different
  | @swept shard gone more =>
      have elsewhere : (shardOf key).val ≠ shard := stays _ rfl
      refine (Store.find?_drop ?_).trans held
      exact beq_false_of_ne elsewhere
  | _ => exact held

theorem Step.sound {run next : Run K V C E} (step : Step shardOf run next) (sound : run.Sound) : next.Sound := by
  cases step with
  | policySet => exact ⟨sound.nodup, sound.listed, sound.gone, sound.reached, sound.built, sound.logged⟩
  | turned running turn => exact turn.sound running sound

theorem sound_of_new {config : CacheConfig} {policy : RefreshPolicy V C} {source : TimeSource}
    {run : Run K V C E} (reaches : (new config policy source).Reaches shardOf run) : run.Sound := by
  refine Leads.induct reaches ⟨?_, ?_, ?_, ?_, ?_, ?_⟩ (fun _ sound moved => (step_of_next moved).sound sound)
  all_goals simp [new, Store.present]

end Run

end Cache

end ViewCache
