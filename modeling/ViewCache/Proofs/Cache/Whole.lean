import ViewCache.Proofs.Cache.Handles

/-!
Operations on a whole cache, when nobody comes in between: the runs on a cache contain them.
-/
namespace ViewCache

variable {K V C E : Type}

namespace Cache.Run

variable [DecidableEq K] {shards : Nat} {shardOf : K → Fin shards}

theorem clearing_reached {run : Run K V C E} {id : CallId} {shard : Nat} {gone : List EntryId}
    (running : run.tasks id = some (.clearing shard gone))
    (cleared : ∀ key entry, (key, entry) ∈ run.cache.store.index → shard ≤ (shardOf key).val) :
    ∃ last all, run.Reaches shardOf last ∧ last.tasks id = some (.removed all) ∧
      last.cache = run.cache.clear := by
  -- `cleared` says that nothing is left below `shard`, and in the end that nothing is left
  by_cases more : shard < shards
  · let swept := run.put id { run.cache with store := run.cache.store.drop fun key => (shardOf key).val == shard }
      (.clearing (shard + 1) ((run.cache.store.dropped fun key => (shardOf key).val == shard) ++ gone)) []
    have moved : run.next? shardOf (.step id {}) = some swept := by
      simp [next?, running, step?, more, swept]
    have further : ∀ key entry, (key, entry) ∈ swept.cache.store.index → shard + 1 ≤ (shardOf key).val := by
      intro key entry member
      obtain ⟨earlier, kept⟩ := Store.mem_index_drop.mp member
      have bound := cleared key entry earlier
      have different : (shardOf key).val ≠ shard := by simpa using kept
      omega
    have waiting : swept.tasks id = some (.clearing (shard + 1) _) := Function.update_self ..
    obtain ⟨last, all, reached, done, same⟩ := clearing_reached waiting further
    exact ⟨last, all, Reaches.trans (Reaches.next .refl moved) reached, done, same⟩
  · have empty : run.cache.store.index = [] := by
      refine List.eq_nil_iff_forall_not_mem.mpr ?_
      intro pair member
      obtain ⟨key, entry⟩ := pair
      have bound := cleared key entry member
      have inside := (shardOf key).isLt
      omega
    have moved : run.next? shardOf (.step id {}) =
        some (run.put id { run.cache with counters := {} } (.removed gone) []) := by
      simp [next?, running, step?, more]
    refine ⟨_, gone, Reaches.next .refl moved, Function.update_self .., ?_⟩
    simp [put, Cache.clear, Store.clear, ← empty]
termination_by shards - shard

theorem clear_reached {run : Run K V C E} {id : CallId} (unused : run.tasks id = none) :
    ∃ last all, run.Reaches shardOf last ∧ last.tasks id = some (.removed all) ∧
      last.cache = run.cache.clear := by
  let begun := run.put id run.cache (.clearing 0 []) []
  have began : run.next? shardOf (.invoke id .clear) = some begun := by
    simp [next?, unused, begin?, begun]
  have waiting : begun.tasks id = some (.clearing 0 []) := Function.update_self ..
  have nothing : ∀ key entry, (key, entry) ∈ begun.cache.store.index → 0 ≤ (shardOf key).val :=
    fun _ _ _ => Nat.zero_le _
  obtain ⟨last, all, reached, done, same⟩ := clearing_reached waiting nothing
  exact ⟨last, all, Reaches.trans (Reaches.next .refl began) reached, done, same⟩

theorem expire_entry_reached {run : Run K V C E} {id : CallId} (unused : run.tasks id = none) {entry : EntryId}
    (known : entry < run.cache.store.entries.size) :
    ∃ last, run.Reaches shardOf last ∧
      last.cache = { run.cache with store := run.cache.store.modify entry Entry.expire } ∧
      ∀ other, other ≠ id → last.tasks other = run.tasks other := by
  obtain ⟨seen, shown⟩ : ∃ seen, run.cache.store.entry? entry = some seen :=
    ⟨run.cache.store.entries[entry], Array.getElem?_eq_getElem known⟩
  let held := run.put id run.cache (.call (.onHeld entry .expire)) [(entry, .began id .expire)]
  have began : run.next? shardOf (.invoke id (.held entry .expire)) = some held := by
    simp [next?, unused, begin?, known, held]
  let cleared := held.put id { run.cache with store := run.cache.store.set entry seen.expire }
    (.call (.uncounted (.within entry ⟨.expire, .done .expired⟩)))
    [(entry, .stepped id (Clock.now {} seen.source) seen .clearStamp (.done .expired))]
  have moved : held.next? shardOf (.step id {}) = some cleared := by
    simp [next?, held, put, step?, Call.onHeld, Call.step, Store.Call.step, shown, ViewCache.Call.step,
      ViewCache.Call.start, ViewCache.Call.advance, cleared, news, Call.within?]
  refine ⟨cleared, (Reaches.next .refl began).next moved, ?_, ?_⟩
  · rw [← Store.set_eq_modify shown]
    rfl
  · intro other different
    calc cleared.tasks other
      _ = held.tasks other := Function.update_of_ne different _ _
      _ = run.tasks other := Function.update_of_ne different _ _

theorem expire_reached {run : Run K V C E} (sound : run.Sound) {id : CallId} (unused : run.tasks id = none)
    (key : K) : ∃ last, run.Reaches shardOf last ∧ last.cache = (run.cache.expire key).1 := by
  cases found : run.cache.store.find? key with
  | none => exact ⟨run, .refl, by simp [Cache.expire, Store.expire, found]⟩
  | some entry =>
      have present : entry ∈ run.cache.store.present := List.mem_map_of_mem (Store.mem_index_of_find? found)
      obtain ⟨last, reached, cache, _⟩ := expire_entry_reached unused (sound.listed entry present)
      exact ⟨last, reached, by simp [cache, Cache.expire, Store.expire, found]⟩

theorem expire_entries_reached {run : Run K V C E} {bound : Nat}
    (unused : ∀ id : Nat, bound ≤ id → run.tasks id = none) (listed : List (K × EntryId))
    (known : ∀ key entry, (key, entry) ∈ listed → entry < run.cache.store.entries.size) :
    ∃ last, run.Reaches shardOf last ∧ last.cache = { run.cache with
      store := listed.foldl (fun store (_, id) => store.modify id Entry.expire) run.cache.store } := by
  induction listed generalizing run bound with
  | nil => exact ⟨run, .refl, rfl⟩
  | cons first rest ih =>
      obtain ⟨key, entry⟩ := first
      have first_known : entry < run.cache.store.entries.size := known key entry List.mem_cons_self
      obtain ⟨next, reached, cache, others⟩ : ∃ next, run.Reaches shardOf next ∧
          next.cache = { run.cache with store := run.cache.store.modify entry Entry.expire } ∧
          ∀ other, other ≠ bound → next.tasks other = run.tasks other :=
        expire_entry_reached (unused bound (Nat.le_refl _)) first_known
      have free : ∀ id : Nat, bound + 1 ≤ id → next.tasks id = none := by
        intro id large
        rw [others id (Nat.ne_of_gt large)]
        exact unused id (Nat.le_of_succ_le large)
      obtain ⟨last, further, same⟩ := ih free (by
        intro key entry member
        rw [cache]
        simpa [Store.modify] using known key entry (List.mem_cons_of_mem _ member))
      refine ⟨last, reached.trans further, ?_⟩
      rw [same, cache]
      rfl

theorem expireAll_reached {run : Run K V C E} (sound : run.Sound) {bound : Nat}
    (unused : ∀ id : Nat, bound ≤ id → run.tasks id = none) :
    ∃ last, run.Reaches shardOf last ∧ last.cache = run.cache.expireAll := by
  refine expire_entries_reached unused run.cache.store.index ?_
  intro key entry member
  exact sound.listed entry (List.mem_map_of_mem member)

end Cache.Run

end ViewCache
