import ViewCache.Proofs.Entry.Expiry

/-!
A direct publish waits for the refresh under way, so that no older refresh is published over it. A lookup with
a zero timeout runs its updater without the lock, and may be published over anything.
-/
namespace ViewCache.Entry

variable {V C E : Type}

/-- The updater of `id` was called before the call `other` began. -/
def StartedBefore (id other : CallId) (log : List (Event V C E)) : Prop :=
  ∃ newer request older, log = newer ++ .began other request :: older ∧ Started id older

def Event.stores (id : CallId) : Event V C E → Bool
  | .stepped me _ _ _ (.done .stored) => me == id
  | _ => false

def Stored (id : CallId) (log : List (Event V C E)) : Prop := ∃ event ∈ log, event.stores id = true

/-- Neither writes the slot nor stores the timestamp of a publish: a lookup of the given kind whose updater was
called before a direct publish began that has returned meanwhile. -/
def StoreKept (kind : Query C → Prop) (event : Event V C E) (older : List (Event V C E)) : Prop :=
  ∀ store v id (q : Query C), .began store (.store v) ∈ older → Stored store older →
    .began id (.lookup q) ∈ older → StartedBefore id store older → kind q →
    event.writer? ≠ some id ∧ ∀ stamp, event.publish? ≠ some (id, stamp)

theorem StartedBefore.started {id other : CallId} {log : List (Event V C E)}
    (before : StartedBefore id other log) : Started id log := by
  obtain ⟨newer, request, older, rfl, event, member, starts⟩ := before
  exact ⟨event, by simp [member], starts⟩

theorem StartedBefore.of_cons {id other : CallId} {event : Event V C E} {log : List (Event V C E)}
    (before : StartedBefore id other (event :: log)) (underWay : ∀ request, event ≠ .began other request) :
    StartedBefore id other log := by
  obtain ⟨newer, request, older, split, started⟩ := before
  cases newer with
  | nil =>
      simp only [List.nil_append, List.cons.injEq] at split
      exact absurd split.1 (underWay request)
  | cons _ newer =>
      simp only [List.cons_append, List.cons.injEq] at split
      exact ⟨newer, request, older, split.2, started⟩

namespace Run

open Call (Advance holds Fits Outline)

variable {policy : RefreshPolicy V C} {source : TimeSource} {run : Run V C E}

theorem over_of_stored (reaches : (new policy source).Reaches run) {id : CallId} (stored : Stored id run.log) :
    ∃ request phase, run.calls id = some ⟨request, phase⟩ ∧ isOver phase = true := by
  revert stored
  refine reaches.rule (P := fun run => Stored id run.log →
    ∃ request phase, run.calls id = some ⟨request, phase⟩ ∧ isOver phase = true) (by simp [new, start, Stored]) ?_
  intro run event next _ known step stored
  rw [step.log] at stored
  obtain ⟨found, member, stores⟩ := stored
  rcases List.mem_cons.mp member with rfl | earlier
  · cases step with
    | began | returned => simp [Event.stores] at stores
    | @stepped me now request phase entry after running advance =>
        have same : me = id ∧ isOver after = true := by
          cases after <;> simp [Event.stores] at stores
          rename_i reply
          cases reply <;> simp_all [isOver]
        exact ⟨request, after, same.1 ▸ Function.update_self .., same.2⟩
  · obtain ⟨request, phase, running, ended⟩ := known ⟨found, earlier, stores⟩
    exact ⟨request, step.ended running ended⟩

theorem holds_of_started (reaches : (new policy source).Reaches run) {id : CallId} (started : Started id run.log) :
    ∃ q phase, run.calls id = some ⟨.lookup q, phase⟩ ∧
      (q.isUnlocked = false → isOver phase = false → run.entry.holder = some id) := by
  have disciplined := disciplined_of_new reaches
  obtain ⟨q, phase, running, inFlight | ended⟩ := phase_of_started reaches started
  · refine ⟨q, phase, running, ?_⟩
    intro locked _
    have fits := disciplined.fits _ _ _ running
    refine (disciplined.locked _ _ _ running).mp ?_
    cases phase <;> simp_all [isInFlight, holds, Fits, Call.LookupFits]
  · exact ⟨q, phase, running, by simp [ended]⟩

theorem over_of_store (reaches : (new policy source).Reaches run) {store : CallId} {v : V} {phase : Phase V E}
    (running : run.calls store = some ⟨.store v, phase⟩) (locked : phase ≠ .lockStore) {id : CallId}
    (before : StartedBefore id store run.log) :
    ∃ q current, run.calls id = some ⟨.lookup q, current⟩ ∧ (q.isUnlocked = false → isOver current = true) := by
  refine reaches.each (P := fun run store request phase => request = .store v → phase ≠ .lockStore →
    StartedBefore id store run.log →
      ∃ q current, run.calls id = some ⟨.lookup q, current⟩ ∧ (q.isUnlocked = false → isOver current = true))
    (by simp [new, start]) ?_ ?_ ?_ ?_ running rfl locked before
  · intro run store request _ _ storing locked
    subst storing
    exact absurd rfl locked
  · intro run store now request phase entry next reached moving advance known storing _ before
    subst storing
    have earlier : StartedBefore id store run.log := before.of_cons (by simp)
    have found : ∃ q current, run.calls id = some ⟨.lookup q, current⟩ ∧
        (q.isUnlocked = false → isOver current = true) := by
      by_cases waiting : phase = .lockStore
      · subst waiting
        obtain ⟨q, current, running, holding⟩ := holds_of_started reached earlier.started
        refine ⟨q, current, running, ?_⟩
        intro waits
        -- the lock is free, and a refresh under way would have it
        by_contra unended
        have held := holding waits (by simpa using unended)
        cases advance with
        | storeLocked _ free => simp [free] at held
      · exact known rfl waiting earlier
    obtain ⟨q, current, running, ended⟩ := found
    have different : id ≠ store := by
      rintro rfl
      rw [moving] at running
      cases running
    exact ⟨q, current, (Function.update_of_ne different ..).trans running, ended⟩
  · intro run store q outcome _ _ _ storing
    cases storing
  · intro run event next store request phase _ step different _ known storing locked before
    rw [step.log] at before
    have underWay (request : Request V C) : event ≠ .began store request := by
      rintro rfl
      exact different rfl
    obtain ⟨q, current, running, ended⟩ := known storing locked (before.of_cons underWay)
    cases finished : isOver current with
    | true =>
        obtain ⟨after, stopped, still⟩ := step.ended running finished
        exact ⟨q, after, stopped, fun _ => still⟩
    | false =>
        obtain ⟨after, moved⟩ := step.running running
        exact ⟨q, after, moved, fun waits => by simp [ended waits] at finished⟩

/-- A direct publish that has returned is not overwritten by a refresh that had started before it. -/
theorem direct_publishes_are_kept (reaches : (new policy source).Reaches run) :
    Always (StoreKept fun q : Query C => q.timeout ≠ 0) run.log := by
  refine reaches.rule (P := fun run => Always (StoreKept fun q : Query C => q.timeout ≠ 0) run.log)
    (always_nil _) ?_
  intro run event next reached known step
  rw [step.log]
  refine always_cons ?_ known
  intro store v id q began stored asked before nonzero
  have locked : q.isUnlocked = false := by simpa [Query.isUnlocked, Timeout.never] using nonzero
  obtain ⟨phase, storing⟩ := running_of_began reached began
  have returned : isOver phase = true := by
    obtain ⟨_, _, running, ended⟩ := over_of_stored reached stored
    rw [storing] at running
    cases running
    exact ended
  have past : phase ≠ .lockStore := by
    rintro rfl
    simp [isOver] at returned
  obtain ⟨_, current, running, ended⟩ := over_of_store reached storing past before
  obtain ⟨_, same⟩ := running_of_began reached asked
  rw [running] at same
  cases same
  exact step.idle_of_over running (ended locked)

/-- The updater of a zero timeout lookup is running when a direct publish begins and returns, and its value is
written to the slot after that. -/
def storeDuringUpdater : List (Move Nat Unit Unit) :=
  List.flatten [[.invoke 1 (.lookup ⟨(), 0, false⟩), .step 1 100], [.invoke 2 (.store 2)],
    List.replicate 6 (.step 2 100), [.resume 1 (.ok 1)], List.replicate 2 (.step 1 100)]

theorem startedBefore_of_drop {id other : CallId} {log rest : List (Event V C E)} {request : Request V C}
    {n : Nat} (found : log.drop n = .began other request :: rest) (started : rest.any (Event.starts id) = true) :
    StartedBefore id other log :=
  ⟨log.take n, request, rest, by rw [← found, List.take_append_drop], List.any_eq_true.mp started⟩

/-- A direct publish is overwritten by what a lookup with a zero timeout had begun to compute before it. -/
theorem direct_publish_overwritten : ∃ run : Run Nat Unit Unit,
    (new .timed .wall).follow? storeDuringUpdater = some run ∧ run.entry.slot = some 1 ∧
      ¬ Always (StoreKept fun _ => True) run.log := by
  have computed : ((new .timed .wall).follow? storeDuringUpdater).map (fun run : Run Nat Unit Unit =>
      (run.entry.slot, run.calls 1, run.calls 2, run.log.head?, run.log.tail.any (Event.stores 2),
        (run.log.tail.drop 8).head?, (run.log.tail.drop 8).tail.any (Event.starts 1))) =
      some (some 1, some ⟨.lookup ⟨(), 0, false⟩, .writeFlag 1⟩, some ⟨.store 2, .done .stored⟩,
        some (.stepped 1 100 { slot := some 2, initialized := true, stamp := 100, holder := some 1 }
          (.writeSlot 1) (.writeFlag 1)), true, some (.began 2 (.store 2)), true) := by
    rfl
  obtain ⟨run, followed, facts⟩ := Option.map_eq_some_iff.mp computed
  simp only [Prod.mk.injEq] at facts
  obtain ⟨slot, looking, storing, newest, stored, split, started⟩ := facts
  obtain ⟨older, log⟩ := List.head?_eq_some_iff.mp newest
  have asked := began_of_running (.of_follow followed) looking
  have began := began_of_running (.of_follow followed) storing
  rw [log, List.tail_cons] at stored split started
  rw [log] at asked began
  obtain ⟨rest, found⟩ := List.head?_eq_some_iff.mp split
  rw [found, List.tail_cons] at started
  refine ⟨run, followed, slot, ?_⟩
  intro always
  have kept := always [] _ older log 2 2 1 ⟨(), 0, false⟩ (by simpa using began) (List.any_eq_true.mp stored)
    (by simpa using asked) (startedBefore_of_drop found started) trivial
  exact kept.1 rfl

def storeDuringRefresh : List (Move Nat Unit Unit) :=
  List.flatten [[.invoke 1 (.lookup ⟨(), 10, false⟩)], List.replicate 5 (.step 1 100),
    [.invoke 2 (.store 2), .resume 1 (.ok 1)], List.replicate 5 (.step 1 100), List.replicate 6 (.step 2 100)]

theorem direct_publish_after_refresh_is_kept : ∃ run : Run Nat Unit Unit,
    (new .timed .wall).follow? storeDuringRefresh = some run ∧ run.entry.slot = some 2 ∧ Stored 2 run.log ∧
      StartedBefore 1 2 run.log ∧ Always (StoreKept fun q : Query Unit => q.timeout ≠ 0) run.log := by
  have computed : ((new .timed .wall).follow? storeDuringRefresh).map (fun run : Run Nat Unit Unit =>
      (run.entry.slot, run.log.any (Event.stores 2), (run.log.drop 12).head?,
        (run.log.drop 12).tail.any (Event.starts 1))) =
      some (some 2, true, some (.began 2 (.store 2)), true) := by
    rfl
  obtain ⟨run, followed, facts⟩ := Option.map_eq_some_iff.mp computed
  simp only [Prod.mk.injEq] at facts
  obtain ⟨slot, stored, split, started⟩ := facts
  obtain ⟨rest, found⟩ := List.head?_eq_some_iff.mp split
  rw [found, List.tail_cons] at started
  exact ⟨run, followed, slot, List.any_eq_true.mp stored, startedBefore_of_drop found started,
    direct_publishes_are_kept (.of_follow followed)⟩

end Run

end ViewCache.Entry
