import ViewCache.Cache.Alone
import ViewCache.Proofs.Entry.Sequence
import ViewCache.Proofs.Store.Call

namespace ViewCache

variable {K V C E : Type}

theorem Call.Advance.source {me : CallId} {now : Int} {request : Request V C} {entry after : Entry V C}
    {phase next : Phase V E} (advance : Call.Advance me now request entry phase after next) :
    after.source = entry.source := by
  cases advance <;> rfl

namespace Cache

variable [DecidableEq K]

def Call.runCounted (fresh : Entry V C) (outcome : Except E V) (later : Clock) :
    Nat → Clock → Cache K V C → Call K V C E → (Cache K V C × Call K V C E) × Nat
  | 0, _, cache, call => ((cache, call), 0)
  | fuel + 1, clock, cache, call =>
    match call.step 0 clock cache with
    | some (cache, call) => runCounted fresh outcome later fuel clock cache call
    | none =>
      match call.supply fresh, call.resume outcome with
      | some call, _ => runCounted fresh outcome later fuel clock cache call
      | none, some call =>
        let (last, times) := runCounted fresh outcome later fuel later cache call
        (last, times + 1)
      | none, none => ((cache, call), 0)

variable {fresh : Entry V C} {outcome : Except E V} {later : Clock}

theorem runCounted_fst (fuel : Nat) (clock : Clock) (cache : Cache K V C) (call : Call K V C E) :
    (Call.runCounted fresh outcome later fuel clock cache call).1 =
      Call.runAlone fresh outcome later fuel clock cache call := by
  induction fuel generalizing clock cache call with
  | zero => rfl
  | succ fuel ih =>
      simp only [Call.runCounted, Call.runAlone]
      cases call.step 0 clock cache with
      | some next => exact ih _ _ _
      | none =>
          cases call.supply fresh with
          | some next => exact ih _ _ _
          | none =>
              cases call.resume outcome with
              | some next => exact ih _ _ _
              | none => rfl

theorem runCounted_recorded (fuel : Nat) (clock : Clock) (cache : Cache K V C) (id : EntryId) (reply : Reply V E) :
    Call.runCounted fresh outcome later fuel clock cache (.recorded id reply) = ((cache, .recorded id reply), 0) := by
  cases fuel <;> rfl

def answered (cache : Cache K V C) (id : EntryId) (entry : Entry V C) (reply : Reply V E) : Cache K V C :=
  { cache with store := cache.store.set id entry, counters := cache.counters.record reply }

section

variable {id : EntryId} {clock : Clock} {cache : Cache K V C} {entry : Entry V C} {call : ViewCache.Call V C E}

theorem runCounted_record {reply : Reply V E} (fuel : Nat) (known : cache.store.entry? id = some entry)
    (replied : call.reply? = some reply) :
    Call.runCounted fresh outcome later (fuel + 1) clock cache (.counted (.within id call)) =
      ((answered cache id entry reply, .recorded id reply), 0) := by
  simp [Call.runCounted, Call.step, Store.Call.entryId?, Store.Call.reply?, replied, runCounted_recorded, answered,
    Store.set_self known]

theorem runCounted_step {after : Entry V C} {next : ViewCache.Call V C E} (fuel : Nat)
    (known : cache.store.entry? id = some entry)
    (stepped : call.step 0 (clock.now entry.source) entry = some (after, next)) :
    Call.runCounted fresh outcome later (fuel + 1) clock cache (.counted (.within id call)) =
      Call.runCounted fresh outcome later fuel clock { cache with store := cache.store.set id after }
        (.counted (.within id next)) := by
  have unended : call.reply? = none := by
    obtain ⟨request, phase⟩ := call
    cases phase <;> first | rfl | simp [ViewCache.Call.step, ViewCache.Call.advance] at stepped
  simp [Call.runCounted, Call.step, Store.Call.entryId?, Store.Call.reply?, unended, Store.Call.step, known, stepped]

theorem runCounted_resume {next : ViewCache.Call V C E} (fuel : Nat) (known : cache.store.entry? id = some entry)
    (waits : call.step 0 (clock.now entry.source) entry = none) (resumed : call.resume outcome = some next) :
    Call.runCounted fresh outcome later (fuel + 1) clock cache (.counted (.within id call)) =
      let (last, times) := Call.runCounted fresh outcome later fuel later cache (.counted (.within id next))
      (last, times + 1) := by
  have unended : call.reply? = none := by
    obtain ⟨request, phase⟩ := call
    cases request <;> cases phase <;> first | rfl | simp [ViewCache.Call.resume] at resumed
  simp [Call.runCounted, Call.step, Store.Call.entryId?, Store.Call.reply?, unended, Store.Call.step, known, waits,
    Call.supply, Store.Call.supply, Call.resume, Store.Call.resume, resumed]

end

theorem runCounted_within {id : EntryId} {last : Entry V C} {ended : ViewCache.Call V C E} {reply : Reply V E}
    (replied : ended.reply? = some reply) (spare fuel : Nat) {times : Nat} {clock : Clock} {cache : Cache K V C}
    {entry : Entry V C} {call : ViewCache.Call V C E} (known : cache.store.entry? id = some entry)
    (alone : ViewCache.Call.runCounted outcome (later.now entry.source) fuel (clock.now entry.source) entry call =
      ((last, ended), times)) :
    Call.runCounted fresh outcome later (fuel + (spare + 1)) clock cache (.counted (.within id call)) =
      ((answered cache id last reply, .recorded id reply), times) := by
  induction fuel generalizing times clock cache entry call with
  | zero =>
      cases alone
      rw [Nat.zero_add]
      exact runCounted_record spare known replied
  | succ fuel ih =>
      rw [ViewCache.Call.runCounted] at alone
      rw [Nat.add_right_comm]
      cases stepped : call.step 0 (clock.now entry.source) entry with
      | some pair =>
          obtain ⟨after, next⟩ := pair
          simp only [stepped] at alone
          have source : after.source = entry.source := by
            simp only [ViewCache.Call.step, Option.map_eq_some_iff, Prod.mk.injEq] at stepped
            obtain ⟨⟨_, phase⟩, advances, rfl, _⟩ := stepped
            exact (ViewCache.Call.advance_cases advances).source
          have shown : Store.entry? (cache.store.set id after) id = some after := Store.entry?_set_self known
          rw [runCounted_step _ known stepped, ih shown (by rw [source]; exact alone), answered, answered,
            Store.set_set]
      | none =>
          simp only [stepped] at alone
          cases resumed : call.resume outcome with
          | some next =>
              simp only [resumed, Prod.mk.injEq] at alone
              obtain ⟨ends, rfl⟩ := alone
              rw [runCounted_resume _ known stepped resumed, ih known (Prod.ext ends rfl)]
          | none =>
              simp only [resumed] at alone
              cases alone
              exact runCounted_record _ known replied

theorem runCounted_arrive {store : Store K V C} {id : EntryId} {cache : Cache K V C} {key : K}
    (entered : cache.store.insertIfAbsent key fresh = (store, id)) (fuel : Nat) (clock : Clock) (goal : Store.Goal C) :
    ∃ spare, Call.runCounted fresh outcome later (fuel + 3) clock cache (.counted (.find key goal)) =
      Call.runCounted fresh outcome later (fuel + spare) clock { cache with store }
        (.counted (.arrive id goal)) := by
  cases found : cache.store.find? key with
  | some held =>
      simp only [Store.insertIfAbsent, found, Prod.mk.injEq] at entered
      obtain ⟨rfl, rfl⟩ := entered
      exact ⟨2, by simp [Call.runCounted, Call.step, Store.Call.entryId?, Store.Call.step, found]⟩
  | none =>
      refine ⟨0, ?_⟩
      calc Call.runCounted fresh outcome later (fuel + 3) clock cache (.counted (.find key goal))
          = Call.runCounted fresh outcome later (fuel + 2) clock cache (.counted (.build key goal)) := by
            simp [Call.runCounted, Call.step, Store.Call.entryId?, Store.Call.step, found]
        _ = Call.runCounted fresh outcome later (fuel + 1) clock cache (.counted (.insert key goal fresh)) := by
            simp [Call.runCounted, Call.step, Store.Call.entryId?, Store.Call.step, Call.supply, Store.Call.supply]
        _ = Call.runCounted fresh outcome later fuel clock { cache with store } (.counted (.arrive id goal)) := by
            simp [Call.runCounted, Call.step, Store.Call.entryId?, Store.Call.step, entered]

section

variable {cache : Cache K V C} {key : K} {context : C} {clock : Clock} {store : Store K V C} {id : EntryId}
  {entry last : Entry V C} {reply : Reply V E}

theorem runCounted_lookup {ended : ViewCache.Call V C E} {times : Nat}
    (entered : cache.store.insertIfAbsent key fresh = (store, id)) (known : store.entry? id = some entry)
    (alone : ViewCache.Call.runCounted outcome (later.now entry.source) ViewCache.Call.manySteps
      (clock.now entry.source) entry (ViewCache.Call.start (.lookup (cache.query context))) = ((last, ended), times))
    (replied : ended.reply? = some reply) :
    Call.runCounted fresh outcome later Call.manySteps clock cache (Call.lookup cache key context) =
      ((answered { cache with store } id last reply, .recorded id reply), times) := by
  let goal : Store.Goal C := .lookup (cache.query context)
  obtain ⟨spare, arrives⟩ : ∃ spare,
      Call.runCounted fresh outcome later (29 + 3) clock cache (.counted (.find key goal)) =
        Call.runCounted fresh outcome later (29 + spare) clock { cache with store } (.counted (.arrive id goal)) :=
    runCounted_arrive entered 29 clock goal
  have enough : 29 + spare = ViewCache.Call.manySteps + (spare + 4 + 1) := by
    simp only [ViewCache.Call.manySteps]
    omega
  rw [enough] at arrives
  exact arrives.trans (runCounted_within replied (spare + 4) ViewCache.Call.manySteps known alone)

/-- What a lookup by key is to the entry of the key. -/
theorem lookupOr_eq (entered : cache.store.insertIfAbsent key fresh = (store, id))
    (known : store.entry? id = some entry)
    (performed : entry.perform (.lookup (cache.query context)) outcome (clock.now entry.source)
      (later.now entry.source) = (last, some reply)) :
    lookupOr fresh cache key context outcome clock later =
      (answered { cache with store } id last reply, reply) := by
  simp only [Entry.perform, Prod.mk.injEq, ← ViewCache.Call.runCounted_fst] at performed
  obtain ⟨ends, replied⟩ := performed
  rw [lookupOr, ← runCounted_fst, runCounted_lookup entered known (Prod.ext (Prod.ext ends rfl) rfl) replied]
  rfl

end

end Cache

end ViewCache
