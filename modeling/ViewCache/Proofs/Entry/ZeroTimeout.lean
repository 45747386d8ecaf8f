import ViewCache.Proofs.Entry.Pinning
import ViewCache.Proofs.Entry.Tolerance
import ViewCache.Proofs.Entry.Without

namespace ViewCache.Entry

variable {V C E : Type}

/-- What the call found when it came with its value to publish it without having the lock. -/
def Event.attempt? (id : CallId) : Event V C E → Option (Entry V C)
  | .stepped me _ seen (.tryPublish _) _ => if me = id then some seen else none
  | _ => none

def attempts (id : CallId) (log : List (Event V C E)) : List (Entry V C) := log.filterMap (Event.attempt? id)

/-- The call stored the timestamp of a publish when it had the lock and the entry showed the value. -/
def Publishes (id : CallId) (v : V) (log : List (Event V C E)) : Prop :=
  ∃ now seen stamp after, .stepped id now seen (.writeStamp v stamp) after ∈ log ∧
    seen.value? = some v ∧ seen.holder = some id

theorem attempts_of_try {id : CallId} {now : Int} {seen : Entry V C} {v : V} {next : Phase V E}
    {older : List (Event V C E)} (nothing : attempts id older = []) :
    attempts id (.stepped id now seen (.tryPublish v) next :: older) = [seen] := by
  simpa [attempts, Event.attempt?] using nothing

theorem attempts_of_other {id : CallId} {event : Event V C E} (other : event.id ≠ id) (log : List (Event V C E)) :
    attempts id (event :: log) = attempts id log := by
  apply List.filterMap_cons_none
  cases event with
  | stepped me now seen before after => cases before <;> simp_all [Event.attempt?, Event.id]
  | began | returned => rfl

def own (id : CallId) (log : List (Event V C E)) : List (Event V C E) := log.filter (·.id == id)

def isUntried : Phase V E → Bool
  | .callUpdater | .updating | .tryPublish _ => true
  | _ => false

/-- What a lookup with a zero timeout has done by the time it comes to a phase, newest first. -/
inductive Course (id : CallId) (q : Query C) : Phase V E → List (Event V C E) → Prop
  | begun : Course id q .callUpdater [.began id (.lookup q)]
  | called {now seen older} (before : Course id q .callUpdater older) :
      Course id q .updating (.stepped id now seen .callUpdater .updating :: older)
  | failed {cause older} (before : Course id q .updating older) :
      Course id q (.done (.failed ⟨cause⟩)) (.returned id (.error cause) :: older)
  | computed {v older} (before : Course id q .updating older) :
      Course id q (.tryPublish v) (.returned id (.ok v) :: older)
  | refused {now seen v other older} (busy : seen.holder = some other) (before : Course id q (.tryPublish v) older) :
      Course id q (.done (.answered v .computed))
        (.stepped id now seen (.tryPublish v) (.done (.answered v .computed)) :: older)
  | granted {now seen v older} (free : seen.holder = none) (before : Course id q (.tryPublish v) older) :
      Course id q (.writeSlot v) (.stepped id now seen (.tryPublish v) (.writeSlot v) :: older)
  | slotWritten {now seen v older} (before : Course id q (.writeSlot v) older) :
      Course id q (.writeFlag v) (.stepped id now seen (.writeSlot v) (.writeFlag v) :: older)
  | flagWritten {now seen v older} (before : Course id q (.writeFlag v) older) :
      Course id q (.readClock v) (.stepped id now seen (.writeFlag v) (.readClock v) :: older)
  | clockRead {now seen v stamp older} (before : Course id q (.readClock v) older) :
      Course id q (.writeStamp v stamp) (.stepped id now seen (.readClock v) (.writeStamp v stamp) :: older)
  | stampWritten {now seen v stamp older} (shown : seen.value? = some v) (held : seen.holder = some id)
      (before : Course id q (.writeStamp v stamp) older) :
      Course id q (.unlock (.answered v .computed))
        (.stepped id now seen (.writeStamp v stamp) (.unlock (.answered v .computed)) :: older)
  | unlocked {now seen reply older} (before : Course id q (.unlock reply) older) :
      Course id q (.done reply) (.stepped id now seen (.unlock reply) (.done reply) :: older)

def Untouched (log : List (Event V C E)) : Prop := ∀ event ∈ log, event.touches = false

theorem untouched_cons {event : Event V C E} {log : List (Event V C E)} (here : event.touches = false)
    (before : Untouched log) : Untouched (event :: log) := List.forall_mem_cons.mpr ⟨here, before⟩

theorem not_publishes_of_untouched {id : CallId} {v : V} {log : List (Event V C E)} (untouched : Untouched log) :
    ¬ Publishes id v log := by
  rintro ⟨now, seen, stamp, after, member, -⟩
  simpa [Event.touches, Event.write?] using untouched _ member

theorem untouched_of_busy {id : CallId} {now : Int} {seen : Entry V C} {v : V} {next : Phase V E}
    (busy : seen.holder ≠ none) : (Event.stepped id now seen (.tryPublish v) next : Event V C E).touches = false := by
  obtain ⟨other, held⟩ := Option.ne_none_iff_exists'.mp busy
  simp [Event.touches, Event.write?, Event.acquires, Event.releases, held]

namespace Course

variable {id : CallId} {q : Query C} {phase : Phase V E} {log : List (Event V C E)} {v : V} {reply : Reply V E}

theorem length_le (course : Course id q phase log) : log.length + remaining phase ≤ 9 := by
  induction course <;> simp only [List.length_cons, List.length_nil, remaining] at * <;> omega

theorem starts_once (course : Course id q phase log) :
    phase = .callUpdater ∧ log.countP (Event.starts id) = 0 ∨
      phase ≠ .callUpdater ∧ log.countP (Event.starts id) = 1 := by
  induction course with
  | begun => exact .inl ⟨rfl, rfl⟩
  | _ => simp_all [Event.starts]

theorem untried (course : Course id q phase log) (early : isUntried phase = true) :
    attempts id log = [] ∧ Untouched log := by
  induction course with
  | begun => exact ⟨rfl, List.forall_mem_singleton.mpr rfl⟩
  | called _ ih | computed _ ih =>
      obtain ⟨nothing, untouched⟩ := ih rfl
      exact ⟨nothing, untouched_cons rfl untouched⟩
  | _ => cases early

theorem free_of_publishing (course : Course id q phase log) (publishing : publishing? phase = some v) :
    ∃ seen, attempts id log = [seen] ∧ seen.holder = none := by
  induction course with
  | @granted now seen v older free before =>
      obtain ⟨nothing, -⟩ := before.untried rfl
      exact ⟨seen, attempts_of_try nothing, free⟩
  | slotWritten _ ih | flagWritten _ ih | clockRead _ ih => exact ih publishing
  | _ => cases publishing

theorem publishes_of_unlocking (course : Course id q (.unlock reply) log) : ∃ v seen,
    reply = .answered v .computed ∧ attempts id log = [seen] ∧ seen.holder = none ∧ Publishes id v log := by
  cases course with
  | @stampWritten now shown v stamp older shows held before =>
      obtain ⟨seen, tried, free⟩ := before.free_of_publishing rfl
      exact ⟨v, seen, rfl, tried, free, now, shown, stamp, _, List.mem_cons_self, shows, held⟩

theorem ended (course : Course id q (.done reply) log) :
    (∃ cause, reply = .failed ⟨cause⟩ ∧ Untouched log) ∨
      ∃ v seen, reply = .answered v .computed ∧ attempts id log = [seen] ∧
        (seen.holder = none ∧ Publishes id v log ∨ seen.holder ≠ none ∧ Untouched log) := by
  cases course with
  | @failed cause older before =>
      obtain ⟨-, untouched⟩ := before.untried rfl
      exact .inl ⟨cause, rfl, untouched_cons rfl untouched⟩
  | @refused now seen v other older busy before =>
      obtain ⟨nothing, untouched⟩ := before.untried rfl
      have taken : seen.holder ≠ none := by simp [busy]
      exact .inr ⟨v, seen, rfl, attempts_of_try nothing,
        .inr ⟨taken, untouched_cons (untouched_of_busy taken) untouched⟩⟩
  | @unlocked now entry _ older before =>
      obtain ⟨v, seen, same, tried, free, publishes⟩ := before.publishes_of_unlocking
      obtain ⟨reading, shown, stamp, after, member, shows⟩ := publishes
      exact .inr ⟨v, seen, same, tried,
        .inl ⟨free, reading, shown, stamp, after, List.mem_cons_of_mem _ member, shows⟩⟩

theorem replied (course : Course id q (.done reply) log) : ∃ outcome, replyOutcome? reply = some outcome := by
  rcases course.ended with ⟨cause, rfl, _⟩ | ⟨v, _, rfl, _⟩
  · exact ⟨.error cause, rfl⟩
  · exact ⟨.ok v, rfl⟩

theorem tried_once (course : Course id q (.done reply) log) (come : replyOutcome? reply = some (.ok v)) :
    ∃ seen, attempts id log = [seen] ∧ (Publishes id v log ↔ seen.holder = none) := by
  rcases course.ended with ⟨_, rfl, _⟩ | ⟨_, seen, rfl, tried, ⟨free, publishes⟩ | ⟨busy, untouched⟩⟩
  · cases come
  · cases come
    exact ⟨seen, tried, iff_of_true publishes free⟩
  · exact ⟨seen, tried, iff_of_false (not_publishes_of_untouched untouched) busy⟩

theorem untouched_of_error (course : Course id q phase log) {cause : E}
    (error : outcome? phase = some (.error cause)) : Untouched log := by
  cases course with
  | failed before => exact untouched_cons rfl (before.untried rfl).2
  | unlocked before =>
      obtain ⟨_, _, rfl, _⟩ := before.publishes_of_unlocking
      cases error
  | _ => cases error

theorem untouched_of_taken (course : Course id q phase log)
    (taken : ∀ seen ∈ attempts id log, seen.holder ≠ none) : Untouched log := by
  have absurd_of {seen : Entry V C} (tried : attempts id log = [seen]) (free : seen.holder = none) : False :=
    taken seen (tried ▸ List.mem_singleton_self seen) free
  cases course with
  | begun => exact List.forall_mem_singleton.mpr rfl
  | called before | computed before | failed before => exact untouched_cons rfl (before.untried rfl).2
  | refused busy before =>
      exact untouched_cons (untouched_of_busy (by simp [busy])) (before.untried rfl).2
  | granted free before => exact (absurd_of (attempts_of_try (before.untried rfl).1) free).elim
  | slotWritten before | flagWritten before | clockRead before | stampWritten _ _ before =>
      obtain ⟨seen, tried, free⟩ := before.free_of_publishing rfl
      exact (absurd_of tried free).elim
  | unlocked before =>
      obtain ⟨_, seen, _, tried, free, _⟩ := before.publishes_of_unlocking
      exact (absurd_of tried free).elim

end Course

theorem own_cons (id : CallId) (event : Event V C E) (log : List (Event V C E)) :
    own id (event :: log) = if event.id = id then event :: own id log else own id log := by
  by_cases mine : event.id = id <;> simp [own, mine]

theorem mem_own {id : CallId} {event : Event V C E} {log : List (Event V C E)} :
    event ∈ own id log ↔ event ∈ log ∧ event.id = id := by simp [own]

theorem length_own (id : CallId) (log : List (Event V C E)) : (own id log).length = eventsOf id log :=
  List.countP_eq_length_filter.symm

theorem countP_starts_own (id : CallId) (log : List (Event V C E)) :
    (own id log).countP (Event.starts id) = log.countP (Event.starts id) := by
  rw [own, List.countP_filter]
  apply List.countP_congr
  intro event _
  have mine (starts : event.starts id = true) : event.id = id := Event.id_of_starts starts
  simpa using mine

theorem attempts_own (id : CallId) (log : List (Event V C E)) : attempts id (own id log) = attempts id log := by
  induction log with
  | nil => rfl
  | cons event log ih =>
      rw [own_cons]
      split
      case isTrue =>
        simp only [attempts, List.filterMap_cons] at ih ⊢
        rw [ih]
      case isFalse other => rw [ih, attempts_of_other other]

theorem publishes_own {id : CallId} {v : V} {log : List (Event V C E)} :
    Publishes id v (own id log) ↔ Publishes id v log := by
  simp [Publishes, mem_own, Event.id]

namespace Run

open Call (Advance Fits LookupFits)

variable {policy : RefreshPolicy V C} {source : TimeSource} {run : Run V C E} {id : CallId} {q : Query C}
  {phase : Phase V E}

theorem own_eq_nil (reaches : (new policy source).Reaches run) (unused : run.calls id = none) :
    own id run.log = [] :=
  List.length_eq_zero_iff.mp ((length_own id run.log).trans (eventsOf_unused reaches unused))

theorem course_of_running (reaches : (new policy source).Reaches run)
    (running : run.calls id = some ⟨.lookup q, phase⟩) (unlocked : q.isUnlocked = true) :
    Course id q phase (own id run.log) := by
  refine reaches.each (P := fun run id request phase => request = .lookup q → Course id q phase (own id run.log))
    (by simp [new, start]) ?_ ?_ ?_ ?_ running rfl
  · rintro run id _ reached unused rfl
    simp only [put, own_cons, Event.id, own_eq_nil reached unused, Call.start, unlocked, if_true]
    exact .begun
  · rintro run id now _ phase entry next reached moving advance known rfl
    have before := known rfl
    have disciplined := disciplined_of_new reached
    have fits : LookupFits q phase := disciplined.fits _ _ _ moving
    have outline := disciplined.outline _ _ _ moving
    simp only [put, own_cons, Event.id, if_true]
    cases advance with
    | callUpdater => exact .called before
    | publishFree free => exact .granted free before
    | publishBusy busy => exact .refused busy before
    | writeSlot => exact .slotWritten before
    | writeFlag => exact .flagWritten before
    | readClock => exact .clockRead before
    | writeStamp =>
        have held : run.entry.holder = some id := (disciplined.locked _ _ _ moving).mp rfl
        exact .stampWritten (by simp [value?, outline.1, outline.2.1]) held before
    | unlock => exact .unlocked before
    | storeLocked store => cases store
    | _ => simp [LookupFits, unlocked] at fits
  · rintro run id _ outcome _ moving known ⟨⟩
    have before := known rfl
    simp only [put, own_cons, Event.id, if_true]
    cases outcome with
    | ok v => simpa [Call.resumed, unlocked] using .computed before
    | error cause => simpa [Call.resumed, unlocked] using .failed before
  · intro run event next other request phase _ step different _ known lookup
    rw [step.log, own_cons, if_neg (Ne.symm different)]
    exact known lookup

structure Recomputes (first : Run V C E) (moves : List (Move V C E)) (last : Run V C E) (id : CallId) (q : Query C)
    (phase : Phase V E) : Prop where
  once : phase ≠ .callUpdater → last.log.countP (Event.starts id) = 1
  unwaiting : Unwaiting id q last
  brief : eventsOf id last.log ≤ 9
  answer : ∀ reply, phase = .done reply →
    ∃ outcome, reply = ownReply outcome ∧ ∀ found, .returned id found ∈ last.log ↔ found = outcome
  publishes : ∀ reply v, phase = .done reply → .returned id (.ok v) ∈ last.log →
    ∃ seen, attempts id last.log = [seen] ∧ (Publishes id v last.log ↔ seen.holder = none)
  unnoticed : (∃ cause, .returned id (.error cause) ∈ last.log) ∨
      (∀ seen ∈ attempts id last.log, seen.holder ≠ none) →
    (∀ event ∈ last.log, event.id = id → event.touches = false) ∧
      first.follow? (moves.filter (·.id != id)) = some (last.without id)

section

variable {first last : Run V C E} {moves : List (Move V C E)}

/-- A lookup with a zero timeout calls its updater once, answers what that came to, and publishes it if the lock is
free when it comes with it. Otherwise the run is, but for the lookup itself, the one that it would have been without
it. -/
theorem zero_timeout_lookups_recompute (reaches : (new policy source).Reaches first) (unused : first.calls id = none)
    (followed : first.follow? moves = some last) (running : last.calls id = some ⟨.lookup q, phase⟩)
    (zero : q.timeout = 0) : Recomputes first moves last id q phase := by
  have whole := reaches.trans (.of_follow followed)
  have course := course_of_running whole running (by simp [Query.isUnlocked, Timeout.never, zero])
  constructor
  case once =>
    intro called
    rcases course.starts_once with ⟨calling, _⟩ | ⟨_, one⟩
    · exact absurd calling called
    · rwa [countP_starts_own] at one
  case unwaiting => exact unwaiting_of_unlocked whole zero
  case brief =>
    have bound := course.length_le
    rw [length_own] at bound
    omega
  case answer =>
    rintro reply rfl
    obtain ⟨outcome, come⟩ := course.replied
    refine ⟨outcome, reply_of_outcome come, ?_⟩
    intro found
    constructor
    · intro returned
      exact Option.some.inj ((come_of_returned whole running returned).symm.trans come)
    · rintro rfl
      exact returned_of_outcome whole running come
  case publishes =>
    rintro reply v rfl returned
    obtain ⟨seen, tried, published⟩ := course.tried_once (come_of_returned whole running returned)
    rw [attempts_own] at tried
    exact ⟨seen, tried, publishes_own.symm.trans published⟩
  case unnoticed =>
    intro nothing
    -- neither a failure nor a lock that is taken lets the lookup write anything
    have untouched : Untouched (own id last.log) := by
      rcases nothing with ⟨cause, returned⟩ | taken
      · exact course.untouched_of_error (come_of_returned whole running returned)
      · apply course.untouched_of_taken
        rwa [attempts_own]
    have unseen : ∀ event ∈ last.log, event.id = id → event.touches = false :=
      fun event member mine => untouched event (mem_own.mpr ⟨member, mine⟩)
    exact ⟨unseen, follow_without reaches unused followed unseen⟩

end

def firstRefresh : List (Move Int Unit Unit) := .invoke 1 (.lookup ⟨(), 10, false⟩) :: List.replicate 5 (.step 1 100)

/-- Another lookup queues for the lock. The slot shows the new value, which is pinned, when a third one recomputes; it
finds the lock taken. Then the refresh ends and the second lookup has its value. -/
def recomputeAmidRefresh : List (Move Int Unit Unit) :=
  List.flatten [.invoke 2 (.lookup ⟨(), 10, false⟩) :: List.replicate 2 (.step 2 101),
    .resume 1 (.ok (-1)) :: List.replicate 2 (.step 1 102),
    [.invoke 3 (.lookup ⟨(), 0, false⟩), .step 3 103, .resume 3 (.ok 5), .step 3 104],
    List.replicate 3 (.step 1 105), List.replicate 6 (.step 2 106)]

theorem pinned_value_recomputed_amid_refresh : ∃ first last : Run Int Unit Unit,
    (new pinNegative .wall).follow? firstRefresh = some first ∧ first.calls 3 = none ∧
      first.follow? recomputeAmidRefresh = some last ∧
      last.calls 3 = some ⟨.lookup ⟨(), 0, false⟩, .done (.answered 5 .computed)⟩ ∧
      last.calls 2 = some ⟨.lookup ⟨(), 10, false⟩, .done (.answered (-1) .coalesced)⟩ ∧
      Recomputes first recomputeAmidRefresh last 3 ⟨(), 0, false⟩ (.done (.answered 5 .computed)) ∧
      first.follow? (recomputeAmidRefresh.filter (·.id != 3)) = some (last.without 3) := by
  have computed : ((new pinNegative .wall).follow? firstRefresh).bind (fun first : Run Int Unit Unit =>
      (first.follow? recomputeAmidRefresh).map fun last =>
        (first.calls 3, last.calls 3, last.calls 2, (attempts 3 last.log).map (·.holder))) =
      some (none, some ⟨.lookup ⟨(), 0, false⟩, .done (.answered 5 .computed)⟩,
        some ⟨.lookup ⟨(), 10, false⟩, .done (.answered (-1) .coalesced)⟩, [some 1]) := by
    rfl
  obtain ⟨first, before, computed⟩ := Option.bind_eq_some_iff.mp computed
  obtain ⟨last, during, facts⟩ := Option.map_eq_some_iff.mp computed
  simp only [Prod.mk.injEq] at facts
  obtain ⟨unused, recomputed, coalesced, tried⟩ := facts
  have recomputes := zero_timeout_lookups_recompute (.of_follow before) unused during recomputed rfl
  have taken : ∀ seen ∈ attempts 3 last.log, seen.holder ≠ none := by
    intro seen member free
    have held : seen.holder ∈ (attempts 3 last.log).map (·.holder) := List.mem_map_of_mem member
    rw [tried, free] at held
    simp at held
  exact ⟨first, last, before, unused, during, recomputed, coalesced, recomputes,
    (recomputes.unnoticed (.inr taken)).2⟩

end Run

end ViewCache.Entry
