import ViewCache.Proofs.Entry.Progress

namespace ViewCache.Entry

variable {V C E : Type}

/-- A lookup that begins after `next`, and would rather wait than take a stale value, can still be answered
with what an updater returned that was called before `older` ended. -/
def Lost (older : List (Event V C E)) (next : Run V C E) : Prop :=
  ∃ last id q v how writer, next.Reaches last ∧ next.calls id = none ∧ q.timeout ≠ 0 ∧ q.tolerant = false ∧
    last.calls id = some ⟨.lookup q, .done (.answered v how)⟩ ∧ origin id last.log = some writer ∧
    Started writer older

def Informed (phase : Phase V E) : Prop :=
  isCoalescing phase = true ∨ (snapshot? phase).getD neverPublished ≠ neverPublished

theorem inner_of_informed {phase : Phase V E} (informed : Informed phase) : Call.isEntry phase = false := by
  rcases informed with coalescing | stamped
  · exact inner_of_coalescing coalescing
  · cases loaded : snapshot? phase with
    | none => simp [loaded] at stamped
    | some snapshot => exact inner_of_snapshot loaded

open Call (Advance) in
theorem informed_of_next {me : CallId} {now : Int} {request : Request V C} {entry after : Entry V C}
    {phase next : Phase V E} (advance : Advance me now request entry phase after next)
    (informed : Informed next) : Informed phase ∨ entry.stamp ≠ neverPublished := by
  cases advance with
  | flagDown | slotEmpty | unstamped | old =>
      simp only [Informed, isCoalescing_contend, snapshot?_contend] at informed
      exact .inl (informed.imp (by simp) id)
  | _ => simp_all [Informed, isCoalescing, snapshot?]

open Call (Advance Fits) in
theorem informed_of_taken {me : CallId} {now : Int} {q : Query C} {entry after : Entry V C}
    {phase next : Phase V E} {v : V} (advance : Advance me now (.lookup q) entry phase after next)
    (fits : Fits (.lookup q : Request V C) phase) (impatient : q.tolerant = false)
    (unpinned : ∀ v, entry.policy.isPinned v q.context = false) (taken : takenValue? next = some v) :
    (Informed phase ∧
        ∀ log : List (Event V C E), origin me (.stepped me now entry phase next :: log) = slotWriter log) ∨
      (takenValue? phase = some v ∧
        ∀ log : List (Event V C E), origin me (.stepped me now entry phase next :: log) = origin me log) := by
  cases advance with
  | flagDown | slotEmpty | unstamped | old => simp at taken
  | pinned lookup _ pin =>
      cases lookup
      simp [unpinned] at pin
  | staleTaken =>
      have tolerant : q.tolerant = true := fits.2
      simp [impatient] at tolerant
  | _ => simp_all [Informed, isCoalescing, snapshot?, takenValue?, shared?, Call.published, origin, Event.takes,
      Event.computes]

open Call (Advance) in
theorem underWay_of_next {me : CallId} {now : Int} {request : Request V C} {entry after : Entry V C}
    {phase next : Phase V E} (advance : Advance me now request entry phase after next)
    (inFlight : isInFlight phase = true) : isInFlight next = true ∨ isOver next = true := by
  cases advance <;> simp_all [isInFlight, isOver]

namespace Run

open Call (Advance holds Fits Outline)

variable {policy : RefreshPolicy V C} {source : TimeSource} {run : Run V C E}

theorem phase_of_started (reaches : (new policy source).Reaches run) {id : CallId}
    (started : Started id run.log) :
    ∃ q phase, run.calls id = some ⟨.lookup q, phase⟩ ∧ (isInFlight phase = true ∨ isOver phase = true) := by
  revert started
  refine reaches.rule (P := fun run => Started id run.log → ∃ q phase,
    run.calls id = some ⟨.lookup q, phase⟩ ∧ (isInFlight phase = true ∨ isOver phase = true))
    (by simp [new, start, Started]) ?_
  intro run event next reached known step started
  rw [step.log] at started
  obtain ⟨found, member, starts⟩ := started
  rcases List.mem_cons.mp member with rfl | earlier
  · cases step with
    | began | returned => simp [Event.starts] at starts
    | @stepped me now request phase entry after running advance =>
        cases advance <;> simp [Event.starts] at starts
        subst starts
        have fits := (disciplined_of_new reached).fits _ _ _ running
        cases request with
        | lookup q => exact ⟨q, _, Function.update_self .., .inl rfl⟩
        | store | expire | read => simp [Fits, Call.StoreFits] at fits
  · obtain ⟨q, phase, running, underWay⟩ := known ⟨found, earlier, starts⟩
    rcases underWay with inFlight | ended
    · rcases step.of_running running with ⟨_, still⟩ | ⟨_, _, after, advance, _, moved⟩ |
        ⟨asked, outcome, same, _, _, moved⟩
      · exact ⟨q, phase, still, .inl inFlight⟩
      · exact ⟨q, after, moved, underWay_of_next advance inFlight⟩
      · cases same
        refine ⟨q, _, moved, ?_⟩
        cases outcome <;> cases unlocked : q.isUnlocked <;>
          simp [Call.resumed, unlocked, isInFlight, isOver]
    · obtain ⟨after, stopped, still⟩ := step.ended running ended
      exact ⟨q, after, stopped, .inr still⟩

theorem Step.unwritten {next : Run V C E} {event : Event V C E} (step : Step run event next) {id : CallId}
    {request : Request V C} {phase : Phase V E} (running : run.calls id = some ⟨request, phase⟩)
    (ended : isOver phase = true) (elsewhere : slotWriter run.log ≠ some id) :
    slotWriter next.log ≠ some id := by
  intro written
  rw [step.log, slotWriter_cons] at written
  cases wrote : event.writer? with
  | none => exact elsewhere (by simpa [wrote] using written)
  | some writer =>
      have same : writer = id := by simpa [wrote] using written
      exact (step.idle_of_over running ended).1 (same ▸ wrote)

section

variable {first : Run V C E} {past : CallId} {request : Request V C} {phase : Phase V E}

theorem Reaches.ended (reaches : first.Reaches run) (running : first.calls past = some ⟨request, phase⟩)
    (ended : isOver phase = true) : ∃ after, run.calls past = some ⟨request, after⟩ ∧ isOver after = true := by
  refine reaches.rule (P := fun run => ∃ after, run.calls past = some ⟨request, after⟩ ∧ isOver after = true)
    ⟨phase, running, ended⟩ ?_
  intro run event next _ known step
  obtain ⟨after, stopped, still⟩ := known
  exact step.ended stopped still

/-- Once the timestamp was cleared, a new one speaks for a value that was written after that. -/
theorem renewed (early : (new policy source).Reaches first) (cleared : first.entry.stamp = neverPublished)
    (running : first.calls past = some ⟨request, phase⟩) (ended : isOver phase = true)
    (reaches : first.Reaches run) (stamped : run.entry.stamp ≠ neverPublished) :
    slotWriter run.log ≠ some past := by
  revert stamped
  refine reaches.rule (P := fun run => run.entry.stamp ≠ neverPublished → slotWriter run.log ≠ some past)
    (fun stamped => absurd cleared stamped) ?_
  intro run event next reached known step stamped
  obtain ⟨after, stopped, still⟩ := reached.ended running ended
  cases step with
  | began | returned => exact known stamped
  | @stepped id now asked phase entry after moving advance =>
      have step : Step run _ _ := .stepped moving advance
      cases advance with
      | writeStamp =>
          refine step.unwritten stopped still ?_
          rw [slotWriter_of_publishing (early.trans reached) moving rfl]
          intro same
          cases same
          rw [moving] at stopped
          cases stopped
          simp [isOver] at still
      | clearStamp => exact absurd rfl stamped
      | _ => exact step.unwritten stopped still (known stamped)

theorem elsewhere_of_informed (early : (new policy source).Reaches first)
    (cleared : first.entry.stamp = neverPublished)
    (running : first.calls past = some ⟨request, phase⟩) (ended : isOver phase = true)
    (reaches : first.Reaches run) {id : CallId} (unused : first.calls id = none) {asked : Request V C}
    {current : Phase V E} (waiting : run.calls id = some ⟨asked, current⟩) (informed : Informed current) :
    slotWriter run.log ≠ some past := by
  refine reaches.inside (X := Informed) (P := fun run _ _ => slotWriter run.log ≠ some past) unused
    inner_of_informed ?_ ?_ waiting informed
  · intro run id now asked current entry next reached _ moving advance known informed
    obtain ⟨after, stopped, still⟩ := reached.ended running ended
    have step : Step run _ _ := .stepped moving advance
    refine step.unwritten stopped still ?_
    rcases informed_of_next advance informed with before | stamped
    · exact known before
    · exact renewed early cleared running ended reached stamped
  · intro run event next other asked current reached _ step _ _ _ elsewhere
    obtain ⟨after, stopped, still⟩ := reached.ended running ended
    exact step.unwritten stopped still elsewhere

/-- No lookup that begins afterwards, and does not take stale values, answers what was published before the
timestamp was cleared. -/
theorem renewed_answer (early : (new .timed source).Reaches first)
    (cleared : first.entry.stamp = neverPublished)
    (running : first.calls past = some ⟨request, phase⟩) (ended : isOver phase = true)
    (reaches : first.Reaches run) {id : CallId} (unused : first.calls id = none) {q : Query C}
    {current : Phase V E} (waiting : run.calls id = some ⟨.lookup q, current⟩) (impatient : q.tolerant = false)
    {v : V} (taken : takenValue? current = some v) : origin id run.log ≠ some past := by
  refine reaches.inside (X := fun phase => takenValue? phase = some v)
    (P := fun run id asked => asked = .lookup q → origin id run.log ≠ some past) unused inner_of_taken ?_ ?_
    waiting taken rfl
  · intro run id now asked current entry next reached unused moving advance known taken lookup
    subst lookup
    have whole := early.trans reached
    have fits := (disciplined_of_new whole).fits _ _ _ moving
    have unpinned : ∀ v, run.entry.policy.isPinned v q.context = false := by
      intro v
      rw [policy_fixed whole]
      rfl
    rcases informed_of_taken advance fits impatient unpinned taken with ⟨informed, reads⟩ | ⟨before, unread⟩
    · simp only [put, reads]
      exact elsewhere_of_informed early cleared running ended reached unused moving informed
    · simp only [put, unread]
      exact known before rfl
  · intro run event next other asked current _ _ step different _ _ apart lookup
    rw [step.log, origin_of_other different]
    exact apart lookup

end

theorem step_of_expire (reaches : (new policy source).Reaches run) {next : Run V C E} {id : CallId} {now : Int}
    (began : .began id .expire ∈ run.log) (moved : run.next? (.step id now) = some next) :
    next.entry.stamp = neverPublished ∧ ∃ event, Step run event next ∧ event.id = id := by
  obtain ⟨phase, running⟩ := running_of_began reaches began
  rcases (disciplined_of_new reaches).fits _ _ _ running with rfl | rfl
  · have step : Step run (.stepped id now _ _ _) _ := .stepped running .clearStamp
    simp only [next?, running, Call.step, Call.advance, Option.map_some, Option.some.injEq] at moved
    subst moved
    exact ⟨rfl, _, step, rfl⟩
  · simp [next?, running, Call.step, Call.advance] at moved

/-- An expiry can be lost exactly when some updater that was called before it is still running, or has
returned a value whose publish is not complete. -/
theorem expiry_lost_iff [Nonempty V] (reaches : (new .timed source).Reaches run) {next : Run V C E}
    {newer older : List (Event V C E)} {id : CallId} {now : Int}
    (split : run.log = newer ++ .began id .expire :: older) (moved : run.next? (.step id now) = some next) :
    Lost older next ↔ ∃ other q phase, run.calls other = some ⟨.lookup q, phase⟩ ∧
      isInFlight phase = true ∧ Started other older := by
  have began : .began id .expire ∈ run.log := by simp [split]
  obtain ⟨cleared, event, step, mine⟩ := step_of_expire reaches began moved
  obtain ⟨_, expiring⟩ := running_of_began reaches began
  have early := reaches.step step
  constructor
  · rintro ⟨last, reader, q, v, how, writer, reached, unused, nonzero, impatient, answered, taken, started⟩
    have startedHere : Started writer run.log := by
      obtain ⟨found, member, starts⟩ := started
      exact ⟨found, by simp [split, member], starts⟩
    obtain ⟨asked, phase, running, inFlight | ended⟩ := phase_of_started reaches startedHere
    · exact ⟨writer, asked, phase, running, inFlight, started⟩
    · obtain ⟨after, stopped, still⟩ := step.ended running ended
      exfalso
      cases how with
      | computed =>
          have own := (own_value (early.trans reached) answered rfl).2
          rw [taken] at own
          cases own
          simp [unused] at stopped
      | fresh | stale | coalesced =>
          exact renewed_answer early cleared stopped still reached unused answered impatient rfl taken
  · rintro ⟨other, q, phase, running, inFlight, started⟩
    -- the refresh is published after the expiry, and the next lookup takes that for fresh
    have different : other ≠ event.id := by
      rw [mine]
      rintro rfl
      rw [expiring] at running
      cases running
    obtain ⟨published, first, written, stamped⟩ :=
      can_publish early ((step.other different).trans running) inFlight
    obtain ⟨reader, unused⟩ := unused_call (early.trans first)
    have negative : (Query.mk q.context (-1) false).timeout < 0 := by simp
    obtain ⟨last, v, second, answered, taken⟩ := can_answer (early.trans first) stamped unused negative
    have before : next.calls reader = none := by
      cases found : next.calls reader with
      | none => rfl
      | some call =>
          obtain ⟨after, still⟩ := first.running found
          simp [unused] at still
    exact ⟨last, reader, _, v, .fresh, other, first.trans second, before, by simp, rfl, answered,
      taken.trans written, started⟩

/-- A lookup whose updater is running, and somebody who is about to expire the entry. -/
def refreshAndExpire : List (Move Nat Unit Unit) :=
  List.flatten [[.invoke 1 (.lookup ⟨(), -1, false⟩)], List.replicate 5 (.step 1 100), [.invoke 2 .expire]]

def publishAndLookup : List (Move Nat Unit Unit) :=
  List.flatten [[.resume 1 (.ok 1)], List.replicate 5 (.step 1 100),
    [.invoke 3 (.lookup ⟨(), -1, false⟩)], List.replicate 3 (.step 3 100)]

theorem expired_during_refresh : ∃ run next last : Run Nat Unit Unit, ∃ older,
    (new .timed .wall).follow? refreshAndExpire = some run ∧ run.log = .began 2 .expire :: older ∧
      Started 1 older ∧ run.next? (.step 2 100) = some next ∧ next.calls 3 = none ∧
      next.follow? publishAndLookup = some last ∧
      last.calls 3 = some ⟨.lookup ⟨(), -1, false⟩, .done (.answered 1 .fresh)⟩ ∧
      origin 3 last.log = some 1 := by
  have computed : (((new .timed .wall).follow? refreshAndExpire).bind fun run : Run Nat Unit Unit =>
      (run.next? (.step 2 100)).bind fun next => (next.follow? publishAndLookup).map fun last =>
        (run.log.head?, run.log.tail.any (Event.starts 1), next.calls 3, last.calls 3, origin 3 last.log)) =
      some (some (.began 2 .expire), true, none,
        some ⟨.lookup ⟨(), -1, false⟩, .done (.answered 1 .fresh)⟩, some 1) := by
    rfl
  obtain ⟨run, followed, computed⟩ := Option.bind_eq_some_iff.mp computed
  obtain ⟨next, moved, computed⟩ := Option.bind_eq_some_iff.mp computed
  obtain ⟨last, continued, facts⟩ := Option.map_eq_some_iff.mp computed
  simp only [Prod.mk.injEq] at facts
  obtain ⟨newest, started, unused, answered, taken⟩ := facts
  obtain ⟨older, log⟩ := List.head?_eq_some_iff.mp newest
  rw [log, List.tail_cons] at started
  obtain ⟨event, member, starts⟩ := List.any_eq_true.mp started
  exact ⟨run, next, last, older, followed, log, ⟨event, member, starts⟩, moved, unused, continued, answered,
    taken⟩

/-- The value of the refresh under way is answered as fresh although the entry was expired meanwhile. -/
theorem expiry_during_refresh_is_lost : ∃ run next : Run Nat Unit Unit, ∃ older,
    (new .timed .wall).follow? refreshAndExpire = some run ∧ run.log = .began 2 .expire :: older ∧
      run.next? (.step 2 100) = some next ∧ Lost older next := by
  obtain ⟨run, next, last, older, followed, log, started, moved, unused, continued, answered, taken⟩ :=
    expired_during_refresh
  exact ⟨run, next, older, followed, log, moved, last, 3, _, 1, .fresh, 1, (.of_follow continued),
    unused, by decide, rfl, answered, taken, started⟩

theorem expiry_during_refresh_iff : ∃ run next : Run Nat Unit Unit, ∃ older,
    (new .timed .wall).follow? refreshAndExpire = some run ∧ run.log = .began 2 .expire :: older ∧
      run.next? (.step 2 100) = some next ∧
      (Lost older next ↔ ∃ other q phase, run.calls other = some ⟨.lookup q, phase⟩ ∧
        isInFlight phase = true ∧ Started other older) := by
  obtain ⟨run, next, last, older, followed, log, _, moved, _⟩ := expired_during_refresh
  exact ⟨run, next, older, followed, log, moved,
    expiry_lost_iff (.of_follow followed) (log.trans (List.nil_append _).symm) moved⟩

end Run

end ViewCache.Entry
