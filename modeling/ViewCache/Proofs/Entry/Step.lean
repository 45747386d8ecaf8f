import ViewCache.Proofs.Entry.Run

/-!
All that one step can do. The proofs about runs go by these cases and do not open the step functions.
-/
namespace ViewCache

variable {V C E : Type}

namespace Call

inductive Advance (me : CallId) (now : Int) (request : Request V C) (entry : Entry V C) :
    Phase V E → Entry V C → Phase V E → Prop
  | loadStamp : Advance me now request entry .loadStamp entry (.loadFlag entry.stamp)
  | flagUp {q snapshot} (lookup : request = .lookup q) (up : entry.initialized = true) :
      Advance me now request entry (.loadFlag snapshot) entry (.readSlot snapshot)
  | flagDown {q snapshot} (lookup : request = .lookup q) (down : entry.initialized = false) :
      Advance me now request entry (.loadFlag snapshot) entry (contend q snapshot)
  | slotEmpty {q snapshot} (lookup : request = .lookup q) (empty : entry.slot = none) :
      Advance me now request entry (.readSlot snapshot) entry (contend q snapshot)
  | pinned {q snapshot v} (lookup : request = .lookup q) (held : entry.slot = some v)
      (pin : entry.policy.isPinned v q.context = true) :
      Advance me now request entry (.readSlot snapshot) entry (.done (.answered v .fresh))
  | unstamped {q snapshot v} (lookup : request = .lookup q) (held : entry.slot = some v)
      (unpinned : entry.policy.isPinned v q.context = false) (zero : snapshot = neverPublished) :
      Advance me now request entry (.readSlot snapshot) entry (contend q snapshot)
  | forever {q snapshot v} (lookup : request = .lookup q) (held : entry.slot = some v)
      (unpinned : entry.policy.isPinned v q.context = false) (stamped : snapshot ≠ neverPublished)
      (negative : q.timeout < 0) :
      Advance me now request entry (.readSlot snapshot) entry (.done (.answered v .fresh))
  | aging {q snapshot v} (lookup : request = .lookup q) (held : entry.slot = some v)
      (unpinned : entry.policy.isPinned v q.context = false) (stamped : snapshot ≠ neverPublished)
      (elapses : 0 ≤ q.timeout) :
      Advance me now request entry (.readSlot snapshot) entry (.checkAge snapshot v)
  | old {q snapshot v} (lookup : request = .lookup q) (elapsed : q.timeout < now - snapshot) :
      Advance me now request entry (.checkAge snapshot v) entry (contend q snapshot)
  | young {q snapshot v} (lookup : request = .lookup q) (age : now - snapshot ≤ q.timeout) :
      Advance me now request entry (.checkAge snapshot v) entry (.done (.answered v .fresh))
  | tryFree {snapshot} (free : entry.holder = none) :
      Advance me now request entry (.tryLock snapshot) (take entry me) (.recheckFlag snapshot)
  | tryBusy {snapshot other} (busy : entry.holder = some other) :
      Advance me now request entry (.tryLock snapshot) entry (.staleFlag snapshot)
  | staleUp {snapshot} (up : entry.initialized = true) :
      Advance me now request entry (.staleFlag snapshot) entry (.staleSlot snapshot)
  | staleDown {snapshot} (down : entry.initialized = false) :
      Advance me now request entry (.staleFlag snapshot) entry (.lock snapshot)
  | staleTaken {snapshot v} (held : entry.slot = some v) :
      Advance me now request entry (.staleSlot snapshot) entry (.done (.answered v .stale))
  | staleEmpty {snapshot} (empty : entry.slot = none) :
      Advance me now request entry (.staleSlot snapshot) entry (.lock snapshot)
  | locked {snapshot} (free : entry.holder = none) :
      Advance me now request entry (.lock snapshot) (take entry me) (.recheckFlag snapshot)
  | recheckUp {snapshot} (up : entry.initialized = true) :
      Advance me now request entry (.recheckFlag snapshot) entry (.recheckStamp snapshot)
  | recheckDown {snapshot} (down : entry.initialized = false) :
      Advance me now request entry (.recheckFlag snapshot) entry .callUpdater
  | unrefreshed {snapshot} (same : snapshot = entry.stamp ∨ entry.stamp = neverPublished) :
      Advance me now request entry (.recheckStamp snapshot) entry .callUpdater
  | refreshed {snapshot} (moved : snapshot ≠ entry.stamp) (stamped : entry.stamp ≠ neverPublished) :
      Advance me now request entry (.recheckStamp snapshot) entry .coalesceFlag
  | coalesceUp (up : entry.initialized = true) :
      Advance me now request entry .coalesceFlag entry .coalesceSlot
  | coalesceDown (down : entry.initialized = false) :
      Advance me now request entry .coalesceFlag entry .callUpdater
  | coalesced {v} (held : entry.slot = some v) :
      Advance me now request entry .coalesceSlot entry (.unlock (.answered v .coalesced))
  | coalesceEmpty (empty : entry.slot = none) :
      Advance me now request entry .coalesceSlot entry .callUpdater
  | callUpdater : Advance me now request entry .callUpdater entry .updating
  | publishFree {v} (free : entry.holder = none) :
      Advance me now request entry (.tryPublish v) (take entry me) (.writeSlot v)
  | publishBusy {v other} (busy : entry.holder = some other) :
      Advance me now request entry (.tryPublish v) entry (.done (.answered v .computed))
  | storeLocked {v} (store : request = .store v) (free : entry.holder = none) :
      Advance me now request entry .lockStore (take entry me) (.writeSlot v)
  | writeSlot {v} :
      Advance me now request entry (.writeSlot v) { entry with slot := some v } (.writeFlag v)
  | writeFlag {v} :
      Advance me now request entry (.writeFlag v) { entry with initialized := true } (.readClock v)
  | readClock {v} :
      Advance me now request entry (.readClock v) entry (.writeStamp v (Entry.stampAt now))
  | writeStamp {v stamp} :
      Advance me now request entry (.writeStamp v stamp) { entry with stamp }
        (.unlock (published request v))
  | unlock {reply} :
      Advance me now request entry (.unlock reply) { entry with holder := none } (.done reply)
  | clearStamp : Advance me now request entry .clearStamp entry.expire (.done .expired)
  | valueUp (up : entry.initialized = true) : Advance me now request entry .valueFlag entry .valueSlot
  | valueDown (down : entry.initialized = false) :
      Advance me now request entry .valueFlag entry (.done (.found none))
  | valueRead : Advance me now request entry .valueSlot entry (.done (.found entry.slot))

theorem advance_cases {me : CallId} {now : Int} {request : Request V C} {entry after : Entry V C}
    {phase next : Phase V E} (advances : advance me now request entry phase = some (after, next)) :
    Advance me now request entry phase after next := by
  cases phase with
  | loadFlag snapshot =>
      cases request with
      | lookup q =>
          cases up : entry.initialized <;> simp [advance, up] at advances <;>
            obtain ⟨rfl, rfl⟩ := advances
          · exact .flagDown rfl up
          · exact .flagUp rfl up
      | store | expire | read => simp [advance] at advances
  | readSlot snapshot =>
      cases request with
      | lookup q =>
          cases held : entry.slot with
          | none =>
              simp [advance, held] at advances
              obtain ⟨rfl, rfl⟩ := advances
              exact .slotEmpty rfl held
          | some v =>
              cases pin : entry.policy.isPinned v q.context with
              | true =>
                  simp [advance, held, pin] at advances
                  obtain ⟨rfl, rfl⟩ := advances
                  exact .pinned rfl held pin
              | false =>
                  by_cases zero : snapshot = neverPublished
                  · subst zero
                    simp [advance, held, pin] at advances
                    obtain ⟨rfl, rfl⟩ := advances
                    exact .unstamped rfl held pin rfl
                  · by_cases negative : q.timeout < 0 <;>
                      simp [advance, held, pin, zero, negative] at advances <;>
                      obtain ⟨rfl, rfl⟩ := advances
                    · exact .forever rfl held pin zero negative
                    · exact .aging rfl held pin zero (by omega)
      | store | expire | read => simp [advance] at advances
  | checkAge snapshot v =>
      cases request with
      | lookup q =>
          by_cases elapsed : q.timeout < now - snapshot <;> simp [advance, elapsed] at advances <;>
            obtain ⟨rfl, rfl⟩ := advances
          · exact .old rfl elapsed
          · exact .young rfl (by omega)
      | store | expire | read => simp [advance] at advances
  | tryLock snapshot =>
      cases holder : entry.holder <;> simp [advance, holder] at advances <;>
        obtain ⟨rfl, rfl⟩ := advances
      · exact .tryFree holder
      · exact .tryBusy holder
  | staleFlag snapshot =>
      cases up : entry.initialized <;> simp [advance, up] at advances <;>
        obtain ⟨rfl, rfl⟩ := advances
      · exact .staleDown up
      · exact .staleUp up
  | staleSlot snapshot =>
      cases held : entry.slot <;> simp [advance, held] at advances <;>
        obtain ⟨rfl, rfl⟩ := advances
      · exact .staleEmpty held
      · exact .staleTaken held
  | lock snapshot =>
      cases holder : entry.holder <;> simp [advance, holder] at advances
      obtain ⟨rfl, rfl⟩ := advances
      exact .locked holder
  | recheckFlag snapshot =>
      cases up : entry.initialized <;> simp [advance, up] at advances <;>
        obtain ⟨rfl, rfl⟩ := advances
      · exact .recheckDown up
      · exact .recheckUp up
  | recheckStamp snapshot =>
      by_cases same : snapshot = entry.stamp ∨ entry.stamp = neverPublished <;>
        simp only [advance, same, if_true, if_false] at advances <;> cases advances
      · exact .unrefreshed same
      · exact .refreshed (fun equal => same (.inl equal)) (fun zero => same (.inr zero))
  | coalesceFlag =>
      cases up : entry.initialized <;> simp [advance, up] at advances <;>
        obtain ⟨rfl, rfl⟩ := advances
      · exact .coalesceDown up
      · exact .coalesceUp up
  | coalesceSlot =>
      cases held : entry.slot <;> simp [advance, held] at advances <;>
        obtain ⟨rfl, rfl⟩ := advances
      · exact .coalesceEmpty held
      · exact .coalesced held
  | tryPublish v =>
      cases holder : entry.holder <;> simp [advance, holder] at advances <;>
        obtain ⟨rfl, rfl⟩ := advances
      · exact .publishFree holder
      · exact .publishBusy holder
  | lockStore =>
      cases request with
      | store v =>
          cases holder : entry.holder <;> simp [advance, holder] at advances
          obtain ⟨rfl, rfl⟩ := advances
          exact .storeLocked rfl holder
      | lookup | expire | read => simp [advance] at advances
  | valueFlag =>
      cases up : entry.initialized <;> simp [advance, up] at advances <;>
        obtain ⟨rfl, rfl⟩ := advances
      · exact .valueDown up
      · exact .valueUp up
  | updating | done => simp [advance] at advances
  | loadStamp | callUpdater | writeSlot | writeFlag | readClock | writeStamp | unlock | clearStamp
  | valueSlot =>
      simp only [advance, Option.some.injEq, Prod.mk.injEq] at advances
      obtain ⟨rfl, rfl⟩ := advances
      constructor

theorem start_request (request : Request V C) :
    (start request : Call V C E) = ⟨request, (start request : Call V C E).phase⟩ := by
  cases request <;> rfl

def isEntry : Phase V E → Bool
  | .loadStamp | .callUpdater | .tryPublish _ | .lockStore | .writeSlot _ | .clearStamp | .valueFlag
  | .unlock (.failed _) | .done (.failed _) => true
  | _ => false

theorem isEntry_start (request : Request V C) : isEntry (start request : Call V C E).phase = true := by
  cases request with
  | lookup q => cases unlocked : q.isUnlocked <;> simp [start, unlocked, isEntry]
  | store | expire | read => rfl

theorem isEntry_resumed (q : Query C) (outcome : Except E V) : isEntry (resumed q outcome) = true := by
  cases outcome <;> cases unlocked : q.isUnlocked <;> simp [resumed, unlocked, isEntry]

/-- Whether the lookup is tolerant seldom matters to what is said of a phase. -/
theorem map_contend {α : Type} {f : Phase V E → α} {a : α} {q : Query C} {snapshot : Int}
    (tries : f (.tryLock snapshot) = a) (waits : f (.lock snapshot) = a) : f (contend q snapshot) = a := by
  cases tolerant : q.tolerant <;> simpa [contend, tolerant]

theorem contend_ne {q : Query C} {snapshot : Int} {phase : Phase V E} (tries : .tryLock snapshot ≠ phase)
    (waits : .lock snapshot ≠ phase) : contend q snapshot ≠ phase := by
  cases tolerant : q.tolerant <;> simpa [contend, tolerant]

section

variable {me : CallId} {now : Int} {request : Request V C} {entry after : Entry V C} {phase next : Phase V E}
  {snapshot stamp : Int} {v : V}

theorem Advance.clock_read (advance : Advance me now request entry phase after next)
    (pending : next = .writeStamp v stamp) : phase = .readClock v ∧ after = entry ∧ stamp = Entry.stampAt now := by
  cases advance with
  | readClock =>
      cases pending
      exact ⟨rfl, rfl, rfl⟩
  | flagDown | slotEmpty | unstamped | old => exact absurd pending (contend_ne (by simp) (by simp))
  | _ => cases pending

theorem Advance.policy (advance : Advance me now request entry phase after next) : after.policy = entry.policy := by
  cases advance <;> rfl

theorem Advance.slot_read (advance : Advance me now request entry phase after next)
    (checking : next = .checkAge snapshot v) : ∃ q, request = .lookup q ∧ phase = .readSlot snapshot ∧
      after = entry ∧ entry.slot = some v ∧ snapshot ≠ neverPublished ∧ 0 ≤ q.timeout := by
  cases advance with
  | @aging q _ _ lookup held _ stamped elapses =>
      cases checking
      exact ⟨q, lookup, rfl, rfl, held, stamped, elapses⟩
  | flagDown | slotEmpty | unstamped | old => exact absurd checking (contend_ne (by simp) (by simp))
  | _ => cases checking

end

theorem advance_of_case {me : CallId} {now : Int} {request : Request V C} {entry after : Entry V C}
    {phase next : Phase V E} (way : Advance me now request entry phase after next) :
    advance me now request entry phase = some (after, next) := by
  cases way with
  | @aging q snapshot v lookup held unpinned stamped elapses =>
      have waits : ¬ q.timeout < 0 := Int.not_lt.mpr elapses
      simp [advance, lookup, held, unpinned, stamped, waits]
  | @young q snapshot v lookup age =>
      have fresh : ¬ q.timeout < now - snapshot := Int.not_lt.mpr age
      simp [advance, lookup, fresh]
  | _ => simp_all [advance]

end Call

namespace Entry.Run

open Call (Advance)

inductive Step (run : Run V C E) : Event V C E → Run V C E → Prop
  | began {id request} (unused : run.calls id = none) :
      Step run (.began id request) (run.put id (Call.start request) run.entry (.began id request))
  | stepped {id now request phase entry next} (running : run.calls id = some ⟨request, phase⟩)
      (advance : Advance id now request run.entry phase entry next) :
      Step run (.stepped id now run.entry phase next)
        (run.put id ⟨request, next⟩ entry (.stepped id now run.entry phase next))
  | returned {id q outcome} (running : run.calls id = some ⟨.lookup q, .updating⟩) :
      Step run (.returned id outcome)
        (run.put id ⟨.lookup q, Call.resumed q outcome⟩ run.entry (.returned id outcome))

theorem advance_of_next {run next : Run V C E} {id : CallId} {now : Int}
    (moved : run.next? (.step id now) = some next) : ∃ request phase entry after,
      run.calls id = some ⟨request, phase⟩ ∧ Advance id now request run.entry phase entry after ∧
        next = run.put id ⟨request, after⟩ entry (.stepped id now run.entry phase after) := by
  cases running : run.calls id with
  | none => simp [next?, running] at moved
  | some call =>
      obtain ⟨request, phase⟩ := call
      simp only [next?, running, Call.step, Option.map_map, Option.map_eq_some_iff] at moved
      obtain ⟨⟨entry, after⟩, advances, rfl⟩ := moved
      exact ⟨request, phase, entry, after, rfl, Call.advance_cases advances, rfl⟩

theorem next_of_advance {run : Run V C E} {id : CallId} {now : Int} {request : Request V C} {entry : Entry V C}
    {phase after : Phase V E} (running : run.calls id = some ⟨request, phase⟩)
    (advance : Advance id now request run.entry phase entry after) :
    run.next? (.step id now) =
      some (run.put id ⟨request, after⟩ entry (.stepped id now run.entry phase after)) := by
  simp [next?, running, Call.step, Call.advance_of_case advance]

theorem returned_of_next {run next : Run V C E} {id : CallId} {outcome : Except E V}
    (moved : run.next? (.resume id outcome) = some next) : ∃ q, run.calls id = some ⟨.lookup q, .updating⟩ ∧
      next = run.put id ⟨.lookup q, Call.resumed q outcome⟩ run.entry (.returned id outcome) := by
  cases running : run.calls id with
  | none => simp [next?, running] at moved
  | some call =>
      simp only [next?, running, Option.map_eq_some_iff] at moved
      obtain ⟨after, resumes, rfl⟩ := moved
      unfold Call.resume at resumes
      split at resumes
      · cases resumes
        obtain ⟨request, phase⟩ := call
        simp only at *
        subst_vars
        exact ⟨_, rfl, rfl⟩
      · cases resumes

theorem step_of_next {run next : Run V C E} {move : Move V C E} (moved : run.next? move = some next) :
    ∃ event, Step run event next := by
  cases move with
  | invoke id request =>
      cases running : run.calls id <;> simp [next?, running] at moved
      subst moved
      exact ⟨_, .began running⟩
  | step id now =>
      obtain ⟨_, _, _, _, running, advance, rfl⟩ := advance_of_next moved
      exact ⟨_, .stepped running advance⟩
  | resume id outcome =>
      obtain ⟨_, running, rfl⟩ := returned_of_next moved
      exact ⟨_, .returned running⟩

theorem calls_put {run : Run V C E} {id other : CallId} {call found : Call V C E} {entry : Entry V C}
    {event : Event V C E} (held : (run.put id call entry event).calls other = some found) :
    other = id ∧ found = call ∨ other ≠ id ∧ run.calls other = some found := by
  by_cases same : other = id
  · subst same
    exact .inl ⟨rfl, by simpa [put] using held.symm⟩
  · exact .inr ⟨same, by simpa [put, same] using held⟩

theorem calls_put_self {run : Run V C E} {id : CallId} {call found : Call V C E} {entry : Entry V C}
    {event : Event V C E} (held : (run.put id call entry event).calls id = some found) : found = call := by
  simpa [put] using held.symm

theorem Step.log {run next : Run V C E} {event : Event V C E} (step : Step run event next) :
    next.log = event :: run.log := by
  cases step <;> rfl

theorem Step.other {run next : Run V C E} {event : Event V C E} (step : Step run event next)
    {other : CallId} (different : other ≠ event.id) : next.calls other = run.calls other := by
  cases step <;> exact Function.update_of_ne different _ _

theorem Step.of_running {run next : Run V C E} {event : Event V C E} (step : Step run event next)
    {id : CallId} {request : Request V C} {phase : Phase V E}
    (running : run.calls id = some ⟨request, phase⟩) :
    id ≠ event.id ∧ next.calls id = some ⟨request, phase⟩ ∨
      (∃ now entry after, Advance id now request run.entry phase entry after ∧
        event = .stepped id now run.entry phase after ∧ next.calls id = some ⟨request, after⟩) ∨
      ∃ q outcome, request = .lookup q ∧ phase = .updating ∧ event = .returned id outcome ∧
        next.calls id = some ⟨.lookup q, Call.resumed q outcome⟩ := by
  by_cases same : id = event.id
  · subst same
    right
    cases step with
    | began unused => simp [Event.id, unused] at running
    | stepped already advance =>
        rw [Event.id, already] at running
        cases running
        exact .inl ⟨_, _, _, advance, rfl, Function.update_self ..⟩
    | returned already =>
        rw [Event.id, already] at running
        cases running
        exact .inr ⟨_, _, rfl, rfl, rfl, Function.update_self ..⟩
  · exact .inl ⟨same, (step.other same).trans running⟩

theorem Step.running {run next : Run V C E} {event : Event V C E} (step : Step run event next)
    {id : CallId} {request : Request V C} {phase : Phase V E}
    (running : run.calls id = some ⟨request, phase⟩) : ∃ after, next.calls id = some ⟨request, after⟩ := by
  rcases step.of_running running with ⟨_, still⟩ | ⟨_, _, after, _, _, moved⟩ | ⟨_, _, rfl, _, _, moved⟩
  · exact ⟨phase, still⟩
  · exact ⟨after, moved⟩
  · exact ⟨_, moved⟩

theorem Reaches.step {first run next : Run V C E} {event : Event V C E} (reaches : first.Reaches run)
    (step : Step run event next) : first.Reaches next := by
  refine reaches.trans ?_
  cases step with
  | @began id request unused => exact .of_next (.invoke id request) (by simp [next?, unused])
  | stepped running advance => exact .of_next (.step _ _) (next_of_advance running advance)
  | @returned id q outcome running =>
      exact .of_next (.resume id outcome) (by simp [next?, running, Call.resume])

theorem Reaches.rule {first last : Run V C E} {P : Run V C E → Prop} (reaches : first.Reaches last)
    (holds : P first)
    (kept : ∀ {run event next}, first.Reaches run → P run → Step run event next → P next) : P last := by
  refine Leads.induct reaches holds ?_
  intro run move next reached holds moved
  obtain ⟨event, step⟩ := step_of_next moved
  exact kept reached holds step

theorem Reaches.running {first last : Run V C E} (reaches : first.Reaches last) {id : CallId}
    {request : Request V C} {phase : Phase V E} (running : first.calls id = some ⟨request, phase⟩) :
    ∃ after, last.calls id = some ⟨request, after⟩ := by
  refine reaches.rule (P := fun run => ∃ after, run.calls id = some ⟨request, after⟩) ⟨phase, running⟩ ?_
  intro run event next _ known step
  obtain ⟨after, running⟩ := known
  exact step.running running

/-- What a call has from its start, keeps in each of its own steps, and does not lose in a step of
another call, holds of every call in every run. -/
theorem Reaches.each {first last : Run V C E} {P : Run V C E → CallId → Request V C → Phase V E → Prop}
    (reaches : first.Reaches last)
    (holds : ∀ {id request phase}, first.calls id = some ⟨request, phase⟩ → P first id request phase)
    (began : ∀ {run id request}, first.Reaches run → run.calls id = none →
      P (run.put id (Call.start request) run.entry (.began id request)) id request
        (Call.start request : Call V C E).phase)
    (stepped : ∀ {run id now request phase entry next}, first.Reaches run →
      run.calls id = some ⟨request, phase⟩ → Advance id now request run.entry phase entry next →
      P run id request phase →
      P (run.put id ⟨request, next⟩ entry (.stepped id now run.entry phase next)) id request next)
    (returned : ∀ {run id q outcome}, first.Reaches run → run.calls id = some ⟨.lookup q, .updating⟩ →
      P run id (.lookup q) .updating →
      P (run.put id ⟨.lookup q, Call.resumed q outcome⟩ run.entry (.returned id outcome)) id (.lookup q)
        (Call.resumed q outcome))
    (others : ∀ {run event next other request phase}, first.Reaches run → Step run event next →
      other ≠ event.id → run.calls other = some ⟨request, phase⟩ → P run other request phase →
      P next other request phase) :
    ∀ {id request phase}, last.calls id = some ⟨request, phase⟩ → P last id request phase := by
  refine reaches.rule (P := fun run => ∀ {id request phase}, run.calls id = some ⟨request, phase⟩ →
    P run id request phase) holds ?_
  intro run event next reached holds step other request phase found
  by_cases same : other = event.id
  · subst same
    cases step with
    | @began id request unused =>
        rcases calls_put found with ⟨_, started⟩ | ⟨different, _⟩
        · rw [Call.start_request] at started
          cases started
          exact began reached unused
        · exact absurd rfl different
    | stepped running advance =>
        rcases calls_put found with ⟨_, moved⟩ | ⟨different, _⟩
        · cases moved
          exact stepped reached running advance (holds running)
        · exact absurd rfl different
    | returned running =>
        rcases calls_put found with ⟨_, moved⟩ | ⟨different, _⟩
        · cases moved
          exact returned reached running (holds running)
        · exact absurd rfl different
  · have running := (step.other same).symm.trans found
    exact others reached step same running (holds running)

theorem Reaches.inside {first last : Run V C E} {X : Phase V E → Prop}
    {P : Run V C E → CallId → Request V C → Prop} {id : CallId} {request : Request V C} {phase : Phase V E}
    (reaches : first.Reaches last) (unused : first.calls id = none)
    (inner : ∀ {phase}, X phase → Call.isEntry phase = false)
    (stepped : ∀ {run id now request phase entry next}, first.Reaches run → first.calls id = none →
      run.calls id = some ⟨request, phase⟩ → Advance id now request run.entry phase entry next →
      (X phase → P run id request) → X next →
      P (run.put id ⟨request, next⟩ entry (.stepped id now run.entry phase next)) id request)
    (others : ∀ {run event next other request phase}, first.Reaches run → first.calls other = none →
      Step run event next → other ≠ event.id → run.calls other = some ⟨request, phase⟩ → X phase →
      P run other request → P next other request)
    (running : last.calls id = some ⟨request, phase⟩) (here : X phase) : P last id request := by
  refine reaches.each (P := fun run id request phase => first.calls id = none → X phase → P run id request)
    ?_ ?_ ?_ ?_ ?_ running unused here
  · intro id request phase begun unused
    simp [unused] at begun
  · intro run id request _ _ _ here
    have entered := Call.isEntry_start (E := E) request
    simp [inner here] at entered
  · intro run id now request phase entry next reached running advance known unused here
    exact stepped reached unused running advance (known unused) here
  · intro run id q outcome _ _ _ _ here
    have entered := Call.isEntry_resumed q outcome
    simp [inner here] at entered
  · intro run event next other request phase reached step different running known unused here
    exact others reached unused step different running here (known unused here)

end Entry.Run

end ViewCache
