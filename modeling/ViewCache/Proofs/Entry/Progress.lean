import ViewCache.Proofs.Entry.Provenance

/-!
Calls can be brought to an end: whoever has the lock can give it back, and a computed value can be
published, whatever the other calls do not do.
-/
namespace ViewCache.Entry

variable {V C E : Type}

def remaining : Phase V E → Nat
  | .recheckFlag _ => 12
  | .recheckStamp _ => 11
  | .coalesceFlag => 10
  | .coalesceSlot => 9
  | .callUpdater => 8
  | .updating => 7
  | .tryPublish _ => 6
  | .writeSlot _ => 5
  | .writeFlag _ => 4
  | .readClock _ => 3
  | .writeStamp .. => 2
  | .unlock _ => 1
  | _ => 0

def isInFlight : Phase V E → Bool
  | .updating | .tryPublish _ | .writeSlot _ | .writeFlag _ | .readClock _ | .writeStamp .. => true
  | _ => false

def distance : Phase V E → Nat
  | .loadStamp => 20
  | .loadFlag _ => 19
  | .readSlot _ => 18
  | .checkAge .. => 17
  | .tryLock _ => 16
  | .staleFlag _ => 15
  | .staleSlot _ => 14
  | .lock _ => 13
  | .lockStore => 6
  | .valueFlag => 2
  | .clearStamp | .valueSlot => 1
  | phase => remaining phase

def eventsOf (id : CallId) (log : List (Event V C E)) : Nat := log.countP fun event => event.id == id

theorem eventsOf_own {id : CallId} {event : Event V C E} (own : event.id = id) (log : List (Event V C E)) :
    eventsOf id (event :: log) = eventsOf id log + 1 := by
  simp [eventsOf, own]

theorem eventsOf_other {id : CallId} {event : Event V C E} (other : id ≠ event.id) (log : List (Event V C E)) :
    eventsOf id (event :: log) = eventsOf id log := by
  simp [eventsOf, Ne.symm other]

def waitsForLock : Phase V E → Bool
  | .lock _ | .lockStore => true
  | _ => false

open Call (Advance holds Fits) in
theorem remaining_of_holds {me : CallId} {now : Int} {request : Request V C} {entry after : Entry V C}
    {phase next : Phase V E} (fits : Fits request phase) (locked : holds request phase = true)
    (advance : Advance me now request entry phase after next) :
    remaining next < remaining phase ∧ (holds request next = true ∨ after.holder = none) := by
  cases advance with
  | callUpdater =>
      cases request with
      | lookup q => exact ⟨by simp [remaining], .inl locked⟩
      | store | expire | read => simp [holds] at locked
  | unlock => exact ⟨by simp [remaining], .inr rfl⟩
  | recheckDown | unrefreshed | coalesceDown | coalesceEmpty =>
      cases request with
      | lookup q =>
          have waits : q.isUnlocked = false := fits
          simp [remaining, holds, waits]
      | store | expire | read => simp [Fits, Call.StoreFits] at fits
  | _ => simp_all [holds, remaining]

open Call (Advance holds) in
theorem advance_of_holds {request : Request V C} {phase : Phase V E} (locked : holds request phase = true)
    (busy : phase ≠ .updating) (me : CallId) (now : Int) (entry : Entry V C) :
    ∃ after next, Advance me now request entry phase after next := by
  have moves : ∃ after next, Call.advance me now request entry phase = some (after, next) := by
    cases phase with
    | coalesceSlot => cases held : entry.slot <;> simp [Call.advance, held]
    | updating => exact absurd rfl busy
    | _ => simp_all [holds, Call.advance]
  obtain ⟨after, next, moves⟩ := moves
  exact ⟨after, next, Call.advance_cases moves⟩

open Call (Advance holds Fits) in
theorem distance_lt {me : CallId} {now : Int} {request : Request V C} {entry after : Entry V C}
    {phase next : Phase V E} (advance : Advance me now request entry phase after next) :
    distance next < distance phase := by
  cases advance with
  | @flagDown q | @slotEmpty q | @unstamped q | @old q =>
      cases tolerant : q.tolerant <;> simp [Call.contend, tolerant, distance]
  | _ => simp [distance, remaining]

theorem distance_resumed_lt (q : Query C) (outcome : Except E V) : distance (Call.resumed q outcome) < 7 := by
  cases outcome <;> cases unlocked : q.isUnlocked <;> simp [Call.resumed, unlocked, distance, remaining]

theorem distance_start_le (request : Request V C) : distance (Call.start request : Call V C E).phase ≤ 20 := by
  cases request with
  | lookup q => cases unlocked : q.isUnlocked <;> simp [Call.start, unlocked, distance, remaining]
  | store | expire | read => simp [Call.start, distance]

open Call (Advance holds Fits) in
theorem advance_of_fits {request : Request V C} {phase : Phase V E} (fits : Fits request phase)
    (me : CallId) (now : Int) (entry : Entry V C) (free : waitsForLock phase = true → entry.holder = none)
    (busy : phase ≠ .updating) (unended : ∀ reply, phase ≠ .done reply) :
    ∃ after next, Call.advance me now request entry phase = some (after, next) := by
  cases request with
  | lookup q =>
      cases phase with
      | readSlot snapshot =>
          cases held : entry.slot with
          | none => simp [Call.advance, held]
          | some v =>
              cases pin : entry.policy.isPinned v q.context <;>
                by_cases zero : snapshot = neverPublished <;> by_cases negative : q.timeout < 0 <;>
                simp [Call.advance, held, pin, zero, negative]
      | tryLock | tryPublish => cases holder : entry.holder <;> simp [Call.advance, holder]
      | staleSlot | coalesceSlot => cases held : entry.slot <;> simp [Call.advance, held]
      | lock => simp [Call.advance, free rfl]
      | updating => exact absurd rfl busy
      | done reply => exact absurd rfl (unended reply)
      | lockStore | clearStamp | valueFlag | valueSlot => simp [Fits, Call.LookupFits] at fits
      | _ => simp [Call.advance]
  | store v =>
      cases phase with
      | lockStore => simp [Call.advance, free rfl]
      | done reply => exact absurd rfl (unended reply)
      | unlock | writeSlot | writeFlag | readClock | writeStamp => simp [Call.advance]
      | _ => simp [Fits, Call.StoreFits] at fits
  | expire =>
      rcases fits with rfl | rfl
      · simp [Call.advance]
      · exact absurd rfl (unended _)
  | read =>
      rcases fits with rfl | rfl | ⟨_, rfl⟩
      · simp [Call.advance]
      · simp [Call.advance]
      · exact absurd rfl (unended _)

namespace Run

open Call (Advance holds Fits Outline)

variable {policy : RefreshPolicy V C} {source : TimeSource} {run : Run V C E}

theorem unused_call (reaches : (new policy source).Reaches run) : ∃ id, run.calls id = none := by
  have bounded : ∃ bound : Nat, ∀ id : Nat, bound ≤ id → run.calls id = none := by
    refine reaches.rule (P := fun run => ∃ bound : Nat, ∀ id : Nat, bound ≤ id → run.calls id = none)
      ⟨0, fun _ _ => rfl⟩ ?_
    intro run event next _ known step
    obtain ⟨bound, unused⟩ := known
    refine ⟨max bound (event.id + 1), ?_⟩
    intro id large
    have other : id ≠ event.id := by omega
    rw [step.other other]
    exact unused id (by omega)
  obtain ⟨bound, unused⟩ := bounded
  exact ⟨bound, unused bound (Nat.le_refl bound)⟩

theorem can_step {id : CallId} {request : Request V C} {phase next : Phase V E} {entry : Entry V C}
    (running : run.calls id = some ⟨request, phase⟩) (now : Int)
    (advance : Advance id now request run.entry phase entry next) :
    ∃ later, run.Reaches later ∧ later.entry = entry ∧ later.calls id = some ⟨request, next⟩ ∧
      later.log = .stepped id now run.entry phase next :: run.log :=
  ⟨_, (Reaches.refl run).step (.stepped running advance), rfl, Function.update_self .., rfl⟩

theorem can_release [Nonempty V] (reaches : (new policy source).Reaches run) {id : CallId}
    (held : run.entry.holder = some id) :
    ∃ later, run.Reaches later ∧ later.entry.holder = none ∧
      ∀ other, other ≠ id → later.calls other = run.calls other := by
  obtain ⟨⟨request, phase⟩, running⟩ := (disciplined_of_new reaches).owned id held
  have locked := ((disciplined_of_new reaches).locked _ _ _ running).mpr held
  -- on the distance to the unlock; the call waits for nobody but its updater, which may return
  generalize distance : remaining phase = n
  induction n using Nat.strongRecOn generalizing run phase with
  | ind n ih =>
      have onward {event : Event V C E} {next : Run V C E} (step : Step run event next)
          (mine : event.id = id) {after : Phase V E} (moved : next.calls id = some ⟨request, after⟩)
          (closer : remaining after < n) (still : holds request after = true ∨ next.entry.holder = none) :
          ∃ later, run.Reaches later ∧ later.entry.holder = none ∧
            ∀ other, other ≠ id → later.calls other = run.calls other := by
        have reached := reaches.step step
        have first : run.Reaches next := (Reaches.refl run).step step
        rcases still with holding | free
        · have owner := ((disciplined_of_new reached).locked _ _ _ moved).mp holding
          obtain ⟨later, second, free, others⟩ := ih _ closer reached owner after moved holding rfl
          refine ⟨later, first.trans second, free, ?_⟩
          intro other different
          rw [others other different, step.other (mine ▸ different)]
        · exact ⟨next, first, free, fun other different => step.other (mine ▸ different)⟩
      by_cases waiting : phase = .updating
      · subst waiting
        cases request with
        | lookup q =>
            obtain ⟨v⟩ := ‹Nonempty V›
            have unlocked : q.isUnlocked = false := by simpa [holds] using locked
            have step : Step run (.returned id (.ok v)) _ := .returned running
            refine onward step rfl (Function.update_self ..) ?_ (.inl ?_)
            · simp [Call.resumed, unlocked, remaining, ← distance]
            · simp [Call.resumed, unlocked, holds]
        | store | expire | read => simp [holds] at locked
      · obtain ⟨after, next, advance⟩ := advance_of_holds locked waiting id 0 run.entry
        obtain ⟨closer, still⟩ := remaining_of_holds
          ((disciplined_of_new reaches).fits _ _ _ running) locked advance
        exact onward (.stepped running advance) rfl (Function.update_self ..) (distance ▸ closer) still

theorem can_publish [Nonempty V] (reaches : (new policy source).Reaches run) {id : CallId} {q : Query C}
    {phase : Phase V E} (running : run.calls id = some ⟨.lookup q, phase⟩)
    (inFlight : isInFlight phase = true) :
    ∃ later, run.Reaches later ∧ slotWriter later.log = some id ∧ later.entry.stamp ≠ neverPublished := by
  generalize distance : remaining phase = n
  induction n using Nat.strongRecOn generalizing run phase with
  | ind n ih =>
      have onward {event : Event V C E} {next : Run V C E} (step : Step run event next) {after : Phase V E}
          (moved : next.calls id = some ⟨.lookup q, after⟩) (closer : remaining after < n)
          (still : isInFlight after = true) :
          ∃ later, run.Reaches later ∧ slotWriter later.log = some id ∧
            later.entry.stamp ≠ neverPublished := by
        obtain ⟨later, reached, published⟩ := ih _ closer (reaches.step step) moved still rfl
        exact ⟨later, ((Reaches.refl run).step step).trans reached, published⟩
      cases phase with
      | updating =>
          obtain ⟨v⟩ := ‹Nonempty V›
          have step : Step run (.returned id (.ok v)) _ := .returned running
          refine onward step (Function.update_self ..) ?_ ?_ <;>
            cases unlocked : q.isUnlocked <;> simp [Call.resumed, unlocked, isInFlight, remaining, ← distance]
      | tryPublish v =>
          -- whoever has the lock goes first, or the value would not be published
          have freed : ∃ later, run.Reaches later ∧ later.entry.holder = none ∧
              later.calls id = some ⟨.lookup q, .tryPublish v⟩ := by
            cases held : run.entry.holder with
            | none => exact ⟨run, .refl run, held, running⟩
            | some other =>
                obtain ⟨later, reached, free, others⟩ := can_release reaches held
                refine ⟨later, reached, free, (others id ?_).trans running⟩
                rintro rfl
                have locked := ((disciplined_of_new reaches).locked _ _ _ running).mpr held
                simp [holds] at locked
          obtain ⟨later, reached, free, waiting⟩ := freed
          have step : Step later (.stepped id 0 _ _ _) _ := .stepped waiting (.publishFree free)
          obtain ⟨last, rest, published⟩ := ih 5 (by simp [← distance, remaining])
            ((reaches.trans reached).step step) (Function.update_self ..) rfl rfl
          exact ⟨last, reached.trans (((Reaches.refl later).step step).trans rest), published⟩
      | writeSlot v =>
          have step : Step run (.stepped id 0 _ _ _) _ := .stepped running .writeSlot
          exact onward step (Function.update_self ..) (by simp [← distance, remaining]) rfl
      | writeFlag v =>
          have step : Step run (.stepped id 0 _ _ _) _ := .stepped running .writeFlag
          exact onward step (Function.update_self ..) (by simp [← distance, remaining]) rfl
      | readClock v =>
          have step : Step run (.stepped id 0 _ _ _) _ := .stepped running .readClock
          exact onward step (Function.update_self ..) (by simp [← distance, remaining]) rfl
      | writeStamp v stamp =>
          have step : Step run (.stepped id 0 _ _ _) _ := .stepped running .writeStamp
          refine ⟨_, (Reaches.refl run).step step, ?_, ?_⟩
          · rw [step.log, slotWriter_cons]
            exact slotWriter_of_publishing reaches running rfl
          · have positive := ((disciplined_of_new reaches).outline _ _ _ running).2.2
            simp only [put, neverPublished]
            omega
      | _ => simp [isInFlight] at inFlight

theorem can_answer (reaches : (new .timed source).Reaches run) (stamped : run.entry.stamp ≠ neverPublished)
    {id : CallId} (unused : run.calls id = none) {q : Query C} (negative : q.timeout < 0) :
    ∃ later v, run.Reaches later ∧ later.calls id = some ⟨.lookup q, .done (.answered v .fresh)⟩ ∧
      origin id later.log = slotWriter run.log := by
  have sound := (disciplined_of_new reaches).sound
  have up := sound.stamped stamped
  obtain ⟨v, held⟩ := Option.ne_none_iff_exists'.mp (sound.filled up)
  have unpinned : run.entry.policy.isPinned v q.context = false := by
    rw [policy_fixed reaches]
    rfl
  have locked : q.isUnlocked = false := by
    simp only [Query.isUnlocked, Timeout.never, beq_eq_false_iff_ne]
    omega
  obtain ⟨begun, first, sameBegun, loading, logBegun⟩ : ∃ begun, run.Reaches begun ∧
      begun.entry = run.entry ∧ begun.calls id = some ⟨.lookup q, .loadStamp⟩ ∧
      begun.log = .began id (.lookup q) :: run.log :=
    ⟨_, (Reaches.refl run).step (.began unused), rfl, by simp [put, Call.start, locked], rfl⟩
  obtain ⟨loaded, second, sameLoaded, flagging, logLoaded⟩ := can_step loading 0 .loadStamp
  obtain ⟨flagged, third, sameFlagged, reading, logFlagged⟩ := can_step flagging 0
    (.flagUp rfl (by rw [sameLoaded, sameBegun, up]))
  have same : flagged.entry = run.entry := by rw [sameFlagged, sameLoaded, sameBegun]
  obtain ⟨later, last, _, answered, logged⟩ := can_step reading 0
    (.forever rfl (by rw [same, held]) (by rw [same, unpinned]) (by rw [sameBegun]; exact stamped) negative)
  refine ⟨later, v, ((first.trans second).trans third).trans last, answered, ?_⟩
  simp [logged, logFlagged, logLoaded, logBegun, origin, Event.takes, slotWriter_cons, Event.writer?]

def CanGoOn (run : Run V C E) (id : CallId) : Prop :=
  (∀ now, ∃ next, run.next? (.step id now) = some next) ∨
    ∀ outcome, ∃ next, run.next? (.resume id outcome) = some next

theorem canGoOn_of_advance {id : CallId} {request : Request V C} {phase : Phase V E}
    (running : run.calls id = some ⟨request, phase⟩)
    (advances : ∀ now, ∃ after next, Call.advance id now request run.entry phase = some (after, next)) :
    run.CanGoOn id := by
  refine .inl ?_
  intro now
  obtain ⟨after, next, advances⟩ := advances now
  simp [next?, running, Call.step, advances]

theorem canGoOn_of_updating {id : CallId} {q : Query C} (running : run.calls id = some ⟨.lookup q, .updating⟩) :
    run.CanGoOn id := by
  refine .inr ?_
  intro outcome
  simp [next?, running, Call.resume]

theorem canGoOn_of_free (reaches : (new policy source).Reaches run) {id : CallId} {request : Request V C}
    {phase : Phase V E} (running : run.calls id = some ⟨request, phase⟩)
    (free : waitsForLock phase = true → run.entry.holder = none) (unended : ∀ reply, phase ≠ .done reply) :
    run.CanGoOn id := by
  have fits := (disciplined_of_new reaches).fits _ _ _ running
  by_cases calling : phase = .updating
  · subst calling
    cases request with
    | lookup q => exact canGoOn_of_updating running
    | store | expire | read => simp [Fits, Call.StoreFits] at fits
  · exact canGoOn_of_advance running fun now => advance_of_fits fits id now run.entry free calling unended

theorem goes_on (reaches : (new policy source).Reaches run) {id : CallId} {request : Request V C}
    {phase : Phase V E} (running : run.calls id = some ⟨request, phase⟩)
    (unended : ∀ reply, phase ≠ .done reply) :
    ∃ other, (other = id ∨ run.entry.holder = some other) ∧ run.CanGoOn other := by
  have disciplined := disciplined_of_new reaches
  by_cases waits : waitsForLock phase = true ∧ run.entry.holder ≠ none
  · obtain ⟨other, held⟩ := Option.ne_none_iff_exists'.mp waits.2
    obtain ⟨⟨asked, current⟩, moving⟩ := disciplined.owned other held
    have locked := (disciplined.locked _ _ _ moving).mpr held
    refine ⟨other, .inr held, ?_⟩
    by_cases calling : current = .updating
    · subst calling
      cases asked with
      | lookup q => exact canGoOn_of_updating moving
      | store | expire | read => simp [holds] at locked
    · apply canGoOn_of_advance moving
      intro now
      obtain ⟨after, next, advance⟩ := advance_of_holds locked calling other now run.entry
      exact ⟨after, next, Call.advance_of_case advance⟩
  · have free (queued : waitsForLock phase = true) : run.entry.holder = none := by
      by_contra taken
      exact waits ⟨queued, taken⟩
    exact ⟨id, .inl rfl, canGoOn_of_free reaches running free unended⟩

theorem eventsOf_unused (reaches : (new policy source).Reaches run) {id : CallId} (unused : run.calls id = none) :
    eventsOf id run.log = 0 := by
  apply List.countP_eq_zero.mpr
  intro event member mine
  have same : event.id = id := by simpa using mine
  exact silent reaches event member (same ▸ unused)

/-- Beginning and the return of the updater among them, no call comes to more than 21 events. -/
theorem steps_bounded (reaches : (new policy source).Reaches run) {id : CallId} {request : Request V C}
    {phase : Phase V E} (running : run.calls id = some ⟨request, phase⟩) :
    eventsOf id run.log + distance phase ≤ 21 := by
  refine reaches.each (P := fun run id _ phase => eventsOf id run.log + distance phase ≤ 21)
    (by simp [new, start]) ?_ ?_ ?_ ?_ running
  · intro run id request reached unused
    have nothing : eventsOf id run.log = 0 := eventsOf_unused reached unused
    have bound := distance_start_le (E := E) request
    have more : eventsOf id (.began id request :: run.log) = eventsOf id run.log + 1 :=
      eventsOf_own rfl run.log
    simp only [put]
    omega
  · intro run id now request phase entry next _ _ advance bound
    have closer := distance_lt advance
    have more : eventsOf id (.stepped id now run.entry phase next :: run.log) = eventsOf id run.log + 1 :=
      eventsOf_own rfl run.log
    simp only [put]
    omega
  · intro run id q outcome _ _ bound
    have closer := distance_resumed_lt q outcome
    have whole : distance (.updating : Phase V E) = 7 := rfl
    have more : eventsOf id (.returned id outcome :: run.log) = eventsOf id run.log + 1 :=
      eventsOf_own rfl run.log
    simp only [put]
    omega
  · intro run event next other request phase _ step different _ bound
    rw [step.log, eventsOf_other different]
    exact bound

end Run

end ViewCache.Entry
