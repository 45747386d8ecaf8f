import ViewCache.Proofs.Entry.Outcome
import ViewCache.Proofs.Entry.Timeline

/-!
Lookups that have found no fresh value and queue for the lock while nobody else changes the entry. Such a wave
is pending until one of their updaters succeeds, and settled once that value is published.
-/
namespace ViewCache.Entry

variable {V C E : Type}

def Event.contends (id : CallId) : Event V C E → Bool
  | .stepped me _ _ _ (.lock _) => me == id
  | _ => false

def Contended (id : CallId) (log : List (Event V C E)) : Prop := ∃ event ∈ log, event.contends id = true

instance (id : CallId) (log : List (Event V C E)) : Decidable (Contended id log) := List.decidableBEx _ log

def Gathered (members : CallId → Prop) (event : Event V C E) (older : List (Event V C E)) : Prop :=
  event.publish?.isSome = true → ∀ id, members id → Contended id older

instance (ids : List CallId) (event : Event V C E) (older : List (Event V C E)) :
    Decidable (Gathered (· ∈ ids) event older) :=
  inferInstanceAs (Decidable (event.publish?.isSome = true → ∀ id ∈ ids, Contended id older))

def Unsuccessful (members : CallId → Prop) (log : List (Event V C E)) : Prop :=
  ∀ id v, members id → .returned id (.ok v) ∉ log

structure Success (members : CallId → Prop) (winner : CallId) (v : V) (log : List (Event V C E)) : Prop where
  member : members winner
  returned : .returned winner (.ok v) ∈ log
  only : ∀ id w, members id → .returned id (.ok w) ∈ log → id = winner ∧ w = v

/-- The clock was seen past the timestamp, if that is one. -/
def Passed (stamp : Int) (log : List (Event V C E)) : Prop :=
  stamp = neverPublished ∨ ∃ reading ∈ readings log, stamp < reading

def isQueued : Phase V E → Bool
  | .lock _ | .recheckFlag _ | .recheckStamp _ | .coalesceFlag | .coalesceSlot | .callUpdater | .updating
  | .tryPublish _ | .writeSlot _ | .writeFlag _ | .readClock _ | .writeStamp .. | .unlock _ => true
  | .done (.answered _ .computed) | .done (.answered _ .coalesced) | .done (.failed _) => true
  | _ => false

def isSettled : Phase V E → Bool
  | .lock _ | .recheckFlag _ | .recheckStamp _ | .coalesceFlag | .coalesceSlot | .unlock (.answered ..)
  | .done _ => true
  | _ => false

/-- What a member knows of the timestamp that it has found. -/
def Poised (stamp : Int) (log : List (Event V C E)) : Phase V E → Prop
  | .loadFlag snapshot | .readSlot snapshot | .checkAge snapshot _ => snapshot = stamp
  | .lock snapshot | .recheckFlag snapshot | .recheckStamp snapshot => snapshot = stamp ∧ Passed stamp log
  | .callUpdater | .updating | .writeSlot _ | .writeFlag _ | .readClock _ => Passed stamp log
  | .writeStamp _ next => next ≠ stamp
  | _ => True

theorem Passed.later {stamp : Int} {log : List (Event V C E)} (passed : Passed stamp log)
    (event : Event V C E) : Passed stamp (event :: log) := by
  refine passed.imp_right ?_
  rintro ⟨reading, member, past⟩
  refine ⟨reading, ?_, past⟩
  rw [readings_cons]
  exact List.mem_append_right _ member

theorem Poised.later {stamp : Int} {log : List (Event V C E)} {phase : Phase V E}
    (poised : Poised stamp log phase) (event : Event V C E) : Poised stamp (event :: log) phase := by
  cases phase with
  | lock | recheckFlag | recheckStamp => exact ⟨poised.1, poised.2.later event⟩
  | callUpdater | updating | writeSlot | writeFlag | readClock => exact Passed.later poised event
  | _ => exact poised

theorem Unsuccessful.cons {members : CallId → Prop} {log : List (Event V C E)} {event : Event V C E}
    (nobody : Unsuccessful members log) (idle : ∀ id v, members id → event ≠ .returned id (.ok v)) :
    Unsuccessful members (event :: log) := by
  intro id v member returned
  rcases List.mem_cons.mp returned with now | earlier
  · exact idle id v member now.symm
  · exact nobody id v member earlier

theorem Success.cons {members : CallId → Prop} {winner : CallId} {v : V} {log : List (Event V C E)}
    {event : Event V C E} (success : Success members winner v log)
    (idle : ∀ id v, members id → event ≠ .returned id (.ok v)) : Success members winner v (event :: log) := by
  refine ⟨success.member, List.mem_cons_of_mem event success.returned, ?_⟩
  intro id w member returned
  rcases List.mem_cons.mp returned with now | earlier
  · exact absurd now.symm (idle id w member)
  · exact success.only id w member earlier

theorem Unsuccessful.first {members : CallId → Prop} {log : List (Event V C E)} {id : CallId} {v : V}
    (nobody : Unsuccessful members log) (member : members id) :
    Success members id v (.returned id (.ok v) :: log) := by
  refine ⟨member, List.mem_cons_self, ?_⟩
  intro other w also returned
  rcases List.mem_cons.mp returned with now | earlier
  · cases now
    exact ⟨rfl, rfl⟩
  · exact absurd earlier (nobody other w also)

theorem queued_resumed (q : Query C) (outcome : Except E V) : isQueued (Call.resumed q outcome) = true := by
  cases outcome <;> cases unlocked : q.isUnlocked <;> simp [Call.resumed, unlocked, isQueued]

theorem settled_of_queued {q : Query C} {phase : Phase V E} (queued : isQueued phase = true)
    (locked : q.isUnlocked = false) (fits : Call.Fits (.lookup q : Request V C) phase)
    (waiting : Call.holds (.lookup q : Request V C) phase = false) : isSettled phase = true := by
  cases phase <;> simp_all [isQueued, isSettled, Call.holds, Call.Fits, Call.LookupFits]

theorem idle_of_settled {phase : Phase V E} (settled : isSettled phase = true) (id : CallId) (now : Int)
    (seen : Entry V C) (next : Phase V E) :
    (Event.stepped id now seen phase next : Event V C E).changes = false := by
  cases phase <;> first | rfl | simp [isSettled] at settled

end ViewCache.Entry

namespace ViewCache.Call

open Entry

variable {V C E : Type} {me : CallId} {now : Int} {q : Query C} {entry after : Entry V C} {phase next : Phase V E}

theorem Advance.queued_next (advance : Advance me now (.lookup q) entry phase after next)
    (fits : Fits (.lookup q : Request V C) phase) (queued : isQueued phase = true) : isQueued next = true := by
  cases advance with
  | writeStamp => rfl
  | @unlock reply =>
      have underLock := isUnderLock_of_unlock fits
      cases reply with
      | answered v how => cases how <;> simp_all [isUnderLock, isQueued]
      | failed => rfl
      | stored | expired | found => simp [Fits, LookupFits, ReplyFits] at fits
  | _ => simp_all [isQueued]

/-- A lookup that waits rather than take a stale value queues only if the timestamp that it has loaded says
nothing, or was passed. -/
theorem Advance.poised_next {log : List (Event V C E)} {stamp : Int}
    (advance : Advance me now (.lookup q) entry phase after next) (fits : Fits (.lookup q : Request V C) phase)
    (outline : Outline entry phase) (sound : entry.Sound) (locked : q.isUnlocked = false)
    (impatient : q.tolerant = false) (loads : phase = .loadStamp → entry.stamp = stamp)
    (elapses : ∀ snapshot v, phase = .checkAge snapshot v → 0 < q.timeout)
    (steady : Steady (.stepped me now entry phase next :: log)) (poised : Poised stamp log phase) :
    Poised stamp (.stepped me now entry phase next :: log) next := by
  have queues {asked : Query C} (same : (.lookup q : Request V C) = .lookup asked) (snapshot : Int) :
      (contend asked snapshot : Phase V E) = .lock snapshot := by
    cases same
    simp [contend, impatient]
  cases advance with
  | loadStamp => exact loads rfl
  | flagUp | aging => exact poised
  | @flagDown _ snapshot lookup down =>
      rw [queues lookup]
      refine ⟨poised, .inl ?_⟩
      by_contra stamped
      have up := outline (poised.symm ▸ stamped)
      simp [down] at up
  | slotEmpty _ empty => exact absurd empty (sound.filled outline)
  | unstamped lookup _ _ zero =>
      rw [queues lookup]
      exact ⟨poised, .inl (poised.symm.trans zero)⟩
  | @old _ snapshot v lookup elapsed =>
      have positive := elapses snapshot v rfl
      have same : snapshot = stamp := poised
      cases lookup
      rw [queues rfl]
      refine ⟨same, .inr ⟨now, ?_, ?_⟩⟩
      · simp [readings_cons, Event.reading?]
      · omega
  | tryFree | tryBusy | staleUp | staleDown | staleTaken | staleEmpty =>
      have tolerant : q.tolerant = true := fits.2
      simp [impatient] at tolerant
  | locked | recheckUp => exact ⟨poised.1, poised.2.later _⟩
  | recheckDown | unrefreshed => exact poised.2.later _
  | coalesceDown down =>
      simp only [Outline, down] at outline
      cases outline
  | coalesceEmpty empty => exact absurd empty (sound.filled outline)
  | callUpdater | writeSlot | writeFlag => exact Passed.later poised _
  | publishFree =>
      have unlocked : q.isUnlocked = true := fits
      simp [locked] at unlocked
  | storeLocked store => cases store
  | readClock =>
      -- the clock has not gone back since it was seen past the timestamp
      rw [Steady, readings_cons] at steady
      have latest := (List.pairwise_cons.mp steady).1
      show Entry.stampAt now ≠ stamp
      rcases poised with zero | ⟨reading, member, past⟩
      · simp only [Entry.stampAt, zero, neverPublished]
        omega
      · have late := latest reading member
        simp only [Entry.stampAt]
        omega
  | _ => trivial

/-- Once a publish is found that is newer than its snapshot, a settled lookup stays settled. -/
theorem Advance.settled_next {log : List (Event V C E)} {stamp : Int}
    (advance : Advance me now (.lookup q) entry phase after next) (up : entry.initialized = true)
    (filled : entry.slot ≠ none) (stamped : entry.stamp ≠ neverPublished) (moved : entry.stamp ≠ stamp)
    (poised : Poised stamp log phase) (settled : isSettled phase = true) : isSettled next = true := by
  cases advance with
  | recheckDown down | coalesceDown down => simp [up] at down
  | unrefreshed same =>
      have snapshot := poised.1
      rcases same with same | zero
      · exact absurd (same.symm.trans snapshot) moved
      · exact absurd zero stamped
  | coalesceEmpty empty => exact absurd empty filled
  | _ => simp_all [isSettled]

end ViewCache.Call

namespace ViewCache.Entry.Run

open Call (Advance holds Fits Outline)

variable {V C E : Type} {policy : RefreshPolicy V C} {source : TimeSource} {first run next : Run V C E}
  {members : CallId → Prop}

def news (first run : Run V C E) : List (Event V C E) := run.log.take (run.log.length - first.log.length)

/-- The members are lookups that wait for the lock rather than take a stale value. From before they load their
snapshots nobody else changes the entry, the clock does not go back, and nothing is published before all of
them have found no fresh value. -/
structure Wave (members : CallId → Prop) (first run : Run V C E) : Prop where
  unloaded : ∀ id call, members id → first.calls id = some call → call.phase = .loadStamp
  asked : ∀ id request, members id → .began id request ∈ run.log →
    ∃ q, request = .lookup q ∧ q.timeout ≠ 0 ∧ q.tolerant = false
  quiet : ∀ event ∈ news first run, event.changes = true → members event.id
  steady : Steady (news first run)
  gathered : Always (Gathered members) (news first run)

inductive Stage (members : CallId → Prop) (first run : Run V C E) : Prop
  | pending (nobody : Unsuccessful members run.log) (same : run.entry.cells = first.entry.cells)
  | publishing (winner : CallId) (v : V) (request : Request V C) (phase : Phase V E)
      (success : Success members winner v run.log) (running : run.calls winner = some ⟨request, phase⟩)
      (writing : publishing? phase = some v) (same : run.entry.stamp = first.entry.stamp)
  | settled (winner : CallId) (v : V) (success : Success members winner v run.log)
      (held : run.entry.slot = some v) (up : run.entry.initialized = true)
      (stamped : run.entry.stamp ≠ neverPublished) (moved : run.entry.stamp ≠ first.entry.stamp)
      (others : ∀ id, members id → ∃ request phase, run.calls id = some ⟨request, phase⟩ ∧ isSettled phase = true)

def AllPoised (members : CallId → Prop) (first run : Run V C E) : Prop :=
  ∀ id request phase, members id → run.calls id = some ⟨request, phase⟩ →
    Poised first.entry.stamp (news first run) phase

theorem log_length_le (reaches : first.Reaches run) : first.log.length ≤ run.log.length := by
  refine reaches.rule (P := fun run => first.log.length ≤ run.log.length) (Nat.le_refl _) ?_
  intro run event next _ known step
  rw [step.log, List.length_cons]
  omega

theorem news_step {event : Event V C E} (reaches : first.Reaches run) (step : Step run event next) :
    news first next = event :: news first run := by
  have longer := log_length_le reaches
  rw [news, news, step.log, List.length_cons, Nat.succ_sub longer, List.take_succ_cons]

theorem contended_of_news {id : CallId} (contended : Contended id (news first run)) : Contended id run.log := by
  obtain ⟨event, member, contends⟩ := contended
  exact ⟨event, List.mem_of_mem_take member, contends⟩

theorem Wave.of_step {event : Event V C E} (wave : Wave members first next) (reaches : first.Reaches run)
    (step : Step run event next) : Wave members first run := by
  obtain ⟨unloaded, asked, quiet, steady, gathered⟩ := wave
  rw [news_step reaches step] at quiet steady gathered
  rw [step.log] at asked
  refine ⟨unloaded, ?_, ?_, steady_of_cons steady, gathered.of_cons.2⟩
  · intro id request member began
    exact asked id request member (List.mem_cons_of_mem event began)
  · intro earlier member
    exact quiet earlier (List.mem_cons_of_mem event member)

theorem queued_of_contended (reaches : (new policy source).Reaches run) {id : CallId}
    (contended : Contended id run.log) :
    ∃ q phase, run.calls id = some ⟨.lookup q, phase⟩ ∧ isQueued phase = true := by
  revert contended
  refine reaches.rule (P := fun run => Contended id run.log →
    ∃ q phase, run.calls id = some ⟨.lookup q, phase⟩ ∧ isQueued phase = true) (by simp [new, start, Contended]) ?_
  intro run event next reached known step contended
  rw [step.log] at contended
  obtain ⟨found, member, contends⟩ := contended
  rcases List.mem_cons.mp member with rfl | earlier
  · have disciplined := disciplined_of_new (reached.step step)
    cases step with
    | began | returned => cases contends
    | @stepped me now request phase entry after running advance =>
        cases after with
        | lock snapshot =>
            have mine : me = id := by simpa [Event.contends] using contends
            subst mine
            have moved : (run.put me ⟨request, .lock snapshot⟩ entry
                (.stepped me now run.entry phase (.lock snapshot))).calls me = some ⟨request, .lock snapshot⟩ :=
              Function.update_self ..
            have fits := disciplined.fits _ _ _ moved
            cases request with
            | lookup q => exact ⟨q, _, moved, rfl⟩
            | store | expire | read => simp [Fits, Call.StoreFits] at fits
        | _ => cases contends
  · obtain ⟨q, phase, running, queued⟩ := known ⟨found, earlier, contends⟩
    rcases step.of_running running with ⟨_, still⟩ | ⟨_, _, after, advance, _, moved⟩ |
      ⟨asked, outcome, _, _, _, resumed⟩
    · exact ⟨q, phase, still, queued⟩
    · exact ⟨q, after, moved, advance.queued_next ((disciplined_of_new reached).fits _ _ _ running) queued⟩
    · exact ⟨asked, _, resumed, queued_resumed asked outcome⟩

theorem Wave.lookup (wave : Wave members first run) (reaches : (new policy source).Reaches run) {id : CallId}
    (member : members id) {request : Request V C} {phase : Phase V E}
    (running : run.calls id = some ⟨request, phase⟩) :
    ∃ q, request = .lookup q ∧ q.isUnlocked = false ∧ q.tolerant = false := by
  obtain ⟨q, lookup, nonzero, impatient⟩ := wave.asked id request member (began_of_running reaches running)
  exact ⟨q, lookup, by simpa [Query.isUnlocked, Timeout.never] using nonzero, impatient⟩

theorem Wave.unsuccessful (wave : Wave members first first) (early : (new policy source).Reaches first) :
    Unsuccessful members first.log := by
  intro id v member returned
  obtain ⟨q, phase, running, come⟩ := outcome_of_returned early returned
  have loading : phase = .loadStamp := wave.unloaded id _ member running
  subst loading
  cases come

theorem Stage.idle {event : Event V C E} (stage : Stage members first run) (step : Step run event next)
    (other : ¬ members event.id) (same : next.entry.cells = run.entry.cells) : Stage members first next := by
  have silent : ∀ id v, members id → event ≠ .returned id (.ok v) := by
    rintro id v member rfl
    exact other member
  have kept (id : CallId) (member : members id) : next.calls id = run.calls id := by
    apply step.other
    rintro rfl
    exact other member
  obtain ⟨slot, flag, stamp⟩ := cells_eq.mp same
  cases stage with
  | pending nobody unchanged => exact .pending (step.log ▸ nobody.cons silent) (same.trans unchanged)
  | publishing winner v request phase success running writing unmoved =>
      exact .publishing winner v request phase (step.log ▸ success.cons silent)
        ((kept winner success.member).trans running) writing (stamp.trans unmoved)
  | settled winner v success held up stamped moved others =>
      refine .settled winner v (step.log ▸ success.cons silent) (slot.trans held) (flag.trans up) (stamp ▸ stamped)
        (stamp ▸ moved) ?_
      intro id member
      rw [kept id member]
      exact others id member

/-- When a publish completes, the other members are in the queue or done. -/
theorem Stage.completed (early : (new policy source).Reaches first) (reaches : first.Reaches run)
    (wave : Wave members first next) {winner : CallId} {v : V} {now stamp : Int} {seen : Entry V C}
    {after : Phase V E} (success : Success members winner v run.log) (moved : stamp ≠ first.entry.stamp)
    (step : Step run (.stepped winner now seen (.writeStamp v stamp) after) next) : Stage members first next := by
  have before := wave.of_step reaches step
  have whole := early.trans reaches
  have disciplined := disciplined_of_new whole
  have gathered := wave.gathered [] _ (news first run) (news_step reaches step) rfl
  cases step with
  | @stepped _ _ request _ _ _ running advance =>
      cases advance
      obtain ⟨held, up, positive⟩ := disciplined.outline _ _ _ running
      refine .settled winner v (success.cons (by simp)) held up ?_ moved ?_
      · simp only [put, neverPublished]
        omega
      · intro id member
        by_cases same : id = winner
        · subst same
          obtain ⟨q, rfl, _⟩ := before.lookup whole member running
          exact ⟨_, _, Function.update_self .., rfl⟩
        · obtain ⟨q, phase, waiting, queued⟩ := queued_of_contended whole (contended_of_news (gathered id member))
          obtain ⟨_, lookup, locked, _⟩ := before.lookup whole member waiting
          cases lookup
          have unheld : holds (.lookup q : Request V C) phase = false := by
            by_contra owns
            exact same (disciplined.alone waiting (by simpa using owns) running rfl)
          exact ⟨_, phase, (Function.update_of_ne same ..).trans waiting,
            settled_of_queued queued locked (disciplined.fits _ _ _ waiting) unheld⟩

section

variable {event : Event V C E}

theorem Stage.of_pending (reaches : (new policy source).Reaches run) (before : Wave members first run)
    (nobody : Unsuccessful members run.log) (same : run.entry.cells = first.entry.cells)
    (step : Step run event next) (member : members event.id) : Stage members first next := by
  cases step with
  | began unused => exact .pending (nobody.cons (by simp)) same
  | @returned id q outcome moving =>
      obtain ⟨_, lookup, locked, _⟩ := before.lookup reaches member moving
      cases lookup
      cases outcome with
      | error cause => exact .pending (nobody.cons (by simp)) same
      | ok v =>
          refine .publishing id v _ _ (nobody.first member) (Function.update_self ..) ?_ (cells_eq.mp same).2.2
          simp [Call.resumed, locked, publishing?]
  | @stepped id now request phase entry after moving advance =>
      obtain ⟨q, rfl, _⟩ := before.lookup reaches member moving
      have fits := (disciplined_of_new reaches).fits _ _ _ moving
      have idle : (Event.stepped id now run.entry phase after : Event V C E).changes = false := by
        by_contra changes
        obtain ⟨v, writing⟩ := advance.publishing_of_changes fits (by simpa using changes)
        exact nobody id v member (returned_of_outcome reaches moving (outcome_of_publishing writing))
      exact .pending (nobody.cons (by simp)) ((advance.cells_of_idle idle).trans same)

theorem Wave.silent_of_holds (before : Wave members first run) (reaches : (new policy source).Reaches run)
    {holder : CallId} {request : Request V C} {phase : Phase V E}
    (running : run.calls holder = some ⟨request, phase⟩) (locked : holds request phase = true)
    (step : Step run event next) (different : holder ≠ event.id) :
    ∀ id v, members id → event ≠ .returned id (.ok v) := by
  rintro id v member rfl
  cases step with
  | returned moving =>
      obtain ⟨_, lookup, waits, _⟩ := before.lookup reaches member moving
      cases lookup
      exact different ((disciplined_of_new reaches).alone running locked moving (by simp [holds, waits]))

theorem Stage.of_publishing (early : (new policy source).Reaches first) (reaches : first.Reaches run)
    (wave : Wave members first next) {winner : CallId} {v : V} {request : Request V C} {phase : Phase V E}
    (success : Success members winner v run.log) (running : run.calls winner = some ⟨request, phase⟩)
    (writing : publishing? phase = some v) (same : run.entry.stamp = first.entry.stamp)
    (poised : Poised first.entry.stamp (news first run) phase) (step : Step run event next)
    (member : members event.id) : Stage members first next := by
  have whole := early.trans reaches
  have before := wave.of_step reaches step
  by_cases mine : winner = event.id
  · cases step with
    | @began id asked unused =>
        have turn : winner = id := mine
        simp [turn, unused] at running
    | @returned id q outcome moving =>
        have turn : winner = id := mine
        rw [turn, moving] at running
        cases running
        cases writing
    | @stepped id now _ _ _ _ moving advance =>
        have turn : winner = id := mine
        subst turn
        rw [moving] at running
        cases running
        cases advance with
        | writeStamp =>
            cases writing
            exact .completed early reaches wave success poised (.stepped moving .writeStamp)
        | writeSlot | writeFlag | readClock =>
            exact .publishing winner v _ _ (success.cons (by simp)) (Function.update_self ..) writing same
        | _ => cases writing
  · have locked : holds request phase = true := holds_of_publishing? writing
    have silent := before.silent_of_holds whole running locked step mine
    have idle : event.changes = false := by
      cases step with
      | began | returned => rfl
      | stepped moving advance =>
          obtain ⟨q, rfl, _⟩ := before.lookup whole member moving
          have disciplined := disciplined_of_new whole
          have fits := disciplined.fits _ _ _ moving
          -- only with the lock is there anything to write
          by_contra changes
          obtain ⟨w, publishes⟩ := advance.publishing_of_changes fits (by simpa using changes)
          exact mine (disciplined.alone running locked moving (holds_of_publishing? publishes))
    exact .publishing winner v request phase (step.log ▸ success.cons silent)
      ((step.other mine).trans running) writing ((cells_eq.mp (step.cells idle)).2.2.trans same)

theorem Stage.of_settled (reaches : (new policy source).Reaches run) (before : Wave members first run)
    {winner : CallId} {v : V} (success : Success members winner v run.log) (held : run.entry.slot = some v)
    (up : run.entry.initialized = true) (stamped : run.entry.stamp ≠ neverPublished)
    (moved : run.entry.stamp ≠ first.entry.stamp)
    (others : ∀ id, members id → ∃ request phase, run.calls id = some ⟨request, phase⟩ ∧ isSettled phase = true)
    (poised : AllPoised members first run) (step : Step run event next) (member : members event.id) :
    Stage members first next := by
  obtain ⟨request, phase, running, settled⟩ := others event.id member
  obtain ⟨q, rfl, _⟩ := before.lookup reaches member running
  cases step with
  | began unused => simp [Event.id, unused] at running
  | returned moving =>
      rw [Event.id, moving] at running
      cases running
      cases settled
  | @stepped id now _ _ entry after moving advance =>
      rw [Event.id, moving] at running
      cases running
      have idle := idle_of_settled settled id now run.entry after
      obtain ⟨slot, flag, stamp⟩ := cells_eq.mp (advance.cells_of_idle idle)
      refine .settled winner v (success.cons (by simp)) (slot.trans held) (flag.trans up) (stamp ▸ stamped)
        (stamp ▸ moved) ?_
      intro other also
      by_cases mine : other = id
      · subst mine
        exact ⟨_, after, Function.update_self .., advance.settled_next up (by simp [held]) stamped moved
          (poised _ _ _ member moving) settled⟩
      · obtain ⟨asked, current, waiting, still⟩ := others other also
        exact ⟨asked, current, (Function.update_of_ne mine ..).trans waiting, still⟩

theorem Stage.step (stage : Stage members first run) (early : (new policy source).Reaches first)
    (reaches : first.Reaches run) (wave : Wave members first next) (poised : AllPoised members first run)
    (step : Step run event next) : Stage members first next := by
  have before := wave.of_step reaches step
  have whole := early.trans reaches
  by_cases member : members event.id
  · cases stage with
    | pending nobody same => exact .of_pending whole before nobody same step member
    | publishing winner v request phase success running writing same =>
        exact .of_publishing early reaches wave success running writing same
          (poised _ _ _ success.member running) step member
    | settled winner v success held up stamped moved others =>
        exact .of_settled whole before success held up stamped moved others poised step member
  · refine stage.idle step member (step.cells ?_)
    cases changes : event.changes with
    | false => rfl
    | true => exact absurd (wave.quiet event (by simp [news_step reaches step]) changes) member

end

theorem Stage.unmoved (stage : Stage members first run) {id : CallId} (member : members id)
    {request : Request V C} (loading : run.calls id = some ⟨request, .loadStamp⟩) :
    run.entry.stamp = first.entry.stamp := by
  cases stage with
  | pending _ same => exact congrArg (·.2.2) same
  | publishing _ _ _ _ _ _ _ unmoved => exact unmoved
  | settled _ _ _ _ _ _ _ others =>
      obtain ⟨_, _, running, settled⟩ := others id member
      rw [loading] at running
      cases running
      cases settled

theorem Stage.allPoised_step {event : Event V C E} (stage : Stage members first run)
    (early : (new policy source).Reaches first) (reaches : first.Reaches run) (wave : Wave members first next)
    (poised : AllPoised members first run) (step : Step run event next) : AllPoised members first next := by
  have whole := early.trans reaches
  have steady := wave.steady
  intro id request phase member running
  obtain ⟨q, rfl, locked, impatient⟩ := wave.lookup (whole.step step) member running
  rw [news_step reaches step] at steady ⊢
  by_cases mine : id = event.id
  · cases step with
    | @began me asked unused =>
        have same : id = me := mine
        subst same
        have begins := calls_put_self running
        rw [Call.start_request] at begins
        cases begins
        simp [Call.start, locked, Poised]
    | @stepped me now asked current entry after moving advance =>
        have same : id = me := mine
        subst same
        cases calls_put_self running
        have disciplined := disciplined_of_new whole
        -- the member has taken a step of its own
        refine advance.poised_next (disciplined.fits _ _ _ moving) (disciplined.outline _ _ _ moving)
          disciplined.sound locked impatient ?_ ?_ steady (poised _ _ _ member moving)
        · rintro rfl
          exact stage.unmoved member moving
        · rintro snapshot v rfl
          exact timeout_pos_of_checkAge whole moving
    | @returned me asked outcome moving =>
        have same : id = me := mine
        subst same
        cases calls_put_self running
        have passed := poised _ _ _ member moving
        cases outcome with
        | ok v =>
            simp only [Call.resumed, locked]
            exact passed.later _
        | error cause => simp [Call.resumed, locked, Poised]
  · exact (poised id _ phase member ((step.other mine).symm.trans running)).later event

theorem Wave.kept (early : (new policy source).Reaches first) (reaches : first.Reaches run)
    (wave : Wave members first run) : Stage members first run ∧ AllPoised members first run := by
  revert wave
  refine reaches.rule (P := fun run => Wave members first run →
    Stage members first run ∧ AllPoised members first run) ?_ ?_
  · intro wave
    refine ⟨.pending (wave.unsuccessful early) rfl, ?_⟩
    intro id request phase member running
    have loading : phase = .loadStamp := wave.unloaded id _ member running
    subst loading
    trivial
  · intro run event next reached known step wave
    obtain ⟨stage, poised⟩ := known (wave.of_step reached step)
    exact ⟨stage.step early reached wave poised step, stage.allPoised_step early reached wave poised step⟩

end ViewCache.Entry.Run
