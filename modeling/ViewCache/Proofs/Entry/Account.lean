import ViewCache.Proofs.Entry.Discipline
import ViewCache.Proofs.Entry.Log

/-!
How the log accounts for the state of a run: which calls began, whose value is in the slot, what a call
has in hand and where it has it from.
-/
namespace ViewCache.Entry

variable {V C E : Type}

def computed? : Reply V E → Option V
  | .answered v .computed => some v
  | _ => none

def shared? : Reply V E → Option V
  | .answered v .fresh | .answered v .stale | .answered v .coalesced => some v
  | _ => none

@[simp]
theorem shared?_published (request : Request V C) (v : V) :
    shared? (Call.published request v : Reply V E) = none := by
  cases request <;> rfl

def ownValue? : Phase V E → Option V
  | .tryPublish v | .writeSlot v | .writeFlag v | .readClock v | .writeStamp v _ => some v
  | .unlock reply | .done reply => computed? reply
  | _ => none

def takenValue? : Phase V E → Option V
  | .checkAge _ v => some v
  | .unlock reply | .done reply => shared? reply
  | _ => none

def isPublishing : Phase V E → Bool
  | .writeFlag _ | .readClock _ | .writeStamp .. => true
  | _ => false

def snapshot? : Phase V E → Option Int
  | .loadFlag snapshot | .readSlot snapshot | .checkAge snapshot _ | .tryLock snapshot
  | .staleFlag snapshot | .staleSlot snapshot | .lock snapshot | .recheckFlag snapshot
  | .recheckStamp snapshot => some snapshot
  | _ => none

def isUnstarted : Phase V E → Bool
  | .loadStamp | .loadFlag _ | .readSlot _ | .checkAge .. | .tryLock _ | .staleFlag _ | .staleSlot _
  | .lock _ | .recheckFlag _ | .recheckStamp _ | .coalesceFlag | .coalesceSlot | .callUpdater => true
  | .unlock reply | .done reply => (shared? reply).isSome
  | _ => false

def isOver : Phase V E → Bool
  | .unlock _ | .done _ => true
  | _ => false

section

variable {q : Query C} {snapshot : Int}

@[simp]
theorem ownValue?_contend : ownValue? (Call.contend q snapshot : Phase V E) = none := Call.map_contend rfl rfl

@[simp]
theorem takenValue?_contend : takenValue? (Call.contend q snapshot : Phase V E) = none :=
  Call.map_contend rfl rfl

@[simp]
theorem isPublishing_contend : isPublishing (Call.contend q snapshot : Phase V E) = false :=
  Call.map_contend rfl rfl

@[simp]
theorem snapshot?_contend : snapshot? (Call.contend q snapshot : Phase V E) = some snapshot :=
  Call.map_contend rfl rfl

end

theorem inner_of_publishing {phase : Phase V E} (publishing : isPublishing phase = true) :
    Call.isEntry phase = false := by
  cases phase <;> simp [isPublishing] at publishing <;> rfl

theorem inner_of_snapshot {phase : Phase V E} {snapshot : Int} (loaded : snapshot? phase = some snapshot) :
    Call.isEntry phase = false := by
  cases phase <;> simp [snapshot?] at loaded <;> rfl

theorem inner_of_taken {phase : Phase V E} {v : V} (taken : takenValue? phase = some v) :
    Call.isEntry phase = false := by
  cases phase with
  | checkAge => rfl
  | unlock reply | done reply =>
      cases reply with
      | failed => simp [takenValue?, shared?] at taken
      | _ => rfl
  | _ => simp [takenValue?] at taken

open Call (Advance) in
theorem ownValue_of_next {me : CallId} {now : Int} {q : Query C} {entry after : Entry V C}
    {phase next : Phase V E} {v : V} (advance : Advance me now (.lookup q) entry phase after next)
    (own : ownValue? next = some v) :
    ownValue? phase = some v ∧
      ∀ log : List (Event V C E), origin me (.stepped me now entry phase next :: log) = origin me log := by
  cases advance with
  | flagDown | slotEmpty | unstamped | old => simp at own
  | _ => simp_all [ownValue?, computed?, Call.published, origin, Event.takes, Event.computes]

open Call (Advance) in
theorem takenValue_of_next {me : CallId} {now : Int} {request : Request V C} {entry after : Entry V C}
    {phase next : Phase V E} {v : V} (advance : Advance me now request entry phase after next)
    (taken : takenValue? next = some v) :
    (entry.slot = some v ∧
        ∀ log : List (Event V C E), origin me (.stepped me now entry phase next :: log) = slotWriter log) ∨
      (takenValue? phase = some v ∧
        ∀ log : List (Event V C E), origin me (.stepped me now entry phase next :: log) = origin me log) := by
  cases advance with
  | flagDown | slotEmpty | unstamped | old => simp at taken
  | writeStamp => simp [takenValue?] at taken
  | _ => simp_all [takenValue?, shared?, origin, Event.takes, Event.computes]

open Call (Advance) in
theorem snapshot_of_next {me : CallId} {now : Int} {request : Request V C} {entry after : Entry V C}
    {phase next : Phase V E} {snapshot : Int} (advance : Advance me now request entry phase after next)
    (loaded : snapshot? next = some snapshot) :
    after.stamp = entry.stamp ∧ (phase = .loadStamp ∧ snapshot = entry.stamp ∨
      snapshot? phase = some snapshot ∧
        ∀ log : List (Event V C E),
          publishes (since me (.stepped me now entry phase next :: log)) = publishes (since me log)) := by
  cases advance with
  | flagDown | slotEmpty | unstamped | old =>
      rw [snapshot?_contend] at loaded
      simp [snapshot?, loaded, since_cons, publishes_cons, Event.loads, Event.publish?]
  | _ => simp_all [snapshot?, Call.take, since_cons, publishes_cons, Event.loads, Event.publish?]

open Call (Advance) in
theorem unstarted_of_next {me : CallId} {now : Int} {request : Request V C} {entry after : Entry V C}
    {phase next : Phase V E} (advance : Advance me now request entry phase after next)
    (fresh : isUnstarted next = true) :
    isUnstarted phase = true ∧
      (Event.stepped me now entry phase next : Event V C E).starts me = false := by
  cases advance with
  | writeStamp => simp [isUnstarted] at fresh
  | _ => simp_all [isUnstarted, shared?, Event.starts]

namespace Run

open Call (Advance Keeps holds Fits Outline)

variable {policy : RefreshPolicy V C} {source : TimeSource} {run : Run V C E}

theorem silent (reaches : (new policy source).Reaches run) :
    ∀ event ∈ run.log, run.calls event.id ≠ none := by
  refine reaches.rule (P := fun run => ∀ event ∈ run.log, run.calls event.id ≠ none) (by simp [new, start]) ?_
  intro run event next _ silent step found member
  rw [step.log] at member
  by_cases same : found.id = event.id
  · rw [same]
    cases step <;> simp [put, Event.id]
  · rw [step.other same]
    rcases List.mem_cons.mp member with rfl | member
    · exact absurd rfl same
    · exact silent found member

theorem running_of_began (reaches : (new policy source).Reaches run) {id : CallId} {request : Request V C}
    (began : .began id request ∈ run.log) : ∃ phase, run.calls id = some ⟨request, phase⟩ := by
  revert began
  refine reaches.rule (P := fun run => .began id request ∈ run.log →
    ∃ phase, run.calls id = some ⟨request, phase⟩) (by simp [new, start]) ?_
  intro run event next _ running step began
  rw [step.log, List.mem_cons] at began
  rcases began with rfl | began
  · cases step
    exact ⟨_, by simp only [put, Function.update_self]; rw [Call.start_request]⟩
  · obtain ⟨phase, running⟩ := running began
    exact step.running running

theorem began_of_running (reaches : (new policy source).Reaches run) {id : CallId} {request : Request V C}
    {phase : Phase V E} (running : run.calls id = some ⟨request, phase⟩) :
    .began id request ∈ run.log := by
  refine reaches.each (P := fun run id request _ => .began id request ∈ run.log) ?_ ?_ ?_ ?_ ?_ running
  · simp [new, start]
  · intros
    simp [put]
  · intro run id now request phase entry next _ _ _ began
    exact List.mem_cons_of_mem _ began
  · intro run id q outcome _ _ began
    exact List.mem_cons_of_mem _ began
  · intro run event next other request phase _ step _ _ began
    rw [step.log]
    exact List.mem_cons_of_mem _ began

theorem own_value (reaches : (new policy source).Reaches run) {id : CallId} {q : Query C}
    {phase : Phase V E} {v : V} (running : run.calls id = some ⟨.lookup q, phase⟩)
    (own : ownValue? phase = some v) :
    .returned id (.ok v) ∈ run.log ∧ origin id run.log = some id := by
  have holds := reaches.each (P := fun run id request phase => ∀ q v, request = .lookup q →
    ownValue? phase = some v → .returned id (.ok v) ∈ run.log ∧ origin id run.log = some id)
    (by simp [new, start]) ?_ ?_ ?_ ?_ running
  · exact holds q v rfl own
  · intro run id request _ _ q v lookup own
    subst lookup
    cases unlocked : q.isUnlocked <;> simp [Call.start, unlocked, ownValue?] at own
  · intro run id now request phase entry next reached running advance known q v lookup own
    subst lookup
    obtain ⟨before, unread⟩ := ownValue_of_next advance own
    obtain ⟨returned, taken⟩ := known q v rfl before
    exact ⟨List.mem_cons_of_mem _ returned, (unread run.log).trans taken⟩
  · intro run id q outcome _ _ _ q v lookup own
    cases lookup
    cases outcome with
    | error cause => cases unlocked : q.isUnlocked <;> simp [Call.resumed, unlocked, ownValue?, computed?] at own
    | ok w =>
        have same : w = v := by
          cases unlocked : q.isUnlocked <;> simpa [Call.resumed, unlocked, ownValue?] using own
        subst same
        exact ⟨List.mem_cons_self, by simp [put, origin, Event.takes, Event.computes]⟩
  · intro run event next other request phase _ step different _ known q v lookup own
    rw [step.log, origin_of_other different]
    obtain ⟨returned, taken⟩ := known q v lookup own
    exact ⟨List.mem_cons_of_mem _ returned, taken⟩

theorem yields_own (reaches : (new policy source).Reaches run) {id : CallId} {request : Request V C}
    {phase : Phase V E} {v : V} (running : run.calls id = some ⟨request, phase⟩)
    (writes : phase = .writeSlot v ∨ isPublishing phase = true ∧ ownValue? phase = some v) :
    Yields id v run.log := by
  have fits := (disciplined_of_new reaches).fits _ _ _ running
  have own : ownValue? phase = some v := by
    rcases writes with rfl | ⟨_, own⟩
    · rfl
    · exact own
  cases request with
  | lookup q => exact .inl (own_value reaches running own).1
  | store w =>
      have same : w = v := by
        rcases writes with rfl | ⟨publishing, _⟩
        · simpa [Fits, Call.StoreFits, eq_comm] using fits
        · cases phase <;> simp_all [isPublishing, ownValue?, Fits, Call.StoreFits]
      exact .inr (same ▸ began_of_running reaches running)
  | expire =>
      rcases fits with rfl | rfl <;> simp [ownValue?, computed?] at own
  | read =>
      rcases fits with rfl | rfl | ⟨_, rfl⟩ <;> simp [ownValue?, computed?] at own

theorem Step.idle_of_holds {next : Run V C E} {event : Event V C E} (step : Step run event next)
    (reaches : (new policy source).Reaches run) {holder : CallId} {asked : Request V C} {current : Phase V E}
    (running : run.calls holder = some ⟨asked, current⟩) (locked : holds asked current = true)
    (different : holder ≠ event.id) : event.writer? = none ∧ event.publish? = none := by
  cases step with
  | began | returned => exact ⟨rfl, rfl⟩
  | @stepped id now request phase entry after moving advance =>
      have unheld : holds request phase = false := by
        cases owns : holds request phase with
        | false => rfl
        | true => exact absurd ((disciplined_of_new reaches).alone running locked moving owns) different
      cases phase <;> first | exact ⟨rfl, rfl⟩ | simp [holds] at unheld

theorem Step.slot_of_holds {next : Run V C E} {event : Event V C E} (step : Step run event next)
    (reaches : (new policy source).Reaches run) {holder : CallId} {asked : Request V C} {current : Phase V E}
    (running : run.calls holder = some ⟨asked, current⟩) (locked : holds asked current = true)
    (different : holder ≠ event.id) : next.entry.slot = run.entry.slot := by
  have disciplined := disciplined_of_new reaches
  have held := (disciplined.locked _ _ _ running).mp locked
  cases step with
  | began | returned => rfl
  | stepped moving advance =>
      have keeps := advance.keeps (disciplined.locked _ _ _ moving).mp
      exact (keeps.owner holder different held).1

theorem holds_of_publishing {request : Request V C} {phase : Phase V E} (publishing : isPublishing phase = true) :
    holds request phase = true := by
  cases phase <;> first | rfl | simp [isPublishing] at publishing

theorem slotWriter_of_publishing (reaches : (new policy source).Reaches run) {id : CallId}
    {request : Request V C} {phase : Phase V E} (running : run.calls id = some ⟨request, phase⟩)
    (publishing : isPublishing phase = true) : slotWriter run.log = some id := by
  refine reaches.inside (X := fun phase => isPublishing phase = true)
    (P := fun run id _ => slotWriter run.log = some id) rfl inner_of_publishing ?_ ?_ running publishing
  · intro run id now request phase entry next _ _ _ advance known publishing
    cases advance with
    | writeSlot => simp [put, slotWriter_cons, Event.writer?]
    | writeFlag | readClock => exact known rfl
    | flagDown | slotEmpty | unstamped | old => simp at publishing
    | _ => simp [isPublishing] at publishing
  · intro run event next other request phase reached _ step different running publishing written
    have idle := (step.idle_of_holds reached running (holds_of_publishing publishing) different).1
    rw [step.log, slotWriter_cons, idle]
    exact written

theorem yields_cons {id : CallId} {v : V} {log : List (Event V C E)} (event : Event V C E)
    (yields : Yields id v log) : Yields id v (event :: log) :=
  yields.imp (List.mem_cons_of_mem _) (List.mem_cons_of_mem _)

theorem slot_value (reaches : (new policy source).Reaches run) {v : V} (held : run.entry.slot = some v) :
    ∃ writer, slotWriter run.log = some writer ∧ Yields writer v run.log := by
  revert v
  refine reaches.rule (P := fun run => ∀ {v}, run.entry.slot = some v →
    ∃ writer, slotWriter run.log = some writer ∧ Yields writer v run.log) (by simp [new, start]) ?_
  intro run event next reached known step v held
  have kept (same : run.entry.slot = some v) (idle : event.writer? = none) :
      ∃ writer, slotWriter next.log = some writer ∧ Yields writer v next.log := by
    obtain ⟨writer, written, yields⟩ := known same
    exact ⟨writer, by simpa [step.log, slotWriter_cons, idle] using written,
      step.log ▸ yields_cons event yields⟩
  cases step with
  | began | returned => exact kept held rfl
  | @stepped id now request phase entry after running advance =>
      cases advance with
      | @writeSlot w =>
          have same : w = v := by simpa [put] using held
          subst same
          exact ⟨id, by simp [put, slotWriter_cons, Event.writer?],
            yields_cons _ (yields_own reached running (.inl rfl))⟩
      | _ => exact kept held rfl

theorem Step.ended {next : Run V C E} {event : Event V C E} (step : Step run event next) {id : CallId}
    {request : Request V C} {phase : Phase V E} (running : run.calls id = some ⟨request, phase⟩)
    (ended : isOver phase = true) :
    ∃ after, next.calls id = some ⟨request, after⟩ ∧ isOver after = true := by
  rcases step.of_running running with ⟨_, still⟩ | ⟨_, _, after, advance, _, moved⟩ | ⟨_, _, _, rfl, _⟩
  · exact ⟨phase, still, ended⟩
  · cases advance <;> simp [isOver] at ended
    exact ⟨_, moved, rfl⟩
  · simp [isOver] at ended

theorem Step.idle_of_over {next : Run V C E} {event : Event V C E} (step : Step run event next) {id : CallId}
    {request : Request V C} {phase : Phase V E} (running : run.calls id = some ⟨request, phase⟩)
    (ended : isOver phase = true) : event.writer? ≠ some id ∧ ∀ stamp, event.publish? ≠ some (id, stamp) := by
  cases step with
  | began | returned => simp [Event.writer?, Event.publish?]
  | @stepped me now asked current entry after moving advance =>
      have idle (mine : me = id) : isOver current = true := by
        subst mine
        rw [moving] at running
        cases running
        exact ended
      constructor
      · intro writes
        cases advance <;> simp [Event.writer?] at writes
        simpa [isOver] using idle writes
      · intro stamp publishes
        cases advance <;> simp [Event.publish?] at publishes
        simpa [isOver] using idle publishes.1

theorem over_of_published (reaches : (new policy source).Reaches run) {id : CallId} {stamp : Int}
    (published : (id, stamp) ∈ publishes run.log) :
    ∃ request phase, run.calls id = some ⟨request, phase⟩ ∧ isOver phase = true := by
  revert published
  refine reaches.rule (P := fun run => (id, stamp) ∈ publishes run.log →
    ∃ request phase, run.calls id = some ⟨request, phase⟩ ∧ isOver phase = true)
    (by simp [new, start, publishes]) ?_
  intro run event next _ known step published
  rw [step.log, publishes_cons, List.mem_append] at published
  rcases published with now | earlier
  · cases step with
    | began | returned => simp [Event.publish?] at now
    | stepped running advance =>
        cases advance <;> simp [Event.publish?] at now
        obtain ⟨rfl, rfl⟩ := now
        exact ⟨_, _, Function.update_self .., rfl⟩
  · obtain ⟨request, phase, running, ended⟩ := known earlier
    obtain ⟨after, stopped, still⟩ := step.ended running ended
    exact ⟨request, after, stopped, still⟩

theorem publishes_nodup (reaches : (new policy source).Reaches run) :
    ((publishes run.log).map Prod.fst).Nodup := by
  refine reaches.rule (P := fun run => ((publishes run.log).map Prod.fst).Nodup)
    (by simp [new, start, publishes]) ?_
  intro run event next reached nodup step
  rw [step.log, publishes_cons]
  cases found : event.publish? with
  | none => simpa using nodup
  | some publish =>
      refine List.nodup_cons.mpr ⟨?_, nodup⟩
      intro again
      obtain ⟨⟨id, stamp⟩, published, same⟩ := List.mem_map.mp again
      obtain ⟨request, phase, running, ended⟩ := over_of_published reached published
      exact (step.idle_of_over running ended).2 publish.2 (found.trans (congrArg some (Prod.ext same.symm rfl)))

theorem initialized_of_published (reaches : (new policy source).Reaches run)
    (published : publishes run.log ≠ []) : run.entry.initialized = true := by
  revert published
  refine reaches.rule (P := fun run => publishes run.log ≠ [] → run.entry.initialized = true)
    (by simp [new, start, publishes]) ?_
  intro run event next reached known step published
  rw [step.log, publishes_cons] at published
  cases step with
  | began | returned => exact known published
  | stepped running advance =>
      have disciplined := disciplined_of_new reached
      cases advance with
      | writeStamp => exact (disciplined.outline _ _ _ running).2.1
      | writeFlag => rfl
      | _ => exact known published

theorem Step.publishing {next : Run V C E} {event : Event V C E} (step : Step run event next) {id : CallId}
    {request : Request V C} {phase : Phase V E} (running : run.calls id = some ⟨request, phase⟩)
    (publishing : isPublishing phase = true) (uncompleted : event.publish? = none) :
    ∃ after, next.calls id = some ⟨request, after⟩ ∧ isPublishing after = true := by
  rcases step.of_running running with ⟨_, still⟩ | ⟨_, _, after, advance, rfl, moved⟩ | ⟨_, _, _, rfl, _⟩
  · exact ⟨phase, still, publishing⟩
  · cases advance <;> simp [isPublishing, Event.publish?] at publishing uncompleted
    all_goals exact ⟨_, moved, rfl⟩
  · simp [isPublishing] at publishing

theorem Step.publishing_of_publish {next : Run V C E} {event : Event V C E} (step : Step run event next)
    {publish : CallId × Int} (completes : event.publish? = some publish) :
    ∃ request phase, run.calls publish.1 = some ⟨request, phase⟩ ∧ isPublishing phase = true := by
  cases step with
  | began | returned => simp [Event.publish?] at completes
  | stepped running advance =>
      cases advance <;> simp [Event.publish?] at completes
      subst completes
      exact ⟨_, _, running, rfl⟩

/-- The slot holds the value of the last publish, unless another one is under way. -/
theorem last_publish (reaches : (new policy source).Reaches run) {writer : CallId}
    (written : slotWriter run.log = some writer) :
    (∃ stamp, (publishes run.log).head? = some (writer, stamp)) ∨
      ∃ request phase, run.calls writer = some ⟨request, phase⟩ ∧ isPublishing phase = true := by
  revert writer
  refine reaches.rule (P := fun run => ∀ {writer}, slotWriter run.log = some writer →
    (∃ stamp, (publishes run.log).head? = some (writer, stamp)) ∨
      ∃ request phase, run.calls writer = some ⟨request, phase⟩ ∧ isPublishing phase = true)
    (by simp [new, start, slotWriter]) ?_
  intro run event next reached known step writer written
  rw [step.log, slotWriter_cons] at written
  rw [step.log, publishes_cons]
  cases wrote : event.writer? with
  | some id =>
      -- the slot was just written, and the timestamp is still to be stored
      have same : id = writer := by simpa [wrote] using written
      subst same
      cases step with
      | began | returned => simp [Event.writer?] at wrote
      | stepped running advance =>
          cases advance <;> simp [Event.writer?] at wrote
          subst wrote
          exact .inr ⟨_, _, Function.update_self .., rfl⟩
  | none =>
      have before : slotWriter run.log = some writer := by simpa [wrote] using written
      cases completed : event.publish? with
      | some publish =>
          -- whoever completes a publish is the writer of the slot
          obtain ⟨request, phase, running, publishing⟩ := step.publishing_of_publish completed
          have same := (slotWriter_of_publishing reached running publishing).symm.trans before
          simp only [Option.some.injEq] at same
          exact .inl ⟨publish.2, by rw [← same]; rfl⟩
      | none =>
          rcases known before with ⟨stamp, last⟩ | ⟨request, phase, running, publishing⟩
          · exact .inl ⟨stamp, last⟩
          · obtain ⟨after, moved, still⟩ := step.publishing running publishing completed
            exact .inr ⟨request, after, moved, still⟩

theorem published_of_holds (reaches : (new policy source).Reaches run) {id : CallId} {request : Request V C}
    {phase : Phase V E} (running : run.calls id = some ⟨request, phase⟩) (locked : holds request phase = true)
    (idle : isPublishing phase = false) {v : V} (held : run.entry.slot = some v) :
    ∃ writer stamp, slotWriter run.log = some writer ∧ Yields writer v run.log ∧
      (publishes run.log).head? = some (writer, stamp) := by
  have disciplined := disciplined_of_new reaches
  obtain ⟨writer, written, yields⟩ := slot_value reaches held
  rcases last_publish reaches written with ⟨stamp, last⟩ | ⟨_, under_way, moving, publishing⟩
  · exact ⟨writer, stamp, written, yields, last⟩
  · have same : id = writer := disciplined.alone running locked moving (holds_of_publishing publishing)
    subst same
    rw [running] at moving
    cases moving
    simp [idle] at publishing

/-- A timestamp that does not say "expired" is that of the last publish. -/
theorem stamp_current (reaches : (new policy source).Reaches run)
    (stamped : run.entry.stamp ≠ neverPublished) :
    ∃ id, (publishes run.log).head? = some (id, run.entry.stamp) := by
  revert stamped
  refine reaches.rule (P := fun run => run.entry.stamp ≠ neverPublished →
    ∃ id, (publishes run.log).head? = some (id, run.entry.stamp)) (by simp [new, start]) ?_
  intro run event next _ known step stamped
  rw [step.log, publishes_cons]
  cases step with
  | began | returned => exact known stamped
  | @stepped id now request phase entry after running advance =>
      cases advance with
      | writeStamp => exact ⟨id, rfl⟩
      | clearStamp => exact absurd rfl stamped
      | _ => exact known stamped

theorem unmoved (reaches : (new policy source).Reaches run) {id : CallId} {request : Request V C}
    {phase : Phase V E} {snapshot : Int} (running : run.calls id = some ⟨request, phase⟩)
    (loaded : snapshot? phase = some snapshot) (nothing : publishes (since id run.log) = []) :
    run.entry.stamp = snapshot ∨ run.entry.stamp = neverPublished := by
  revert nothing
  refine reaches.inside (X := fun phase => snapshot? phase = some snapshot)
    (P := fun run id _ => publishes (since id run.log) = [] →
      run.entry.stamp = snapshot ∨ run.entry.stamp = neverPublished)
    rfl inner_of_snapshot ?_ ?_ running loaded
  · intro run id now request phase entry next _ _ _ advance known loaded nothing
    obtain ⟨same, ⟨_, rfl⟩ | ⟨before, still⟩⟩ := snapshot_of_next advance loaded
    · exact .inl same
    · simpa [put, same] using known before ((still run.log).symm.trans nothing)
  · intro run event next other request phase _ _ step different _ _ known nothing
    rw [step.log, since_of_other different, publishes_cons, List.append_eq_nil_iff] at nothing
    have before := known nothing.2
    cases step with
    | began | returned => exact before
    | stepped running advance =>
        cases advance with
        | writeStamp => simp [Event.publish?] at nothing
        | clearStamp => exact .inr rfl
        | _ => exact before

theorem not_started (reaches : (new policy source).Reaches run) {id : CallId} {request : Request V C}
    {phase : Phase V E} (running : run.calls id = some ⟨request, phase⟩)
    (fresh : isUnstarted phase = true) : ¬ Started id run.log := by
  revert fresh
  refine reaches.each (P := fun run id _ phase => isUnstarted phase = true → ¬ Started id run.log)
    (by simp [new, start]) ?_ ?_ ?_ ?_ running
  · intro run id request reached unused _ started
    obtain ⟨event, member, starts⟩ := started
    rcases List.mem_cons.mp member with rfl | member
    · simp [Event.starts] at starts
    · have quiet := silent reached event member
      rw [Event.id_of_starts starts] at quiet
      exact quiet unused
  · intro run id now request phase entry next _ _ advance known fresh started
    obtain ⟨event, member, starts⟩ := started
    obtain ⟨before, idle⟩ := unstarted_of_next advance fresh
    rcases List.mem_cons.mp member with rfl | member
    · simp [idle] at starts
    · exact known before ⟨event, member, starts⟩
  · intro run id q outcome _ _ _ fresh
    cases outcome <;> cases unlocked : q.isUnlocked <;>
      simp [Call.resumed, unlocked, isUnstarted, shared?] at fresh
  · intro run event next other request phase _ step different _ known fresh
    rw [step.log, started_of_other different]
    exact known fresh

/-- The call has published, or is about to store the timestamp of its publish. -/
def Landed (id : CallId) (run : Run V C E) : Prop :=
  (∃ stamp, (id, stamp) ∈ publishes run.log) ∨
    ∃ request phase, run.calls id = some ⟨request, phase⟩ ∧ isPublishing phase = true

theorem landed_of_written (reaches : (new policy source).Reaches run) {writer : CallId}
    (written : slotWriter run.log = some writer) : Landed writer run := by
  rcases last_publish reaches written with ⟨stamp, last⟩ | publishing
  · exact .inl ⟨stamp, List.mem_of_mem_head? last⟩
  · exact .inr publishing

theorem Landed.step {next : Run V C E} {event : Event V C E} {id : CallId} (landed : Landed id run)
    (step : Step run event next) : Landed id next := by
  unfold Landed
  rw [step.log, publishes_cons]
  rcases landed with ⟨stamp, published⟩ | ⟨request, phase, running, publishing⟩
  · exact .inl ⟨stamp, List.mem_append_right _ published⟩
  · cases completed : event.publish? with
    | none => exact .inr ⟨request, step.publishing running publishing completed⟩
    | some publish =>
        by_cases same : id = publish.1
        · exact .inl ⟨publish.2, by simp [same]⟩
        · have other : id ≠ event.id := by rwa [Event.id_of_publish completed]
          exact .inr ⟨request, phase, (step.other other).trans running, publishing⟩

theorem taken_value (reaches : (new policy source).Reaches run) {id : CallId} {request : Request V C}
    {phase : Phase V E} {v : V} (running : run.calls id = some ⟨request, phase⟩)
    (taken : takenValue? phase = some v) :
    ∃ writer, origin id run.log = some writer ∧ Yields writer v run.log ∧ Landed writer run := by
  refine reaches.inside (X := fun phase => takenValue? phase = some v)
    (P := fun run id _ => ∃ writer, origin id run.log = some writer ∧ Yields writer v run.log ∧
      Landed writer run) rfl inner_of_taken ?_ ?_ running taken
  · intro run id now request phase entry next reached _ running advance known taken
    have step : Step run _ _ := .stepped running advance
    rcases takenValue_of_next advance taken with ⟨held, reads⟩ | ⟨before, unread⟩
    · obtain ⟨writer, written, yields⟩ := slot_value reached held
      exact ⟨writer, (reads run.log).trans written, yields_cons _ yields,
        (landed_of_written reached written).step step⟩
    · obtain ⟨writer, source, yields, landed⟩ := known before
      exact ⟨writer, (unread run.log).trans source, yields_cons _ yields, landed.step step⟩
  · intro run event next other request phase _ _ step different _ _ known
    obtain ⟨writer, source, yields, landed⟩ := known
    exact ⟨writer, by rw [step.log, origin_of_other different, source],
      step.log ▸ yields_cons event yields, landed.step step⟩

/-- Every answer is what some call has computed or published. -/
theorem answer_source (reaches : (new policy source).Reaches run) {id : CallId} {request : Request V C} {v : V}
    {how : Served} (answered : run.calls id = some ⟨request, .done (.answered v how)⟩) :
    ∃ writer, origin id run.log = some writer ∧ Yields writer v run.log := by
  cases how with
  | computed =>
      have fits := (disciplined_of_new reaches).fits _ _ _ answered
      cases request with
      | lookup q =>
          obtain ⟨returned, own⟩ := own_value reaches answered rfl
          exact ⟨id, own, .inl returned⟩
      | store | expire | read => simp [Fits, Call.StoreFits] at fits
  | fresh | stale | coalesced =>
      obtain ⟨writer, taken, yields, _⟩ := taken_value reaches answered rfl
      exact ⟨writer, taken, yields⟩

end Run

end ViewCache.Entry
