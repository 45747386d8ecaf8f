import ViewCache.Proofs.Entry.Progress
import ViewCache.Proofs.Entry.Wave

/-!
What becomes of lookups that queue for the lock: each failure hands the lock to the next in the queue, and the
first success is the answer of all that come after it.
-/
namespace ViewCache.Entry

variable {V C E : Type} {members : CallId → Prop}

def Event.locks (id : CallId) : Event V C E → Bool
  | .stepped me _ _ _ (.recheckFlag _) => me == id
  | _ => false

def GrantedAfter (id : CallId) (older log : List (Event V C E)) : Prop :=
  ∃ newer event, log = newer ++ event :: older ∧ event.locks id = true

def isGranted : Phase V E → Bool
  | .recheckFlag _ | .recheckStamp _ | .coalesceFlag | .coalesceSlot | .callUpdater | .updating | .writeSlot _
  | .writeFlag _ | .readClock _ | .writeStamp .. | .unlock _ => true
  | .done (.answered _ .computed) | .done (.answered _ .coalesced) | .done (.failed _) => true
  | _ => false

/-- What a reply says of the turn that came after `older`. -/
def TurnReply (members : CallId → Prop) (older : List (Event V C E)) : Reply V E → Prop
  | .answered _ .computed | .failed _ => Unsuccessful members older
  | .answered v .coalesced => ∃ winner, members winner ∧ .returned winner (.ok v) ∈ older
  | _ => False

def HadTurn (members : CallId → Prop) (older log : List (Event V C E)) : Phase V E → Prop
  | .recheckFlag _ | .recheckStamp _ =>
    ∀ winner v, members winner → .returned winner (.ok v) ∈ log → .returned winner (.ok v) ∈ older
  | .callUpdater | .updating | .writeSlot _ | .writeFlag _ | .readClock _ | .writeStamp .. =>
    Unsuccessful members older
  | .coalesceFlag | .coalesceSlot => ∃ winner v, members winner ∧ .returned winner (.ok v) ∈ older
  | .unlock reply | .done reply => TurnReply members older reply
  | _ => False

theorem GrantedAfter.subset {id : CallId} {older log : List (Event V C E)} (granted : GrantedAfter id older log) :
    ∀ event ∈ older, event ∈ log := by
  obtain ⟨newer, grant, rfl, _⟩ := granted
  intro event member
  simp [member]

theorem GrantedAfter.later {id : CallId} {older log : List (Event V C E)} (granted : GrantedAfter id older log)
    (event : Event V C E) : GrantedAfter id older (event :: log) := by
  obtain ⟨newer, grant, rfl, locks⟩ := granted
  exact ⟨event :: newer, grant, rfl, locks⟩

theorem GrantedAfter.of_cons {id : CallId} {older log : List (Event V C E)} {event : Event V C E}
    (granted : GrantedAfter id older (event :: log)) :
    older = log ∧ event.locks id = true ∨ GrantedAfter id older log := by
  obtain ⟨newer, grant, split, locks⟩ := granted
  cases newer with
  | nil =>
      simp only [List.nil_append, List.cons.injEq] at split
      exact .inl ⟨split.2.symm, split.1 ▸ locks⟩
  | cons _ newer =>
      simp only [List.cons_append, List.cons.injEq] at split
      exact .inr ⟨newer, grant, split.2, locks⟩

theorem Event.id_of_locks {id : CallId} {event : Event V C E} (locks : event.locks id = true) : event.id = id := by
  cases event with
  | stepped me now seen before after => cases after <;> simp_all [Event.locks, Event.id]
  | returned | began => simp [Event.locks] at locks

theorem Unsuccessful.older {older log : List (Event V C E)} (nobody : Unsuccessful members log)
    (subset : ∀ event ∈ older, event ∈ log) : Unsuccessful members older :=
  fun id v member returned => nobody id v member (subset _ returned)

theorem Success.older {winner : CallId} {v : V} {older log : List (Event V C E)}
    (success : Success members winner v log) (returned : .returned winner (.ok v) ∈ older)
    (subset : ∀ event ∈ older, event ∈ log) : Success members winner v older :=
  ⟨success.member, returned, fun id w member came => success.only id w member (subset _ came)⟩

@[simp]
theorem isGranted_contend {q : Query C} {snapshot : Int} :
    isGranted (Call.contend q snapshot : Phase V E) = false := Call.map_contend rfl rfl

theorem TurnReply.coalesced {older : List (Event V C E)} {reply : Reply V E} (turn : TurnReply members older reply)
    {winner : CallId} {v : V} (success : Success members winner v older) : reply = .answered v .coalesced := by
  cases reply with
  | answered w how =>
      cases how with
      | coalesced =>
          obtain ⟨other, member, returned⟩ := turn
          rw [(success.only other w member returned).2]
      | computed => exact absurd success.returned (turn winner v success.member)
      | fresh | stale => exact turn.elim
  | failed => exact absurd success.returned (turn winner v success.member)
  | stored | expired | found => exact turn.elim

theorem TurnReply.own {older : List (Event V C E)} {reply : Reply V E} (turn : TurnReply members older reply)
    (nobody : Unsuccessful members older) : ∃ outcome, replyOutcome? reply = some outcome := by
  cases reply with
  | answered v how =>
      cases how with
      | coalesced =>
          obtain ⟨winner, member, returned⟩ := turn
          exact absurd returned (nobody winner v member)
      | computed => exact ⟨_, rfl⟩
      | fresh | stale => exact turn.elim
  | failed => exact ⟨_, rfl⟩
  | stored | expired | found => exact turn.elim

theorem HadTurn.unstarted {older log : List (Event V C E)} {phase : Phase V E}
    (turn : HadTurn members older log phase) {winner : CallId} {v : V}
    (success : Success members winner v older) : isUnstarted phase = true := by
  cases phase with
  | recheckFlag | recheckStamp | coalesceFlag | coalesceSlot | callUpdater => rfl
  | updating | writeSlot | writeFlag | readClock | writeStamp =>
      exact absurd success.returned (turn winner v success.member)
  | unlock reply | done reply =>
      rw [turn.coalesced success]
      rfl
  | _ => exact turn.elim

theorem granted_of_started {q : Query C} {phase : Phase V E} (started : isUnstarted phase = false)
    (locked : q.isUnlocked = false) (fits : Call.Fits (.lookup q : Request V C) phase) :
    isGranted phase = true := by
  cases phase with
  | done reply =>
      cases reply with
      | answered v how => cases how <;> simp_all [isUnstarted, shared?, isGranted]
      | failed => rfl
      | stored | expired | found => simp [Call.Fits, Call.LookupFits, Call.ReplyFits] at fits
  | _ => simp_all [isUnstarted, isGranted, Call.Fits, Call.LookupFits]

theorem granted_of_queued {reply : Reply V E} (queued : isQueued (.done reply) = true) :
    isGranted (.done reply) = true := by
  cases reply with
  | answered v how => cases how <;> simp_all [isQueued, isGranted]
  | failed => rfl
  | stored | expired | found => simp [isQueued] at queued

theorem HadTurn.later {older log : List (Event V C E)} {event : Event V C E} {phase : Phase V E}
    (turn : HadTurn members older log phase) (request : Request V C)
    (alone : Call.holds request phase = true → ∀ id v, members id → event ≠ .returned id (.ok v)) :
    HadTurn members older (event :: log) phase := by
  cases phase with
  | recheckFlag | recheckStamp =>
      intro winner v member returned
      rcases List.mem_cons.mp returned with now | earlier
      · exact absurd now.symm (alone rfl winner v member)
      · exact turn winner v member earlier
  | _ => exact turn

end ViewCache.Entry

namespace ViewCache.Entry.Run

open Call (Advance holds Fits Outline)

variable {V C E : Type} {policy : RefreshPolicy V C} {source : TimeSource} {first run next : Run V C E}
  {members : CallId → Prop}

theorem began_of_loading (reaches : (new policy source).Reaches run) {id : CallId} {request : Request V C}
    (loading : run.calls id = some ⟨request, .loadStamp⟩) :
    ∀ event ∈ run.log, event.id = id → event = .began id request := by
  refine reaches.each (P := fun run id request phase => phase = .loadStamp → ∀ event ∈ run.log,
    event.id = id → event = .began id request) (by simp [new, start]) ?_ ?_ ?_ ?_ loading rfl
  · intro run id request reached unused _ event member mine
    rcases List.mem_cons.mp member with rfl | earlier
    · rfl
    · exact absurd unused (mine ▸ silent reached event earlier)
  · intro run id now request phase entry next _ _ advance _ loading
    cases advance with
    | flagDown | slotEmpty | unstamped | old => exact absurd loading (Call.contend_ne (by simp) (by simp))
    | _ => cases loading
  · intro run id q outcome _ _ _ loading
    cases outcome <;> cases unlocked : q.isUnlocked <;> simp [Call.resumed, unlocked] at loading
  · intro run event next other request phase _ step different _ known loading found member mine
    rw [step.log] at member
    rcases List.mem_cons.mp member with rfl | earlier
    · exact absurd mine.symm different
    · exact known loading found earlier mine

theorem granted_of_phase (reaches : (new policy source).Reaches run) {id : CallId} {q : Query C}
    {phase : Phase V E} (running : run.calls id = some ⟨.lookup q, phase⟩) (locked : q.isUnlocked = false)
    (granted : isGranted phase = true) : ∃ older, GrantedAfter id older run.log := by
  refine reaches.each (P := fun run id request phase => request = .lookup q → isGranted phase = true →
    ∃ older, GrantedAfter id older run.log) (by simp [new, start]) ?_ ?_ ?_ ?_ running rfl granted
  · intro run id request _ _ lookup granted
    subst lookup
    simp [Call.start, locked, isGranted] at granted
  · intro run id now request phase entry next reached moving advance known lookup granted
    subst lookup
    have fits := (disciplined_of_new reached).fits _ _ _ moving
    have earlier (before : isGranted phase = true) :
        ∃ older, GrantedAfter id older (.stepped id now run.entry phase next :: run.log) := by
      obtain ⟨older, granted⟩ := known rfl before
      exact ⟨older, granted.later _⟩
    cases advance with
    | tryFree | locked => exact ⟨run.log, [], _, rfl, by simp [Event.locks]⟩
    | flagDown | slotEmpty | unstamped | old => simp at granted
    | publishFree | publishBusy =>
        have unlocked : q.isUnlocked = true := fits
        simp [locked] at unlocked
    | storeLocked store => cases store
    | recheckUp | recheckDown | unrefreshed | refreshed | coalesceUp | coalesceDown | coalesced | coalesceEmpty
    | callUpdater | writeSlot | writeFlag | readClock | writeStamp | unlock => exact earlier rfl
    | _ => simp [isGranted] at granted
  · intro run id asked outcome _ _ known lookup _
    obtain ⟨older, granted⟩ := known lookup rfl
    exact ⟨older, granted.later _⟩
  · intro run event next other request phase _ step _ _ known lookup granted
    obtain ⟨older, granted⟩ := known lookup granted
    exact ⟨older, step.log ▸ granted.later event⟩

theorem Stage.of_holds (stage : Stage members first run) (reaches : (new policy source).Reaches run) {id : CallId}
    (member : members id) {request : Request V C} {phase : Phase V E}
    (running : run.calls id = some ⟨request, phase⟩) (locked : holds request phase = true)
    (idle : publishing? phase = none) :
    (Unsuccessful members run.log ∧ run.entry.cells = first.entry.cells) ∨ isSettled phase = true ∧
      ∃ winner v, Success members winner v run.log ∧ run.entry.slot = some v ∧ run.entry.initialized = true ∧
        run.entry.stamp ≠ neverPublished ∧ run.entry.stamp ≠ first.entry.stamp := by
  cases stage with
  | pending nobody same => exact .inl ⟨nobody, same⟩
  | publishing winner v asked current _ moving writing _ =>
      have same : id = winner :=
        (disciplined_of_new reaches).alone running locked moving (holds_of_publishing? writing)
      subst same
      rw [running] at moving
      cases moving
      simp [idle] at writing
  | settled winner v success held up stamped moved others =>
      obtain ⟨_, _, waiting, settled⟩ := others id member
      rw [running] at waiting
      cases waiting
      exact .inr ⟨settled, winner, v, success, held, up, stamped, moved⟩

theorem Stage.turn_next (stage : Stage members first run) (reaches : (new policy source).Reaches run) {id : CallId}
    (member : members id) {q : Query C} {now : Int} {phase after : Phase V E} {entry : Entry V C}
    {older : List (Event V C E)} (running : run.calls id = some ⟨.lookup q, phase⟩)
    (advance : Advance id now (.lookup q) run.entry phase entry after)
    (poised : Poised first.entry.stamp (news first run) phase) (subset : ∀ event ∈ older, event ∈ run.log)
    (turn : HadTurn members older run.log phase) :
    HadTurn members older (.stepped id now run.entry phase after :: run.log) after := by
  have disciplined := disciplined_of_new reaches
  have outline := disciplined.outline _ _ _ running
  have fits := disciplined.fits _ _ _ running
  cases advance with
  | recheckUp => exact turn.later (.lookup q) (by simp)
  | recheckDown down =>
      rcases stage.of_holds reaches member running rfl rfl with ⟨nobody, _⟩ | ⟨_, _, _, _, _, up, _⟩
      · exact nobody.older subset
      · simp [down] at up
  | unrefreshed same =>
      rcases stage.of_holds reaches member running rfl rfl with ⟨nobody, _⟩ | ⟨_, _, _, _, _, _, stamped, moved⟩
      · exact nobody.older subset
      · have snapshot := poised.1
        rcases same with same | zero
        · exact absurd (same.symm.trans snapshot) moved
        · exact absurd zero stamped
  | refreshed moved =>
      rcases stage.of_holds reaches member running rfl rfl with ⟨_, same⟩ | ⟨_, winner, v, success, _⟩
      · have stamp : run.entry.stamp = first.entry.stamp := congrArg (·.2.2) same
        exact absurd (poised.1.trans stamp.symm) moved
      · exact ⟨winner, v, success.member, turn winner v success.member success.returned⟩
  | coalesced held =>
      obtain ⟨winner, w, also, returned⟩ := turn
      rcases stage.of_holds reaches member running rfl rfl with ⟨nobody, _⟩ | ⟨_, _, v, success, filled, _⟩
      · exact absurd (subset _ returned) (nobody winner w also)
      · obtain ⟨_, value⟩ := success.only winner w also (subset _ returned)
        cases held.symm.trans filled
        exact ⟨winner, also, value ▸ returned⟩
  | coalesceDown down =>
      simp only [Outline, down] at outline
      cases outline
  | coalesceEmpty empty => exact absurd empty (disciplined.sound.filled outline)
  | coalesceUp | callUpdater | writeSlot | writeFlag | readClock | writeStamp | unlock => exact turn
  | _ => exact turn.elim

theorem Wave.turn (early : (new policy source).Reaches first) (reaches : first.Reaches run)
    (wave : Wave members first run) {id : CallId} {older : List (Event V C E)} (member : members id)
    (granted : GrantedAfter id older run.log) :
    ∃ q phase, run.calls id = some ⟨.lookup q, phase⟩ ∧ HadTurn members older run.log phase := by
  revert wave granted
  refine reaches.rule (P := fun run => Wave members first run → GrantedAfter id older run.log →
    ∃ q phase, run.calls id = some ⟨.lookup q, phase⟩ ∧ HadTurn members older run.log phase) ?_ ?_
  · rintro wave ⟨newer, grant, split, locks⟩
    -- a member begins by loading its snapshot, so that none has had its turn before the wave
    have logged : grant ∈ first.log := by simp [split]
    have mine := Event.id_of_locks locks
    obtain ⟨call, running⟩ := Option.ne_none_iff_exists'.mp (mine ▸ silent early grant logged)
    have loading := wave.unloaded id call member running
    obtain ⟨request, _⟩ := call
    cases loading
    rw [began_of_loading early running grant logged mine] at locks
    cases locks
  · intro run event next reached known step wave granted
    have before := wave.of_step reached step
    have whole := early.trans reached
    obtain ⟨stage, poised⟩ := before.kept early reached
    rw [step.log] at granted ⊢
    rcases granted.of_cons with ⟨rfl, locks⟩ | earlier
    · -- the turn begins
      cases step with
      | began | returned => cases locks
      | @stepped me now request phase entry after running advance =>
          have step : Step run _ _ := .stepped running advance
          have mine : me = id := Event.id_of_locks locks
          subst mine
          obtain ⟨q, lookup, _⟩ := before.lookup whole member running
          subst lookup
          refine ⟨q, after, Function.update_self .., ?_⟩
          cases after with
          | recheckFlag =>
              intro winner v _ returned
              simpa using returned
          | _ => cases locks
    · obtain ⟨q, phase, running, turn⟩ := known before earlier
      rcases step.of_running running with ⟨other, still⟩ | ⟨now, entry, after, advance, rfl, moved⟩ |
        ⟨asked, outcome, lookup, rfl, _, resumed⟩
      · refine ⟨q, phase, still, turn.later (.lookup q) ?_⟩
        intro locked
        exact before.silent_of_holds whole running locked step other
      · have known := poised _ _ _ member running
        exact ⟨q, after, moved, stage.turn_next whole member running advance known earlier.subset turn⟩
      · obtain ⟨_, same, locked, _⟩ := before.lookup whole member running
        cases lookup
        cases same
        -- the updater returns, and the turn comes to what it has returned
        refine ⟨q, _, resumed, ?_⟩
        cases outcome with
        | ok v =>
            simp only [Call.resumed, locked]
            exact turn
        | error cause =>
            simp only [Call.resumed, locked]
            exact turn

structure HandsOver (members : CallId → Prop) (first run : Run V C E) : Prop where
  alone : ∀ id other request asked, members id → members other → run.calls id = some ⟨request, .updating⟩ →
    run.calls other = some ⟨asked, .updating⟩ → id = other
  single : Unsuccessful members run.log ∨ ∃ winner v, Success members winner v run.log
  called : ∀ id, members id → Started id run.log →
    ∃ older, GrantedAfter id older run.log ∧ Unsuccessful members older
  granted : ∀ id request reply, members id → Contended id run.log → run.calls id = some ⟨request, .done reply⟩ →
    ∃ older, GrantedAfter id older run.log
  before : ∀ id older request reply, members id → GrantedAfter id older run.log → Unsuccessful members older →
    run.calls id = some ⟨request, .done reply⟩ →
      Started id run.log ∧ ∃ outcome, .returned id outcome ∈ run.log ∧ reply = ownReply outcome
  after : ∀ id older winner v, members id → GrantedAfter id older run.log → Success members winner v older →
    ¬ Started id run.log ∧
      ∀ request reply, run.calls id = some ⟨request, .done reply⟩ → reply = .answered v .coalesced
  /-- whoever fails has changed nothing, and nothing has changed until it gives the lock back -/
  failing : ∀ id cause, members id → .returned id (.error cause) ∈ run.log →
    (∀ event ∈ run.log, event.id = id → event.changes = false) ∧
      (∀ request reply, run.calls id = some ⟨request, .unlock reply⟩ → run.entry.cells = first.entry.cells) ∧
      ∀ request reply, run.calls id = some ⟨request, .done reply⟩ → reply = .failed ⟨cause⟩
  untouched : Unsuccessful members run.log → run.entry.cells = first.entry.cells
  goesOn : ∀ id request phase, members id → run.calls id = some ⟨request, phase⟩ → (∀ reply, phase ≠ .done reply) →
    ∃ other, (other = id ∨ run.entry.holder = some other) ∧ run.CanGoOn other
  bounded : ∀ id call, members id → run.calls id = some call → eventsOf id run.log ≤ 21

theorem Stage.single (stage : Stage members first run) :
    Unsuccessful members run.log ∨ ∃ winner v, Success members winner v run.log := by
  cases stage with
  | pending nobody _ => exact .inl nobody
  | publishing winner v _ _ success _ _ _ | settled winner v success _ _ _ _ _ => exact .inr ⟨winner, v, success⟩

section

variable {id : CallId} {older : List (Event V C E)} {request : Request V C} {reply : Reply V E}

theorem Wave.after_success (early : (new policy source).Reaches first) (reaches : first.Reaches run)
    (wave : Wave members first run) (member : members id) (granted : GrantedAfter id older run.log)
    {winner : CallId} {v : V} (success : Success members winner v older) : ¬ Started id run.log ∧
      ∀ request reply, run.calls id = some ⟨request, .done reply⟩ → reply = .answered v .coalesced := by
  obtain ⟨q, phase, running, turn⟩ := wave.turn early reaches member granted
  refine ⟨not_started (early.trans reaches) running (turn.unstarted success), ?_⟩
  intro request reply ended
  rw [running] at ended
  cases ended
  exact turn.coalesced success

theorem Wave.before_success (early : (new policy source).Reaches first) (reaches : first.Reaches run)
    (wave : Wave members first run) (member : members id) (granted : GrantedAfter id older run.log)
    (nobody : Unsuccessful members older) (ended : run.calls id = some ⟨request, .done reply⟩) :
    Started id run.log ∧ ∃ outcome, .returned id outcome ∈ run.log ∧ reply = ownReply outcome := by
  have whole := early.trans reaches
  obtain ⟨q, phase, running, turn⟩ := wave.turn early reaches member granted
  rw [ended] at running
  cases running
  obtain ⟨outcome, come⟩ := turn.own nobody
  have returned : .returned id outcome ∈ run.log := returned_of_outcome whole ended come
  refine ⟨started_of_outcome whole ended (.inr ?_), outcome, returned, reply_of_outcome come⟩
  simp [outcome?, come]

theorem Wave.called (early : (new policy source).Reaches first) (reaches : first.Reaches run)
    (wave : Wave members first run) (member : members id) (started : Started id run.log) :
    ∃ older, GrantedAfter id older run.log ∧ Unsuccessful members older := by
  have whole := early.trans reaches
  have ⟨event, logged, starts⟩ := started
  obtain ⟨⟨request, phase⟩, running⟩ := Option.ne_none_iff_exists'.mp
    (Event.id_of_starts starts ▸ silent whole event logged)
  obtain ⟨q, rfl, locked, _⟩ := wave.lookup whole member running
  have past : isUnstarted phase = false := by
    by_contra fresh
    exact not_started whole running (by simpa using fresh) started
  have fits := (disciplined_of_new whole).fits _ _ _ running
  obtain ⟨older, granted⟩ := granted_of_phase whole running locked (granted_of_started past locked fits)
  refine ⟨older, granted, ?_⟩
  -- had one of the others succeeded before its turn, the lookup would have coalesced
  rcases (wave.kept early reaches).1.single with nobody | ⟨winner, v, success⟩
  · exact nobody.older granted.subset
  · intro other w also returned
    obtain ⟨rfl, rfl⟩ := success.only other w also (granted.subset _ returned)
    exact (wave.after_success early reaches member granted (success.older returned granted.subset)).1 started

theorem Wave.failing (early : (new policy source).Reaches first) (reaches : first.Reaches run)
    (wave : Wave members first run) (member : members id) {cause : E}
    (returned : .returned id (.error cause) ∈ run.log) :
    (∀ event ∈ run.log, event.id = id → event.changes = false) ∧
      (∀ request reply, run.calls id = some ⟨request, .unlock reply⟩ → run.entry.cells = first.entry.cells) ∧
      ∀ request reply, run.calls id = some ⟨request, .done reply⟩ → reply = .failed ⟨cause⟩ := by
  have whole := early.trans reaches
  obtain ⟨q, phase, running, come⟩ := outcome_of_returned whole returned
  refine ⟨idle_of_unsuccessful whole running (by simp [come]), ?_, ?_⟩
  · intro request reply leaving
    rw [running] at leaving
    cases leaving
    have failed : reply = .failed ⟨cause⟩ := reply_of_outcome come
    subst failed
    rcases (wave.kept early reaches).1.of_holds whole member running rfl rfl with ⟨_, same⟩ | ⟨settled, _⟩
    · exact same
    · cases settled
  · intro request reply ended
    rw [running] at ended
    cases ended
    exact reply_of_outcome come

end

theorem Stage.untouched (stage : Stage members first run) (nobody : Unsuccessful members run.log) :
    run.entry.cells = first.entry.cells := by
  cases stage with
  | pending _ same => exact same
  | publishing winner v _ _ success _ _ _ | settled winner v success _ _ _ _ _ =>
      exact absurd success.returned (nobody winner v success.member)

theorem Wave.handsOver (early : (new policy source).Reaches first) (reaches : first.Reaches run)
    (wave : Wave members first run) : HandsOver members first run := by
  have whole := early.trans reaches
  have stage := (wave.kept early reaches).1
  constructor
  case alone =>
    intro id other request asked member also running moving
    obtain ⟨_, rfl, locked, _⟩ := wave.lookup whole member running
    obtain ⟨_, rfl, owned, _⟩ := wave.lookup whole also moving
    exact (disciplined_of_new whole).alone running (by simp [holds, locked]) moving (by simp [holds, owned])
  case single => exact stage.single
  case called => exact fun id member started => wave.called early reaches member started
  case granted =>
    intro id request reply member contended ended
    obtain ⟨q, phase, running, queued⟩ := queued_of_contended whole contended
    rw [ended] at running
    cases running
    obtain ⟨_, lookup, locked, _⟩ := wave.lookup whole member ended
    cases lookup
    exact granted_of_phase whole ended locked (granted_of_queued queued)
  case before =>
    intro id older request reply member granted nobody ended
    exact wave.before_success early reaches member granted nobody ended
  case after =>
    intro id older winner v member granted success
    exact wave.after_success early reaches member granted success
  case failing => exact fun id cause member returned => wave.failing early reaches member returned
  case untouched => exact stage.untouched
  case goesOn => exact fun id request phase _ running unended => goes_on whole running unended
  case bounded =>
    intro id call member running
    have bound := steps_bounded whole running
    omega

/-- Failures are handed over: the updaters that run are those of the lookups up to the first success in the
order of the lock, and all others answer the value of that. No call ever answers the error of another. -/
theorem failures_are_handed_over (early : (new policy source).Reaches first) (reaches : first.Reaches run) :
    (Wave members first run → HandsOver members first run) ∧
      ∀ id request failure, run.calls id = some ⟨request, .done (.failed failure)⟩ →
        .returned id (.error failure.cause) ∈ run.log := by
  constructor
  · exact fun wave => wave.handsOver early reaches
  · exact fun id request failure ended => own_error (early.trans reaches) ended

def threeLookups : List CallId := [1, 2, 3]

/-- Three lookups find nothing; the updater of the first fails, that of the second returns 7, and the third has
waited for that. -/
def failThenSucceed : List (Move Nat Unit Bool) :=
  let arrive (id : CallId) : List (Move Nat Unit Bool) :=
    .invoke id (.lookup ⟨(), 10, false⟩) :: List.replicate 2 (.step id 100)
  List.flatten [arrive 1, arrive 2, arrive 3,
    List.replicate 3 (.step 1 101), [.resume 1 (.error true), .step 1 102],
    List.replicate 3 (.step 2 103), [.resume 2 (.ok 7)], List.replicate 5 (.step 2 104),
    List.replicate 6 (.step 3 105)]

theorem one_failure_is_handed_over : ∃ run : Run Nat Unit Bool,
    (new .timed .wall).follow? failThenSucceed = some run ∧ Wave (· ∈ threeLookups) (new .timed .wall) run ∧
      run.calls 1 = some ⟨.lookup ⟨(), 10, false⟩, .done (.failed ⟨true⟩)⟩ ∧
      run.calls 2 = some ⟨.lookup ⟨(), 10, false⟩, .done (.answered 7 .computed)⟩ ∧
      run.calls 3 = some ⟨.lookup ⟨(), 10, false⟩, .done (.answered 7 .coalesced)⟩ ∧
      HandsOver (· ∈ threeLookups) (new .timed .wall) run := by
  have computed : ((new .timed .wall).follow? failThenSucceed).map (fun run : Run Nat Unit Bool =>
      (decide (∀ event ∈ news (new .timed .wall) run, event.changes = true → event.id ∈ threeLookups),
        decide (Steady (news (new .timed .wall) run)),
        decide (Always (Gathered (· ∈ threeLookups)) (news (new .timed .wall) run)),
        run.calls 1, run.calls 2, run.calls 3)) =
      some (true, true, true, some ⟨.lookup ⟨(), 10, false⟩, .done (.failed ⟨true⟩)⟩,
        some ⟨.lookup ⟨(), 10, false⟩, .done (.answered 7 .computed)⟩,
        some ⟨.lookup ⟨(), 10, false⟩, .done (.answered 7 .coalesced)⟩) := by
    rfl
  obtain ⟨run, followed, facts⟩ := Option.map_eq_some_iff.mp computed
  simp only [Prod.mk.injEq, decide_eq_true_eq] at facts
  obtain ⟨quiet, steady, gathered, firstFails, secondComputes, thirdCoalesces⟩ := facts
  have reaches := Reaches.of_follow followed
  have wave : Wave (· ∈ threeLookups) (new .timed .wall) run := by
    refine ⟨by simp [new, start], ?_, quiet, steady, gathered⟩
    intro id request member began
    obtain ⟨phase, running⟩ := running_of_began reaches began
    refine ⟨⟨(), 10, false⟩, ?_, by decide, rfl⟩
    simp only [threeLookups, List.mem_cons, List.not_mem_nil, or_false] at member
    rcases member with rfl | rfl | rfl
    · rw [firstFails] at running
      cases running
      rfl
    · rw [secondComputes] at running
      cases running
      rfl
    · rw [thirdCoalesces] at running
      cases running
      rfl
  exact ⟨run, followed, wave, firstFails, secondComputes, thirdCoalesces,
    (failures_are_handed_over (.refl _) reaches).1 wave⟩

end ViewCache.Entry.Run
