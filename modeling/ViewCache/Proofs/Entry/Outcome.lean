import ViewCache.Entry.Alone
import ViewCache.Proofs.Entry.Account

namespace ViewCache.Entry

variable {V C E : Type}

def cells (entry : Entry V C) : Option V × Bool × Int := (entry.slot, entry.initialized, entry.stamp)

def Event.changes : Event V C E → Bool
  | .stepped _ _ _ (.writeSlot _) _ | .stepped _ _ _ (.writeFlag _) _ | .stepped _ _ _ (.writeStamp ..) _
  | .stepped _ _ _ .clearStamp _ => true
  | _ => false

def replyOutcome? : Reply V E → Option (Except E V)
  | .answered v .computed => some (.ok v)
  | .failed failure => some (.error failure.cause)
  | _ => none

def outcome? : Phase V E → Option (Except E V)
  | .tryPublish v | .writeSlot v | .writeFlag v | .readClock v | .writeStamp v _ => some (.ok v)
  | .unlock reply | .done reply => replyOutcome? reply
  | _ => none

def publishing? : Phase V E → Option V
  | .writeSlot v | .writeFlag v | .readClock v | .writeStamp v _ => some v
  | _ => none

@[simp]
theorem outcome?_contend {q : Query C} {snapshot : Int} :
    outcome? (Call.contend q snapshot : Phase V E) = none := Call.map_contend rfl rfl

theorem cells_eq {entry other : Entry V C} : entry.cells = other.cells ↔
    entry.slot = other.slot ∧ entry.initialized = other.initialized ∧ entry.stamp = other.stamp := by
  simp [cells]

theorem outcome_start (q : Query C) : outcome? (Call.start (.lookup q) : Call V C E).phase = none := by
  cases unlocked : q.isUnlocked <;> simp [Call.start, unlocked, outcome?]

theorem outcome_resumed (q : Query C) (outcome : Except E V) :
    outcome? (Call.resumed q outcome) = some outcome := by
  cases outcome <;> cases unlocked : q.isUnlocked <;> simp [Call.resumed, unlocked, outcome?, replyOutcome?]

theorem outcome_of_publishing {phase : Phase V E} {v : V} (publishing : publishing? phase = some v) :
    outcome? phase = some (.ok v) := by
  cases phase <;> simp_all [publishing?, outcome?]

theorem holds_of_publishing? {request : Request V C} {phase : Phase V E} {v : V}
    (publishing : publishing? phase = some v) : Call.holds request phase = true := by
  cases phase <;> first | rfl | simp [publishing?] at publishing

theorem reply_of_outcome {reply : Reply V E} {outcome : Except E V} (come : replyOutcome? reply = some outcome) :
    reply = ownReply outcome := by
  cases reply with
  | answered v how =>
      cases how <;> simp [replyOutcome?] at come
      subst come
      rfl
  | failed failure =>
      simp only [replyOutcome?, Option.some.injEq] at come
      subst come
      rfl
  | stored | expired | found => simp [replyOutcome?] at come

end ViewCache.Entry

namespace ViewCache.Call

open Entry

variable {V C E : Type} {me : CallId} {now : Int} {q : Query C} {entry after : Entry V C} {phase next : Phase V E}

theorem Advance.outcome_next (advance : Advance me now (.lookup q) entry phase after next)
    (fits : Fits (.lookup q : Request V C) phase) : outcome? next = outcome? phase := by
  cases advance with
  | flagDown | slotEmpty | unstamped | old => exact outcome?_contend
  | storeLocked store => cases store
  | _ => simp_all [outcome?, replyOutcome?, published, Fits, LookupFits]

theorem Advance.publishing_of_changes (advance : Advance me now (.lookup q) entry phase after next)
    (fits : Fits (.lookup q : Request V C) phase)
    (changes : (Event.stepped me now entry phase next : Event V C E).changes = true) :
    ∃ v, publishing? phase = some v := by
  cases advance with
  | writeSlot | writeFlag | writeStamp => exact ⟨_, rfl⟩
  | clearStamp => simp [Fits, LookupFits] at fits
  | _ => simp [Event.changes] at changes

theorem Advance.cells_of_idle {request : Request V C} (advance : Advance me now request entry phase after next)
    (idle : (Event.stepped me now entry phase next : Event V C E).changes = false) :
    after.cells = entry.cells := by
  cases advance <;> first | rfl | simp [Event.changes] at idle

end ViewCache.Call

namespace ViewCache.Entry.Run

open Call (Advance Fits)

variable {V C E : Type} {policy : RefreshPolicy V C} {source : TimeSource} {run next : Run V C E} {id : CallId}

theorem Step.cells {event : Event V C E} (step : Step run event next) (idle : event.changes = false) :
    next.entry.cells = run.entry.cells := by
  cases step with
  | began | returned => rfl
  | stepped _ advance => exact advance.cells_of_idle idle

theorem outcome_of_returned (reaches : (new policy source).Reaches run) {outcome : Except E V}
    (returned : .returned id outcome ∈ run.log) :
    ∃ q phase, run.calls id = some ⟨.lookup q, phase⟩ ∧ outcome? phase = some outcome := by
  revert returned
  refine reaches.rule (P := fun run => .returned id outcome ∈ run.log →
    ∃ q phase, run.calls id = some ⟨.lookup q, phase⟩ ∧ outcome? phase = some outcome) (by simp [new, start]) ?_
  intro run event next reached known step returned
  rw [step.log] at returned
  rcases List.mem_cons.mp returned with rfl | earlier
  · cases step with
    | returned running => exact ⟨_, _, Function.update_self .., outcome_resumed _ outcome⟩
  · obtain ⟨q, phase, running, come⟩ := known earlier
    rcases step.of_running running with ⟨_, still⟩ | ⟨_, _, after, advance, _, moved⟩ | ⟨_, _, _, rfl, _⟩
    · exact ⟨q, phase, still, come⟩
    · have fits := (disciplined_of_new reached).fits _ _ _ running
      exact ⟨q, after, moved, (advance.outcome_next fits).trans come⟩
    · cases come

theorem come_of_returned (reaches : (new policy source).Reaches run) {request : Request V C} {phase : Phase V E}
    (running : run.calls id = some ⟨request, phase⟩) {outcome : Except E V}
    (returned : .returned id outcome ∈ run.log) : outcome? phase = some outcome := by
  obtain ⟨_, _, same, come⟩ := outcome_of_returned reaches returned
  rw [running] at same
  cases same
  exact come

theorem returned_of_outcome (reaches : (new policy source).Reaches run) {q : Query C} {phase : Phase V E}
    {outcome : Except E V} (running : run.calls id = some ⟨.lookup q, phase⟩)
    (come : outcome? phase = some outcome) : .returned id outcome ∈ run.log := by
  refine reaches.each (P := fun run id request phase => request = .lookup q → outcome? phase = some outcome →
    .returned id outcome ∈ run.log) (by simp [new, start]) ?_ ?_ ?_ ?_ running rfl come
  · intro run id request _ _ lookup come
    subst lookup
    simp [outcome_start q] at come
  · intro run id now request phase entry next reached moving advance known lookup come
    subst lookup
    have fits := (disciplined_of_new reached).fits _ _ _ moving
    exact List.mem_cons_of_mem _ (known rfl ((advance.outcome_next fits).symm.trans come))
  · intro run id asked found _ _ _ _ come
    rw [outcome_resumed] at come
    cases come
    exact List.mem_cons_self
  · intro run event next other request phase _ step _ _ known lookup come
    rw [step.log]
    exact List.mem_cons_of_mem event (known lookup come)

theorem own_error (reaches : (new policy source).Reaches run) {request : Request V C} {failure : UpdateFailure E}
    (ended : run.calls id = some ⟨request, .done (.failed failure)⟩) :
    .returned id (.error failure.cause) ∈ run.log := by
  have fits := (disciplined_of_new reaches).fits _ _ _ ended
  cases request with
  | lookup q => exact returned_of_outcome reaches ended rfl
  | store | expire | read => simp [Fits, Call.StoreFits] at fits

theorem started_of_outcome (reaches : (new policy source).Reaches run) {q : Query C} {phase : Phase V E}
    (running : run.calls id = some ⟨.lookup q, phase⟩) (calling : phase = .updating ∨ outcome? phase ≠ none) :
    Started id run.log := by
  refine reaches.each (P := fun run id request phase => request = .lookup q →
    phase = .updating ∨ outcome? phase ≠ none → Started id run.log) (by simp [new, start]) ?_ ?_ ?_ ?_
    running rfl calling
  · intro run id request _ _ lookup calling
    subst lookup
    rcases calling with calling | come
    · cases unlocked : q.isUnlocked <;> simp [Call.start, unlocked] at calling
    · exact absurd (outcome_start q) come
  · intro run id now request phase entry next reached moving advance known lookup calling
    subst lookup
    have fits := (disciplined_of_new reached).fits _ _ _ moving
    rcases calling with calling | come
    · cases advance with
      | callUpdater => exact ⟨_, List.mem_cons_self, by simp [Event.starts]⟩
      | flagDown | slotEmpty | unstamped | old => exact absurd calling (Call.contend_ne (by simp) (by simp))
      | _ => cases calling
    · obtain ⟨event, member, starts⟩ := known rfl (.inr (advance.outcome_next fits ▸ come))
      exact ⟨event, List.mem_cons_of_mem _ member, starts⟩
  · intro run id asked outcome _ _ known lookup _
    obtain ⟨event, member, starts⟩ := known lookup (.inl rfl)
    exact ⟨event, List.mem_cons_of_mem _ member, starts⟩
  · intro run event next other request phase _ step different _ known lookup calling
    rw [step.log, started_of_other different]
    exact known lookup calling

theorem idle_of_unsuccessful (reaches : (new policy source).Reaches run) {q : Query C} {phase : Phase V E}
    (running : run.calls id = some ⟨.lookup q, phase⟩) (unsuccessful : ∀ v, outcome? phase ≠ some (.ok v)) :
    ∀ event ∈ run.log, event.id = id → event.changes = false := by
  refine reaches.each (P := fun run id request phase => request = .lookup q →
    (∀ v, outcome? phase ≠ some (.ok v)) → ∀ event ∈ run.log, event.id = id → event.changes = false)
    (by simp [new, start]) ?_ ?_ ?_ ?_ running rfl unsuccessful
  · intro run id request reached unused _ _ event member mine
    rcases List.mem_cons.mp member with rfl | earlier
    · rfl
    · exact absurd unused (mine ▸ silent reached event earlier)
  · intro run id now request phase entry next reached moving advance known lookup unsuccessful event member mine
    subst lookup
    have fits := (disciplined_of_new reached).fits _ _ _ moving
    rw [advance.outcome_next fits] at unsuccessful
    rcases List.mem_cons.mp member with rfl | earlier
    · by_contra changes
      obtain ⟨v, writing⟩ := advance.publishing_of_changes fits (by simpa using changes)
      exact unsuccessful v (outcome_of_publishing writing)
    · exact known rfl unsuccessful event earlier mine
  · intro run id asked outcome _ _ known lookup _ event member mine
    rcases List.mem_cons.mp member with rfl | earlier
    · rfl
    · exact known lookup (by simp [outcome?]) event earlier mine
  · intro run event next other request phase _ step different _ known lookup unsuccessful found member mine
    rw [step.log] at member
    rcases List.mem_cons.mp member with rfl | earlier
    · exact absurd mine.symm different
    · exact known lookup unsuccessful found earlier mine

end ViewCache.Entry.Run
