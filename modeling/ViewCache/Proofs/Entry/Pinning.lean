import ViewCache.Proofs.Entry.Provenance
import ViewCache.Proofs.Entry.RateLimit

/-!
When a pinned value is recomputed. Whether a value is pinned is asked before the lock, and the recheck under
the lock looks at timestamps alone.
-/
namespace ViewCache.Entry

variable {V C E : Type}

namespace Event

def checks (id : CallId) : Event V C E → Bool
  | .stepped me _ _ (.loadFlag _) _ | .stepped me _ _ (.readSlot _) _ => me == id
  | _ => false

def clears : Event V C E → Bool
  | .stepped _ _ _ .clearStamp _ => true
  | _ => false

def loaded? (id : CallId) : Event V C E → Option Int
  | .stepped me _ seen .loadStamp _ => if me = id then some seen.stamp else none
  | _ => none

def written? : Event V C E → Option V
  | .stepped _ _ _ (.writeSlot v) _ => some v
  | _ => none

end Event

def sinceCheck (id : CallId) (log : List (Event V C E)) : List (Event V C E) :=
  log.takeWhile fun event => !event.checks id

def loaded? (id : CallId) (log : List (Event V C E)) : Option Int := log.findSome? (Event.loaded? id)

def slotValue (log : List (Event V C E)) : Option V := log.findSome? Event.written?

/-- The publish was the last one when the entry was expired. -/
def ExpiredAfter (publish : CallId × Int) (log : List (Event V C E)) : Prop :=
  Once (fun event older => event.clears = true ∧ (publishes older).head? = some publish) log

/-- Since the lookup's freshness check, a value was published that is pinned for its context, and the
timestamp did not tell the lookup so: the entry was expired after that publish, or the publish has the very
timestamp that the lookup had loaded before. -/
def Overtaken (policy : RefreshPolicy V C) (log : List (Event V C E)) (id : CallId) (q : Query C) : Prop :=
  ∃ v writer stamp, slotValue log = some v ∧ policy.isPinned v q.context = true ∧ Yields writer v log ∧
    (publishes log).head? = some (writer, stamp) ∧ (writer, stamp) ∈ publishes (sinceCheck id log) ∧
    (loaded? id log = some stamp ∨ ExpiredAfter (writer, stamp) log)

def hasChecked : Phase V E → Bool
  | .checkAge .. => true
  | phase => isContended phase

theorem inner_of_checked {phase : Phase V E} (checked : hasChecked phase = true) : Call.isEntry phase = false := by
  cases phase <;> simp [hasChecked, isContended] at checked <;> rfl

theorem quiet_of_checked {phase : Phase V E} (checked : hasChecked phase = true) (id : CallId) (now : Int)
    (seen : Entry V C) (next : Phase V E) :
    let event : Event V C E := .stepped id now seen phase next
    event.writer? = none ∧ event.publish? = none ∧ event.checks id = false ∧ event.loads id = false := by
  cases phase <;> simp [hasChecked, isContended] at checked <;> exact ⟨rfl, rfl, rfl, rfl⟩

theorem sinceCheck_cons (id : CallId) (event : Event V C E) (log : List (Event V C E)) :
    sinceCheck id (event :: log) = if event.checks id then [] else event :: sinceCheck id log := by
  cases found : event.checks id <;> simp [sinceCheck, found]

theorem Event.unchecked_of_other {id : CallId} {event : Event V C E} (other : id ≠ event.id) :
    event.checks id = false ∧ event.loaded? id = none := by
  have different : event.id ≠ id := Ne.symm other
  cases event with
  | stepped me now seen before after =>
      cases before <;> simp_all [Event.checks, Event.loaded?, Event.id]
  | returned | began => exact ⟨rfl, rfl⟩

theorem loaded?_cons {id : CallId} {event : Event V C E} (silent : event.loaded? id = none)
    (log : List (Event V C E)) : loaded? id (event :: log) = loaded? id log := by
  simp [loaded?, silent]

theorem slotValue_cons (event : Event V C E) (log : List (Event V C E)) :
    slotValue (event :: log) = event.written?.or (slotValue log) := by
  cases found : event.written? <;> simp [slotValue, found]

theorem Overtaken.cons {policy : RefreshPolicy V C} {log : List (Event V C E)} {id : CallId} {q : Query C}
    {event : Event V C E} (overtaken : Overtaken policy log id q)
    (unchecked : event.checks id = false ∧ event.loaded? id = none) (unwritten : event.writer? = none)
    (unpublished : event.publish? = none) : Overtaken policy (event :: log) id q := by
  obtain ⟨v, writer, stamp, held, pinned, yields, last, recent, hidden⟩ := overtaken
  have unmoved : event.written? = none := by
    cases event with
    | stepped _ _ _ before _ => cases before <;> simp_all [Event.writer?, Event.written?]
    | began | returned => rfl
  refine ⟨v, writer, stamp, ?_, pinned, Run.yields_cons event yields, ?_, ?_, ?_⟩
  · simpa [slotValue_cons, unmoved] using held
  · simpa [publishes_cons, unpublished] using last
  · simpa [sinceCheck_cons, unchecked.1, publishes_cons, unpublished] using recent
  · rw [loaded?_cons unchecked.2]
    exact hidden.imp_right (·.later event)

namespace Run

open Call (Advance holds Fits Outline)

variable {policy : RefreshPolicy V C} {source : TimeSource} {run : Run V C E}

theorem slot_eq (reaches : (new policy source).Reaches run) : run.entry.slot = slotValue run.log := by
  refine reaches.rule (P := fun run => run.entry.slot = slotValue run.log) rfl ?_
  intro run event next _ same step
  rw [step.log, slotValue_cons]
  cases step with
  | began | returned => exact same
  | stepped running advance => cases advance <;> first | rfl | exact same

theorem expired_of_zero (reaches : (new policy source).Reaches run) (zero : run.entry.stamp = neverPublished)
    {publish : CallId × Int} (last : (publishes run.log).head? = some publish) :
    ExpiredAfter publish run.log := by
  revert zero last
  refine reaches.rule (P := fun run => run.entry.stamp = neverPublished →
    (publishes run.log).head? = some publish → ExpiredAfter publish run.log)
    (by simp [new, start, publishes]) ?_
  intro run event next reached known step zero last
  rw [step.log, publishes_cons] at last
  rw [step.log]
  cases step with
  | began | returned => exact (known zero last).later _
  | stepped running advance =>
      cases advance with
      | writeStamp =>
          have positive := ((disciplined_of_new reached).outline _ _ _ running).2.2
          simp only [put, neverPublished] at zero
          omega
      | clearStamp => exact once_cons ⟨rfl, last⟩
      | _ => exact (known zero last).later _

theorem loaded_of_snapshot (reaches : (new policy source).Reaches run) {id : CallId} {request : Request V C}
    {phase : Phase V E} {snapshot : Int} (running : run.calls id = some ⟨request, phase⟩)
    (loaded : snapshot? phase = some snapshot) : loaded? id run.log = some snapshot := by
  refine reaches.inside (X := fun phase => snapshot? phase = some snapshot)
    (P := fun run id _ => loaded? id run.log = some snapshot) rfl inner_of_snapshot ?_ ?_ running loaded
  · intro run id now request phase entry next _ _ _ advance known loaded
    cases advance with
    | loadStamp =>
        cases loaded
        simp [put, loaded?, Event.loaded?]
    | flagDown | slotEmpty | unstamped | old =>
        rw [snapshot?_contend] at loaded
        exact known loaded
    | _ => first | exact known loaded | simp [snapshot?] at loaded
  · intro run event next other request phase _ _ step different _ _ known
    rw [step.log, loaded?_cons (Event.unchecked_of_other different).2, known]

theorem recent_of_pinned (reaches : (new policy source).Reaches run) {id : CallId} {q : Query C}
    {phase : Phase V E} (running : run.calls id = some ⟨.lookup q, phase⟩) (checked : hasChecked phase = true)
    {v : V} (held : run.entry.slot = some v) (pinned : policy.isPinned v q.context = true)
    {writer : CallId} {stamp : Int} (written : slotWriter run.log = some writer)
    (published : (writer, stamp) ∈ publishes run.log) :
    (writer, stamp) ∈ publishes (sinceCheck id run.log) ∧ (writer, stamp) ∈ publishes (since id run.log) := by
  refine reaches.inside (X := fun phase => hasChecked phase = true)
    (P := fun run id request => request = .lookup q → run.entry.slot = some v →
      slotWriter run.log = some writer → (writer, stamp) ∈ publishes run.log →
      (writer, stamp) ∈ publishes (sinceCheck id run.log) ∧ (writer, stamp) ∈ publishes (since id run.log))
    rfl inner_of_checked ?_ ?_ running checked rfl held written published
  · intro run id now request phase entry next reached _ moving advance known checked lookup held written published
    subst lookup
    have disciplined := disciplined_of_new reached
    have outline := disciplined.outline _ _ _ moving
    have unpinned {w : V} (found : run.entry.slot = some w) (same : entry.slot = run.entry.slot)
        (free : run.entry.policy.isPinned w q.context = false) : False := by
      have equal : w = v := Option.some.inj (found.symm.trans (same.symm.trans held))
      rw [policy_fixed reached, equal, pinned] at free
      cases free
    have before (already : hasChecked phase = true) (same : entry.slot = run.entry.slot) :
        (writer, stamp) ∈ publishes (sinceCheck id (.stepped id now run.entry phase next :: run.log)) ∧
          (writer, stamp) ∈ publishes (since id (.stepped id now run.entry phase next :: run.log)) := by
      obtain ⟨unwritten, unpublished, unchecked, unloaded⟩ :=
        quiet_of_checked already id now run.entry next
      simp only [put, slotWriter_cons, publishes_cons, unwritten, unpublished] at written published
      simpa [sinceCheck_cons, since_cons, publishes_cons, unpublished, unchecked, unloaded] using
        known already rfl (same ▸ held) written published
    cases advance with
    | flagDown _ down =>
        have up := initialized_of_published reached (List.ne_nil_of_mem published)
        simp [down] at up
    | slotEmpty _ empty => exact absurd empty (disciplined.sound.filled outline)
    | unstamped lookup found free | aging lookup found free =>
        cases lookup
        exact (unpinned found rfl free).elim
    | old | tryFree | tryBusy | staleUp | staleDown | staleEmpty | locked | recheckUp => exact before rfl rfl
    | _ => simp [hasChecked, isContended] at checked
  · intro run event next other request phase reached _ step different _ _ known lookup held written published
    have unchecked := (Event.unchecked_of_other different).1
    rw [step.log, sinceCheck_cons, if_neg (by simp [unchecked]), since_of_other different, publishes_cons,
      publishes_cons, List.mem_append, List.mem_append]
    rw [step.log, slotWriter_cons] at written
    rw [step.log, publishes_cons, List.mem_append] at published
    rcases published with now | earlier
    · exact ⟨.inl now, .inl now⟩
    · have wider (same : run.entry.slot = some v) (idle : event.writer? = none) :
          (writer, stamp) ∈ publishes (sinceCheck other run.log) ∧
            (writer, stamp) ∈ publishes (since other run.log) :=
        known lookup same (by simpa [idle] using written) earlier
      cases step with
      | began | returned => exact (wider held rfl).imp .inr .inr
      | stepped moving advance =>
          cases advance with
          | writeSlot =>
              -- a call that is still to write the slot has not published
              simp only [Event.writer?, Option.some_or, Option.some.injEq] at written
              subst written
              obtain ⟨_, _, running, ended⟩ := over_of_published reached earlier
              rw [moving] at running
              cases running
              simp [isOver] at ended
          | _ => exact (wider held rfl).imp .inr .inr

/-- A pinned value that the recheck under the lock takes for unrefreshed was published after the lookup had
checked, and did not show in the timestamp. -/
theorem overtaken_at_recheck (reaches : (new policy source).Reaches run) {id : CallId} {q : Query C} {snapshot : Int}
    (running : run.calls id = some ⟨.lookup q, .recheckStamp snapshot⟩)
    (same : snapshot = run.entry.stamp ∨ run.entry.stamp = neverPublished) {v : V} (held : run.entry.slot = some v)
    (pinned : policy.isPinned v q.context = true) :
    Overtaken policy run.log id q ∧ publishes (since id run.log) ≠ [] := by
  obtain ⟨writer, stamp, written, yields, last⟩ := published_of_holds reaches running rfl rfl held
  obtain ⟨recent, sinceLoad⟩ :=
    recent_of_pinned reaches running rfl held pinned written (List.mem_of_mem_head? last)
  have value : slotValue run.log = some v := (slot_eq reaches).symm.trans held
  refine ⟨⟨v, writer, stamp, value, pinned, yields, last, recent, ?_⟩, List.ne_nil_of_mem sinceLoad⟩
  by_cases zero : run.entry.stamp = neverPublished
  · exact .inr (expired_of_zero reaches zero last)
  · obtain ⟨_, current⟩ := stamp_current reaches zero
    have shown : stamp = run.entry.stamp := congrArg Prod.snd (Option.some.inj (last.symm.trans current))
    rw [shown, ← same.resolve_right zero]
    exact .inl (loaded_of_snapshot reaches running rfl)

theorem overtaken_of_pinned (reaches : (new policy source).Reaches run) {id : CallId} {q : Query C}
    (running : run.calls id = some ⟨.lookup q, .callUpdater⟩) (locked : q.isUnlocked = false) {v : V}
    (held : run.entry.slot = some v) (pinned : policy.isPinned v q.context = true) :
    Overtaken policy run.log id q ∧ publishes (since id run.log) ≠ [] := by
  refine reaches.each (P := fun run id request phase => request = .lookup q → phase = .callUpdater →
    run.entry.slot = some v → Overtaken policy run.log id q ∧ publishes (since id run.log) ≠ [])
    (by simp [new, start]) ?_ ?_ ?_ ?_ running rfl rfl held
  · intro run id request _ _ lookup calling
    subst lookup
    simp [Call.start, locked] at calling
  · intro run id now request phase entry next reached moving advance _ lookup calling held
    subst lookup
    have disciplined := disciplined_of_new reached
    have outline := disciplined.outline _ _ _ moving
    cases advance with
    | recheckDown down =>
        obtain ⟨writer, stamp, _, _, last⟩ := published_of_holds reached moving rfl rfl held
        have up := initialized_of_published reached (List.ne_nil_of_mem (List.mem_of_mem_head? last))
        simp [down] at up
    | unrefreshed same =>
        obtain ⟨overtaken, published⟩ := overtaken_at_recheck reached moving same held pinned
        refine ⟨overtaken.cons ⟨rfl, rfl⟩ rfl rfl, ?_⟩
        simpa [put, since_cons, publishes_cons, Event.loads, Event.publish?] using published
    | coalesceDown down =>
        simp only [Outline, down] at outline
        cases outline
    | coalesceEmpty empty => simp [put, empty] at held
    | flagDown | slotEmpty | unstamped | old => exact absurd calling (Call.contend_ne (by simp) (by simp))
    | _ => simp at calling
  · intro run id q' outcome _ _ _ _ calling
    cases outcome <;> cases unlocked : q'.isUnlocked <;> simp [Call.resumed, unlocked] at calling
  · intro run event next other request phase reached step different waiting known lookup calling held
    subst lookup calling
    have holding : holds (.lookup q : Request V C) (.callUpdater : Phase V E) = true := by simp [holds, locked]
    obtain ⟨unwritten, unpublished⟩ := step.idle_of_holds reached waiting holding different
    obtain ⟨overtaken, published⟩ := known rfl rfl
      ((step.slot_of_holds reached waiting holding different).symm.trans held)
    rw [step.log]
    refine ⟨overtaken.cons (Event.unchecked_of_other different) unwritten unpublished, ?_⟩
    simpa [since_of_other different, publishes_cons, unpublished] using published

def PinsHeeded (policy : RefreshPolicy V C) (event : Event V C E) (older : List (Event V C E)) : Prop :=
  ∀ id now seen (q : Query C), event = .stepped id now seen .callUpdater .updating →
    .began id (.lookup q) ∈ older → q.timeout ≠ 0 →
    ((∃ v, seen.slot = some v ∧ policy.isPinned v q.context = true) ↔ Overtaken policy older id q) ∧
      (Steady older → Unexpired older → (∀ publish ∈ publishes (since id older), Refresher publish.1 older) →
        ∀ v, seen.slot = some v → policy.isPinned v q.context = false)

/-- A lookup calls its updater over a pinned value exactly if it was overtaken by the publish of that value.
Without forced expiry, direct publishes and clocks that go back there is no such publish. -/
theorem pinned_recomputed_iff_overtaken (reaches : (new policy source).Reaches run) :
    Always (PinsHeeded policy) run.log := by
  refine reaches.rule (P := fun run => Always (PinsHeeded policy) run.log) (always_nil _) ?_
  intro run event next reached known step
  rw [step.log]
  refine always_cons ?_ known
  intro id now seen q starts began nonzero
  have locked : q.isUnlocked = false := by simpa [Query.isUnlocked, Timeout.never] using nonzero
  obtain ⟨_, waiting⟩ := running_of_began reached began
  subst starts
  cases step with
  | stepped moving advance =>
      rw [moving] at waiting
      cases waiting
      constructor
      · constructor
        · rintro ⟨v, held, pinned⟩
          exact (overtaken_of_pinned reached moving locked held pinned).1
        · rintro ⟨v, _, _, value, pinned, _⟩
          exact ⟨v, (slot_eq reached).trans value, pinned⟩
      · intro steady unexpired refreshers v held
        by_contra pinned
        have published := (overtaken_of_pinned reached moving locked held (by simpa using pinned)).2
        obtain ⟨publish, member⟩ := List.exists_mem_of_ne_nil _ published
        exact unrefreshed_of_callUpdater reached steady unexpired moving locked publish member
          (refreshers publish member)

def pinNegative : RefreshPolicy Int Unit := .pinWhen fun v _ => v < 0

/-- A lookup waits for a refresh that publishes a pinned value. The clock has gone back meanwhile, to the time
of the publish before, so that the lookup takes the entry for unrefreshed. -/
def refreshAtSameTime : List (Move Int Unit Unit) :=
  List.flatten [[.invoke 1 (.lookup ⟨(), 10, false⟩)], List.replicate 5 (.step 1 100),
    [.resume 1 (.ok 5)], List.replicate 5 (.step 1 100),
    [.invoke 2 (.lookup ⟨(), 10, false⟩)], List.replicate 8 (.step 2 1000),
    [.invoke 3 (.lookup ⟨(), 10, false⟩)], List.replicate 4 (.step 3 1000),
    [.resume 2 (.ok (-1))], List.replicate 5 (.step 2 100), List.replicate 4 (.step 3 100)]

def pinnedEntry : Entry Int Unit :=
  { slot := some (-1), initialized := true, stamp := 100, holder := some 3, policy := pinNegative,
    source := .manual }

theorem overtaken_at_same_time : ∃ run : Run Int Unit Unit, ∃ older,
    (new pinNegative .manual).follow? refreshAtSameTime = some run ∧
      run.log = .stepped 3 100 pinnedEntry .callUpdater .updating :: older ∧
      .began 3 (.lookup ⟨(), 10, false⟩) ∈ older := by
  have computed : ((new pinNegative .manual).follow? refreshAtSameTime).map (fun run : Run Int Unit Unit =>
      (run.log.head?, run.calls 3)) =
      some (some (.stepped 3 100 pinnedEntry .callUpdater .updating),
        some ⟨.lookup ⟨(), 10, false⟩, .updating⟩) := by
    rfl
  obtain ⟨run, followed, facts⟩ := Option.map_eq_some_iff.mp computed
  simp only [Prod.mk.injEq] at facts
  obtain ⟨newest, running⟩ := facts
  obtain ⟨older, log⟩ := List.head?_eq_some_iff.mp newest
  have began := began_of_running (.of_follow followed) running
  rw [log] at began
  exact ⟨run, older, followed, log, by simpa using began⟩

/-- A lookup calls its updater although the slot holds a value that is pinned for it. -/
theorem pinned_value_recomputed : ∃ run : Run Int Unit Unit, ∃ older,
    (new pinNegative .manual).follow? refreshAtSameTime = some run ∧
      run.log = .stepped 3 100 pinnedEntry .callUpdater .updating :: older ∧
      .began 3 (.lookup ⟨(), 10, false⟩) ∈ older ∧
      pinnedEntry.slot = some (-1) ∧ pinNegative.isPinned (-1) () = true := by
  obtain ⟨run, older, followed, log, began⟩ := overtaken_at_same_time
  exact ⟨run, older, followed, log, began, rfl, rfl⟩

theorem pinned_recomputed_when_overtaken : ∃ run : Run Int Unit Unit, ∃ older,
    (new pinNegative .manual).follow? refreshAtSameTime = some run ∧
      run.log = .stepped 3 100 pinnedEntry .callUpdater .updating :: older ∧
      Overtaken pinNegative older 3 ⟨(), 10, false⟩ := by
  obtain ⟨run, older, followed, log, began⟩ := overtaken_at_same_time
  have heeded := pinned_recomputed_iff_overtaken (.of_follow followed) [] _ older log 3 100 pinnedEntry
    ⟨(), 10, false⟩ rfl began (by decide)
  exact ⟨run, older, followed, log, heeded.1.mp ⟨-1, rfl, rfl⟩⟩

end Run

end ViewCache.Entry
