import ViewCache.Proofs.Entry.Timeline

namespace ViewCache.Entry

variable {V C E : Type}

def Event.expires : Event V C E → Bool
  | .began _ .expire => true
  | _ => false

def Unexpired (log : List (Event V C E)) : Prop := ∀ event ∈ log, event.expires = false

instance (log : List (Event V C E)) : Decidable (Unexpired log) := List.decidableBAll _ log

/-- Every publish so far was more than the lookup's timeout before `moment`. A negative timeout never
elapses, so there was none. -/
def Due (q : Query C) (moment : Int) (log : List (Event V C E)) : Prop :=
  ∀ publish ∈ publishes log, 0 < q.timeout ∧ publish.2 + q.timeout < moment

def isContended : Phase V E → Bool
  | .tryLock _ | .staleFlag _ | .staleSlot _ | .lock _ | .recheckFlag _ | .recheckStamp _ => true
  | _ => false

def isRefreshing : Phase V E → Bool
  | .callUpdater | .updating | .writeSlot _ | .writeFlag _ | .readClock _ => true
  | _ => false

/-- A lookup publishes nothing before its timeout has passed since every publish so far, and calls its
updater only if no refresh was published since it loaded its snapshot. -/
def RateLimited (event : Event V C E) (older : List (Event V C E)) : Prop :=
  ∀ id (q : Query C), .began id (.lookup q) ∈ older → q.timeout ≠ 0 →
    (∀ stamp, event.publish? = some (id, stamp) →
      (0 < q.timeout → ∀ publish ∈ publishes older, publish.2 + q.timeout < stamp) ∧
        (q.timeout < 0 → publishes older = [])) ∧
    (event.starts id = true → ∀ publish ∈ publishes (since id older), ¬ Refresher publish.1 older)

@[simp]
theorem isRefreshing_contend {q : Query C} {snapshot : Int} :
    isRefreshing (Call.contend q snapshot : Phase V E) = false := Call.map_contend rfl rfl

theorem unexpired_of_cons {event : Event V C E} {log : List (Event V C E)}
    (unexpired : Unexpired (event :: log)) : Unexpired log :=
  fun earlier member => unexpired earlier (List.mem_cons_of_mem event member)

theorem Due.mono {q : Query C} {moment later : Int} {log : List (Event V C E)} (due : Due q moment log)
    (le : moment ≤ later) : Due q later log := by
  intro publish member
  obtain ⟨positive, past⟩ := due publish member
  exact ⟨positive, by omega⟩

theorem Due.cons {q : Query C} {event : Event V C E} {log : List (Event V C E)}
    (due : Due q (ceiling log) log) (idle : event.publish? = none) :
    Due q (ceiling (event :: log)) (event :: log) := by
  have same : publishes (event :: log) = publishes log := by simp [publishes_cons, idle]
  unfold Due
  rw [same]
  exact due.mono (ceiling_mono event log)

theorem due_of_nothing {q : Query C} {moment : Int} {log : List (Event V C E)}
    (nothing : publishes log = []) : Due q moment log := by
  intro publish member
  simp [nothing] at member

namespace Run

open Call (Advance holds Fits Outline)

variable {policy : RefreshPolicy V C} {source : TimeSource} {run : Run V C E}

theorem stamp_kept (reaches : (new policy source).Reaches run) (unexpired : Unexpired run.log)
    (zero : run.entry.stamp = neverPublished) : publishes run.log = [] := by
  revert unexpired zero
  refine reaches.rule (P := fun run => Unexpired run.log → run.entry.stamp = neverPublished →
    publishes run.log = []) (by simp [new, start, publishes]) ?_
  intro run event next reached known step unexpired zero
  rw [step.log] at unexpired
  have before := known (unexpired_of_cons unexpired)
  rw [step.log, publishes_cons]
  cases step with
  | began | returned => exact before zero
  | stepped running advance =>
      have disciplined := disciplined_of_new reached
      cases advance with
      | writeStamp =>
          have outline := (disciplined.outline _ _ _ running).2.2
          simp only [put, neverPublished] at zero
          omega
      | @clearStamp =>
          have began := began_of_running reached running
          rw [Call.expire_of_clearStamp (disciplined.fits _ _ _ running)] at began
          simpa [Event.expires] using unexpired_of_cons unexpired _ began
      | _ => exact before zero

theorem overdue (reaches : (new policy source).Reaches run) {id : CallId} {q : Query C}
    {phase : Phase V E} {snapshot : Int} (running : run.calls id = some ⟨.lookup q, phase⟩)
    (contended : isContended phase = true) (loaded : snapshot? phase = some snapshot)
    (stamped : snapshot ≠ neverPublished) :
    0 < q.timeout ∧ snapshot + q.timeout < ceiling run.log := by
  refine reaches.inside (X := fun phase => isContended phase = true ∧ snapshot? phase = some snapshot)
    (P := fun run _ request => request = .lookup q → 0 < q.timeout ∧ snapshot + q.timeout < ceiling run.log) rfl
    (fun here => inner_of_snapshot here.2) ?_ ?_ running ⟨contended, loaded⟩ rfl
  · intro run id now request phase entry next reached _ running advance known here lookup
    subst lookup
    obtain ⟨contended, loaded⟩ := here
    have disciplined := disciplined_of_new reached
    have outline := disciplined.outline _ _ _ running
    have later (before : isContended phase = true ∧ snapshot? phase = some snapshot) : 0 < q.timeout ∧
        snapshot + q.timeout < ceiling (.stepped id now run.entry phase next :: run.log) := by
      obtain ⟨positive, past⟩ := known before rfl
      exact ⟨positive, Int.lt_of_lt_of_le past (ceiling_mono _ run.log)⟩
    cases advance with
    | @flagDown _ loadedStamp _ down =>
        have same : loadedStamp = snapshot := by simpa using loaded
        -- where a timestamp shows the flag is up
        have up := outline (same ▸ stamped)
        simp [down] at up
    | slotEmpty _ empty => exact absurd empty (disciplined.sound.filled outline)
    | @unstamped _ loadedStamp _ _ _ _ zero =>
        have same : loadedStamp = snapshot := by simpa using loaded
        exact absurd (same ▸ zero) stamped
    | @old q' loadedStamp v lookup elapsed =>
        cases lookup
        have same : loadedStamp = snapshot := by simpa using loaded
        have positive := timeout_pos_of_checkAge reached running
        have read : stampAt now ≤ ceiling (.stepped id now run.entry (.checkAge loadedStamp v)
            (Call.contend q loadedStamp) :: run.log) := reading_le_ceiling run.log rfl
        simp only [stampAt] at read
        simp only [put]
        omega
    | tryFree | tryBusy | staleUp | staleDown | staleEmpty | locked | recheckUp => exact later ⟨rfl, loaded⟩
    | _ => simp [isContended] at contended
  · intro run event next other request phase _ _ step _ _ _ known lookup
    obtain ⟨positive, past⟩ := known lookup
    rw [step.log]
    exact ⟨positive, Int.lt_of_lt_of_le past (ceiling_mono event run.log)⟩

theorem due_of_refreshing (reaches : (new policy source).Reaches run) (steady : Steady run.log)
    (unexpired : Unexpired run.log) {id : CallId} {q : Query C} {phase : Phase V E}
    (running : run.calls id = some ⟨.lookup q, phase⟩) (locked : q.isUnlocked = false)
    (refreshing : isRefreshing phase = true) : Due q (ceiling run.log) run.log := by
  refine reaches.each (P := fun run _ request phase => request = .lookup q → isRefreshing phase = true →
    Steady run.log → Unexpired run.log → Due q (ceiling run.log) run.log) (by simp [new, start])
    ?_ ?_ ?_ ?_ running rfl refreshing steady unexpired
  · intro run id request _ _ lookup refreshing
    subst lookup
    simp [Call.start, locked, isRefreshing] at refreshing
  · intro run id now request phase entry next reached running advance known lookup refreshing steady
      unexpired
    subst lookup
    have before := stamp_kept reached (unexpired_of_cons unexpired)
    have disciplined := disciplined_of_new reached
    have outline := disciplined.outline _ _ _ running
    -- the recheck decides; from there on the call has the lock, and nobody publishes in between
    cases advance with
    | recheckDown down =>
        refine (due_of_nothing (before ?_)).cons rfl
        by_contra stamped
        simp [disciplined.sound.stamped stamped] at down
    | @unrefreshed snapshot same =>
        refine Due.cons ?_ rfl
        by_cases zero : run.entry.stamp = neverPublished
        · exact due_of_nothing (before zero)
        · have equal : snapshot = run.entry.stamp := same.resolve_right zero
          obtain ⟨positive, past⟩ := overdue reached running rfl rfl (equal ▸ zero)
          intro publish member
          have bound := publishes_le_stamp reached (steady_of_cons steady) zero publish member
          exact ⟨positive, by omega⟩
    | coalesceDown down =>
        simp only [Outline, down] at outline
        cases outline
    | coalesceEmpty empty => exact absurd empty (disciplined.sound.filled outline)
    | callUpdater | writeSlot | writeFlag =>
        exact (known rfl rfl (steady_of_cons steady) (unexpired_of_cons unexpired)).cons rfl
    | publishFree =>
        have unlocked := disciplined.fits _ _ _ running
        simp [Fits, Call.LookupFits, locked] at unlocked
    | storeLocked store => cases store
    | flagDown | slotEmpty | unstamped | old => simp at refreshing
    | _ => simp [isRefreshing] at refreshing
  · intro run id q' outcome _ _ known lookup refreshing steady unexpired
    exact (known lookup rfl (steady_of_cons steady) (unexpired_of_cons unexpired)).cons rfl
  · intro run event next other request phase reached step different running known lookup refreshing
      steady unexpired
    subst lookup
    have held : holds (.lookup q : Request V C) phase = true := by
      cases phase <;> simp_all [isRefreshing, holds]
    have idle := (step.idle_of_holds reached running held different).2
    rw [step.log] at steady unexpired ⊢
    exact (known rfl refreshing (steady_of_cons steady) (unexpired_of_cons unexpired)).cons idle

theorem due_of_pending (reaches : (new policy source).Reaches run) (steady : Steady run.log)
    (unexpired : Unexpired run.log) {id : CallId} {q : Query C} {v : V} {stamp : Int}
    (running : run.calls id = some ⟨.lookup q, .writeStamp v stamp⟩) (locked : q.isUnlocked = false) :
    Due q stamp run.log := by
  refine reaches.inside (X := fun phase => phase = .writeStamp v stamp)
    (P := fun run _ request => request = .lookup q → Steady run.log → Unexpired run.log → Due q stamp run.log)
    rfl (fun same => same ▸ rfl) ?_ ?_ running rfl rfl steady unexpired
  · intro run id now request phase entry next reached _ moving advance _ pending lookup steady unexpired
    obtain ⟨rfl, _, rfl⟩ := advance.clock_read pending
    subst lookup pending
    exact (due_of_refreshing reached (steady_of_cons steady) (unexpired_of_cons unexpired) moving
      locked rfl).mono (ceiling_le_of_steady steady rfl)
  · intro run event next other request phase reached _ step different running pending known lookup steady
      unexpired
    subst lookup pending
    have idle := (step.idle_of_holds reached running rfl different).2
    have same : publishes next.log = publishes run.log := by simp [step.log, publishes_cons, idle]
    rw [step.log] at steady unexpired
    unfold Due
    rw [same]
    exact known rfl (steady_of_cons steady) (unexpired_of_cons unexpired)

theorem refresher_of_cons {next : Run V C E} {event : Event V C E}
    (reaches : (new policy source).Reaches run) (step : Step run event next) {id : CallId} {stamp : Int}
    (published : (id, stamp) ∈ publishes run.log) (refresher : Refresher id (event :: run.log)) :
    Refresher id run.log := by
  obtain ⟨q, began, locked⟩ := refresher
  refine ⟨q, ?_, locked⟩
  rcases List.mem_cons.mp began with rfl | began
  · obtain ⟨request, phase, running, _⟩ := over_of_published reaches published
    cases step with
    | began unused => simp [unused] at running
  · exact began

theorem refreshed_later (reaches : (new policy source).Reaches run) (steady : Steady run.log)
    (unexpired : Unexpired run.log) {id : CallId} {request : Request V C} {phase : Phase V E}
    {snapshot : Int} (running : run.calls id = some ⟨request, phase⟩)
    (loaded : snapshot? phase = some snapshot) :
    ∀ publish ∈ publishes (since id run.log), Refresher publish.1 run.log → snapshot < publish.2 := by
  refine reaches.inside (X := fun phase => snapshot? phase = some snapshot) (P := fun run id _ =>
    Steady run.log → Unexpired run.log → ∀ publish ∈ publishes (since id run.log),
      Refresher publish.1 run.log → snapshot < publish.2) rfl inner_of_snapshot ?_ ?_ running loaded steady
      unexpired
  · intro run id now request phase entry next reached _ moving advance known loaded steady unexpired publish
      member refresher
    obtain ⟨_, ⟨rfl, _⟩ | ⟨before, still⟩⟩ := snapshot_of_next advance loaded
    · simp [put, since_cons, Event.loads, publishes] at member
    · have earlier := (congrArg (publish ∈ ·) (still run.log)).mp member
      exact known before (steady_of_cons steady) (unexpired_of_cons unexpired) publish earlier
        (refresher_of_cons reached (.stepped moving advance) (mem_publishes_since earlier) refresher)
  · intro run event next other request phase reached _ step different waiting loaded known steady unexpired
      publish member refresher
    rw [step.log] at steady unexpired refresher
    rw [step.log, since_of_other different, publishes_cons, List.mem_append] at member
    rcases member with now | earlier
    · cases step with
      | began | returned => simp [Event.publish?] at now
      | @stepped id now request' phase' entry after moving advance =>
          cases advance <;> simp [Event.publish?] at now
          subst now
          obtain ⟨q, began, locked⟩ := refresher
          obtain ⟨_, same⟩ := running_of_began reached (by simpa using began)
          rw [moving] at same
          cases same
          have due := due_of_pending reached (steady_of_cons steady) (unexpired_of_cons unexpired) moving
            locked
          have positive := ((disciplined_of_new reached).outline _ _ _ moving).2.2
          -- this publish was due, which is to say later than all before, the snapshot's own among them
          by_cases zero : snapshot = neverPublished
          · simp only [zero, neverPublished]
            omega
          · obtain ⟨publish, member, equal⟩ := snapshot_published reached waiting loaded zero
            obtain ⟨_, past⟩ := due publish member
            simp only
            omega
    · exact known (steady_of_cons steady) (unexpired_of_cons unexpired) publish earlier
        (refresher_of_cons reached step (mem_publishes_since earlier) refresher)

theorem unrefreshed_of_callUpdater (reaches : (new policy source).Reaches run) (steady : Steady run.log)
    (unexpired : Unexpired run.log) {id : CallId} {q : Query C}
    (running : run.calls id = some ⟨.lookup q, .callUpdater⟩) (locked : q.isUnlocked = false) :
    ∀ publish ∈ publishes (since id run.log), ¬ Refresher publish.1 run.log := by
  refine reaches.each (P := fun run id request phase => request = .lookup q → phase = .callUpdater →
    Steady run.log → Unexpired run.log → ∀ publish ∈ publishes (since id run.log),
      ¬ Refresher publish.1 run.log) (by simp [new, start]) ?_ ?_ ?_ ?_ running rfl rfl steady unexpired
  · intro run id request _ _ lookup calling
    subst lookup
    simp [Call.start, locked] at calling
  · intro run id now request phase entry next reached moving advance _ lookup calling steady unexpired
      publish member refresher
    subst lookup
    have disciplined := disciplined_of_new reached
    have outline := disciplined.outline _ _ _ moving
    have before := stamp_kept reached (unexpired_of_cons unexpired)
    have still : publishes (since id (.stepped id now run.entry phase next :: run.log)) =
        publishes (since id run.log) := by
      cases advance <;> simp [since_cons, publishes_cons, Event.loads, Event.publish?] at calling ⊢
    have earlier : publish ∈ publishes (since id run.log) := still ▸ member
    have nothing (zero : run.entry.stamp = neverPublished) : False := by
      have none := mem_publishes_since earlier
      rw [before zero] at none
      cases none
    cases advance with
    | recheckDown down =>
        refine nothing ?_
        by_contra stamped
        simp [disciplined.sound.stamped stamped] at down
    | @unrefreshed snapshot same =>
        by_cases zero : run.entry.stamp = neverPublished
        · exact nothing zero
        · have equal : snapshot = run.entry.stamp := same.resolve_right zero
          -- a refresh since the snapshot would be stamped after it, and the stamp is still the snapshot
          have later := refreshed_later reached (steady_of_cons steady) (unexpired_of_cons unexpired) moving
            rfl publish earlier (refresher_of_cons reached (.stepped moving (.unrefreshed same))
              (mem_publishes_since earlier) refresher)
          have bound := publishes_le_stamp reached (steady_of_cons steady) zero publish
            (mem_publishes_since earlier)
          omega
    | coalesceDown down =>
        simp only [Outline, down] at outline
        cases outline
    | coalesceEmpty empty => exact absurd empty (disciplined.sound.filled outline)
    | flagDown | slotEmpty | unstamped | old => exact absurd calling (Call.contend_ne (by simp) (by simp))
    | _ => simp at calling
  · intro run id q' outcome _ _ _ _ calling
    cases outcome <;> cases unlocked : q'.isUnlocked <;> simp [Call.resumed, unlocked] at calling
  · intro run event next other request phase reached step different waiting known lookup calling steady
      unexpired publish member refresher
    subst lookup calling
    have idle := (step.idle_of_holds reached waiting (by simp [holds, locked]) different).2
    rw [step.log] at steady unexpired refresher
    rw [step.log, since_of_other different, publishes_cons, idle] at member
    have earlier : publish ∈ publishes (since other run.log) := by simpa using member
    exact known rfl rfl (steady_of_cons steady) (unexpired_of_cons unexpired) publish earlier
      (refresher_of_cons reached step (mem_publishes_since earlier) refresher)

/-- While nobody expires the entry and the clock does not go back, refreshes keep the distance that their
callers ask for, however the calls come between each other. -/
theorem refreshes_are_rate_limited (reaches : (new policy source).Reaches run) (steady : Steady run.log)
    (unexpired : Unexpired run.log) : Always RateLimited run.log := by
  revert steady unexpired
  refine reaches.rule (P := fun run => Steady run.log → Unexpired run.log → Always RateLimited run.log)
    (fun _ _ => always_nil _) ?_
  intro run event next reached known step steady unexpired
  rw [step.log] at steady unexpired ⊢
  have before := steady_of_cons steady
  have kept := unexpired_of_cons unexpired
  refine always_cons ?_ (known before kept)
  intro id q began nonzero
  have locked : q.isUnlocked = false := by simpa [Query.isUnlocked, Timeout.never] using nonzero
  obtain ⟨_, waiting⟩ := running_of_began reached began
  constructor
  · intro stamp published
    cases step with
    | began | returned => simp [Event.publish?] at published
    | stepped moving advance =>
        cases advance <;> simp [Event.publish?] at published
        obtain ⟨rfl, rfl⟩ := published
        rw [moving] at waiting
        cases waiting
        have due := due_of_pending reached before kept moving locked
        constructor
        · intro _ publish member
          exact (due publish member).2
        · intro negative
          refine List.eq_nil_iff_forall_not_mem.mpr ?_
          intro publish member
          -- any publish so far would have made the timeout a positive one
          have positive := (due publish member).1
          omega
  · intro starts
    cases step with
    | began | returned => simp [Event.starts] at starts
    | stepped moving advance =>
        cases advance <;> simp [Event.starts] at starts
        subst starts
        rw [moving] at waiting
        cases waiting
        exact unrefreshed_of_callUpdater reached before kept moving locked

/-- Two refreshes and, between them, a caller that waits for the first one. -/
def twoRefreshes : List (Move Nat Unit Unit) :=
  let query : Query Unit := { context := (), timeout := 10, tolerant := false }
  List.flatten [[.invoke 1 (.lookup query)], List.replicate 5 (.step 1 100),
    [.invoke 2 (.lookup query)], List.replicate 2 (.step 2 100),
    [.resume 1 (.ok 7)], List.replicate 5 (.step 1 100), List.replicate 6 (.step 2 101),
    [.invoke 3 (.lookup query)], List.replicate 8 (.step 3 150),
    [.resume 3 (.ok 8)], List.replicate 5 (.step 3 150)]

theorem two_refreshes_keep_their_distance : ∃ run : Run Nat Unit Unit,
    (new .timed .wall).follow? twoRefreshes = some run ∧ Steady run.log ∧ Unexpired run.log ∧
      publishes run.log = [(3, 150), (1, 100)] ∧ Always RateLimited run.log := by
  have computed : ((new .timed .wall).follow? twoRefreshes).map (fun run : Run Nat Unit Unit =>
      (decide (Steady run.log), decide (Unexpired run.log), publishes run.log)) =
      some (true, true, [(3, 150), (1, 100)]) := by
    decide
  obtain ⟨run, followed, facts⟩ := Option.map_eq_some_iff.mp computed
  simp only [Prod.mk.injEq, decide_eq_true_eq] at facts
  obtain ⟨steady, unexpired, published⟩ := facts
  exact ⟨run, followed, steady, unexpired, published,
    refreshes_are_rate_limited (.of_follow followed) steady unexpired⟩

end Run

end ViewCache.Entry
