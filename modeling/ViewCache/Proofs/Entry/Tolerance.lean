import ViewCache.Proofs.Entry.Handover
import ViewCache.Proofs.Entry.Representation

namespace ViewCache.Entry

variable {V C E : Type}

/-- When the lookup gave up trying for the lock, it had found that nothing was published so far. -/
def FoundNothing (id : CallId) (log : List (Event V C E)) : Prop :=
  Once (fun event older => ∃ now seen loaded, event = .stepped id now seen (.staleFlag loaded) (.lock loaded) ∧
    seen.initialized = false ∧ publishes older = []) log

theorem inner_of_waiting {phase : Phase V E} {snapshot : Int} (waits : phase = .lock snapshot) :
    Call.isEntry phase = false := by
  subst waits
  rfl

theorem unstarted_of_outrun {phase : Phase V E} (outrun : isOutrun phase = true) : isUnstarted phase = true := by
  cases phase with
  | staleFlag | staleSlot => rfl
  | done reply =>
      cases reply with
      | answered v how =>
          cases how <;> simp [isOutrun] at outrun
          rfl
      | _ => simp [isOutrun] at outrun
  | _ => simp [isOutrun] at outrun

theorem ungranted_of_outrun {phase : Phase V E} (outrun : isOutrun phase = true) : isGranted phase = false := by
  cases phase with
  | staleFlag | staleSlot => rfl
  | done reply =>
      cases reply with
      | answered v how =>
          cases how <;> simp [isOutrun] at outrun
          rfl
      | _ => simp [isOutrun] at outrun
  | _ => simp [isOutrun] at outrun

end ViewCache.Entry

namespace ViewCache.Call

open Entry

variable {V C E : Type} {me : CallId} {now : Int} {q : Query C} {entry after : Entry V C} {phase next : Phase V E}

theorem Advance.unpublished_of_waiting (advance : Advance me now (.lookup q) entry phase after next)
    (tolerant : q.tolerant = true) (outline : Outline entry phase) (sound : entry.Sound)
    (waits : waitsForLock next = true) :
    ∃ loaded, phase = .staleFlag loaded ∧ next = .lock loaded ∧ entry.initialized = false := by
  cases advance with
  | flagDown lookup | slotEmpty lookup | unstamped lookup | old lookup =>
      cases lookup
      simp [contend, tolerant, waitsForLock] at waits
  | @staleDown snapshot down => exact ⟨snapshot, rfl, rfl, down⟩
  | staleEmpty empty => exact absurd empty (sound.filled outline)
  | _ => simp [waitsForLock] at waits

theorem Advance.unchanged (advance : Advance me now (.lookup q) entry phase after next)
    (fits : LookupFits q phase) (locked : q.isUnlocked = false) (ungranted : isGranted next = false) :
    after = entry := by
  cases advance with
  | tryFree | locked | writeSlot | writeFlag | writeStamp => simp [isGranted] at ungranted
  | publishFree => simp [LookupFits, locked] at fits
  | storeLocked store => cases store
  | @unlock reply =>
      have under : isUnderLock reply = true := fits.2
      cases reply with
      | answered v how => cases how <;> simp [isGranted, isUnderLock] at ungranted under
      | failed => simp [isGranted] at ungranted
      | stored | expired | found => simp [LookupFits, ReplyFits] at fits
  | clearStamp => simp [LookupFits] at fits
  | _ => rfl

theorem Advance.granted_next (advance : Advance me now (.lookup q) entry phase after next)
    (fits : LookupFits q phase) (granted : isGranted phase = true) : isGranted next = true := by
  cases advance with
  | @unlock reply =>
      have under : isUnderLock reply = true := fits.2
      cases reply with
      | answered v how => cases how <;> simp [isUnderLock] at under <;> rfl
      | failed => rfl
      | stored | expired | found => simp [LookupFits, ReplyFits] at fits
  | _ => simp_all [isGranted]

end ViewCache.Call

namespace ViewCache.Entry.Run

open Call (Advance holds Fits Outline LookupFits)

variable {V C E : Type} {policy : RefreshPolicy V C} {source : TimeSource} {run later : Run V C E}
  {id : CallId} {q : Query C} {phase : Phase V E}

/-- The lookup does not wait for the lock: until it has answered it can always go on. -/
def Unwaiting (id : CallId) (q : Query C) (run : Run V C E) : Prop :=
  ∀ phase, run.calls id = some ⟨.lookup q, phase⟩ →
    waitsForLock phase = false ∧ ((∀ reply, phase ≠ .done reply) → run.CanGoOn id)

theorem unwaiting_of_phase (reaches : (new policy source).Reaches run)
    (unwaiting : ∀ phase, run.calls id = some ⟨.lookup q, phase⟩ → waitsForLock phase = false) :
    Unwaiting id q run := by
  intro phase running
  have idle := unwaiting phase running
  exact ⟨idle, canGoOn_of_free reaches running (by simp [idle])⟩

theorem unwaiting_of_unlocked (reaches : (new policy source).Reaches run) (zero : q.timeout = 0) :
    Unwaiting id q run := by
  refine unwaiting_of_phase reaches ?_
  intro phase running
  have fits : LookupFits q phase := (disciplined_of_new reaches).fits _ _ _ running
  have unlocked : q.isUnlocked = true := by simp [Query.isUnlocked, Timeout.never, zero]
  cases phase <;> first | rfl | simp [LookupFits, unlocked] at fits

theorem foundNothing_of_waiting (reaches : (new policy source).Reaches run) {snapshot : Int}
    (running : run.calls id = some ⟨.lookup q, .lock snapshot⟩) (tolerant : q.tolerant = true) :
    FoundNothing id run.log := by
  refine reaches.inside (X := fun phase => phase = .lock snapshot)
    (P := fun run id request => request = .lookup q → FoundNothing id run.log) rfl inner_of_waiting ?_ ?_
    running rfl rfl
  · rintro run id now _ phase entry next reached _ moving advance _ rfl rfl
    have disciplined := disciplined_of_new reached
    obtain ⟨loaded, rfl, same, down⟩ := advance.unpublished_of_waiting tolerant
      (disciplined.outline _ _ _ moving) disciplined.sound rfl
    cases same
    refine once_cons ⟨now, run.entry, snapshot, rfl, down, ?_⟩
    by_contra published
    have up := initialized_of_published reached published
    simp [down] at up
  · rintro run event next other request phase _ _ step _ _ _ known rfl
    rw [step.log]
    exact (known rfl).later event

structure ServedStale (first later : Run V C E) (id : CallId) (q : Query C) : Prop where
  unstarted : ¬ Started id later.log
  unchanged : ∀ middle now next, first.Reaches middle → middle.next? (.step id now) = some next →
    next.Reaches later → next.entry = middle.entry
  answers : ∀ now, ∃ n ≤ 2, ∃ last v, later.follow? (List.replicate n (.step id now)) = some last ∧
    last.calls id = some ⟨.lookup q, .done (.answered v .stale)⟩
  reply : ∀ reply, later.calls id = some ⟨.lookup q, .done reply⟩ →
    ∃ v writer, reply = .answered v .stale ∧ origin id later.log = some writer ∧ Yields writer v later.log ∧
      Landed writer later

section

variable (early : (new policy source).Reaches run) (reaches : run.Reaches later)

include early reaches

theorem granted_later (locked : q.isUnlocked = false) (running : run.calls id = some ⟨.lookup q, phase⟩)
    (granted : isGranted phase = true) :
    ∃ after, later.calls id = some ⟨.lookup q, after⟩ ∧ isGranted after = true := by
  refine reaches.rule (P := fun run => ∃ phase, run.calls id = some ⟨.lookup q, phase⟩ ∧ isGranted phase = true)
    ⟨phase, running, granted⟩ ?_
  intro run event next reached known step
  obtain ⟨phase, running, granted⟩ := known
  rcases step.of_running running with ⟨_, still⟩ | ⟨_, _, after, advance, _, moved⟩ |
      ⟨_, outcome, same, _, _, moved⟩
  · exact ⟨phase, still, granted⟩
  · have fits := (disciplined_of_new (early.trans reached)).fits _ _ _ running
    exact ⟨after, moved, advance.granted_next fits granted⟩
  · cases same
    exact ⟨_, moved, by cases outcome <;> simp [Call.resumed, locked, isGranted]⟩

variable (up : run.entry.initialized = true) (unused : run.calls id = none)

include up unused

theorem unwaiting_of_published (tolerant : q.tolerant = true) : Unwaiting id q later := by
  refine unwaiting_of_phase (early.trans reaches) ?_
  intro phase running
  refine reaches.each (P := fun _ me request phase => me = id → request = .lookup q → waitsForLock phase = false)
    ?_ ?_ ?_ ?_ ?_ running rfl rfl
  · rintro _ request phase begun rfl
    simp [unused] at begun
  · rintro _ _ _ _ _ _ rfl
    cases unlocked : q.isUnlocked <;> simp [Call.start, unlocked, waitsForLock]
  · rintro run _ now _ phase entry next reached moving advance _ rfl rfl
    have disciplined := disciplined_of_new (early.trans reached)
    by_contra waits
    obtain ⟨_, _, _, down⟩ := advance.unpublished_of_waiting tolerant (disciplined.outline _ _ _ moving)
      disciplined.sound (by simpa using waits)
    simp [reached.initialized early up] at down
  · intro _ _ asked outcome _ _ _ _ _
    cases outcome <;> cases unlocked : asked.isUnlocked <;> simp [Call.resumed, unlocked, waitsForLock]
  · intro _ _ _ _ _ _ _ _ _ _ known
    exact known

theorem outrun_phase (running : later.calls id = some ⟨.lookup q, phase⟩) (outrun : Outrun later.log id) :
    isOutrun phase = true := by
  refine reaches.each (P := fun run me request phase => me = id → request = .lookup q →
    Outrun run.log me → isOutrun phase = true) ?_ ?_ ?_ ?_ ?_ running rfl rfl outrun
  · rintro _ request phase begun rfl
    simp [unused] at begun
  · rintro run me _ reached unbegun rfl rfl ⟨_, _, _, _, tried, _, _⟩
    rcases List.mem_cons.mp tried with same | member
    · cases same
    · exact absurd unbegun (silent (early.trans reached) _ member)
  · rintro run me now _ phase entry next reached moving advance known rfl rfl ⟨_, _, _, other, tried, busy, others⟩
    have disciplined := disciplined_of_new (early.trans reached)
    rcases List.mem_cons.mp tried with same | member
    · cases same
      rfl
    · have outrun := known rfl rfl ⟨_, _, _, other, member, busy, others⟩
      cases advance with
      | staleDown down => simp [reached.initialized early up] at down
      | staleEmpty empty => exact absurd empty (disciplined.sound.filled (disciplined.outline _ _ _ moving))
      | staleUp | staleTaken => rfl
      | _ => simp [isOutrun] at outrun
  · rintro run me _ outcome _ moving known rfl lookup ⟨_, _, _, _, tried, busy, others⟩
    rcases List.mem_cons.mp tried with same | member
    · cases same
    · exact absurd (known rfl lookup ⟨_, _, _, _, member, busy, others⟩) (by simp [isOutrun])
  · rintro run event next me request phase _ step different _ known rfl lookup ⟨_, _, _, _, tried, busy, others⟩
    rw [step.log] at tried
    rcases List.mem_cons.mp tried with same | member
    · exact absurd (congrArg Event.id same) different
    · exact known rfl lookup ⟨_, _, _, _, member, busy, others⟩

theorem servedStale_of_outrun (running : later.calls id = some ⟨.lookup q, phase⟩)
    (outrun : Outrun later.log id) : ServedStale run later id q := by
  have whole := early.trans reaches
  have disciplined := disciplined_of_new whole
  have behind := outrun_phase early reaches up unused running outrun
  have locked : q.isUnlocked = false := by
    have fits : LookupFits q phase := disciplined.fits _ _ _ running
    cases phase with
    | staleFlag | staleSlot => exact fits.1
    | done reply =>
        cases reply with
        | answered v how =>
            cases how <;> simp [isOutrun] at behind
            exact fits.1
        | _ => simp [isOutrun] at behind
    | _ => simp [isOutrun] at behind
  obtain ⟨v, held⟩ := Option.ne_none_iff_exists'.mp (disciplined.sound.filled (reaches.initialized early up))
  have finish (run : Run V C E) {snapshot : Int} (now : Int) (same : run.entry = later.entry)
      (reading : run.calls id = some ⟨.lookup q, .staleSlot snapshot⟩) :
      ∃ last, run.next? (.step id now) = some last ∧
        last.calls id = some ⟨.lookup q, .done (.answered v .stale)⟩ :=
    ⟨_, next_of_advance reading (.staleTaken (same ▸ held)), Function.update_self ..⟩
  constructor
  case unstarted => exact not_started whole running (unstarted_of_outrun behind)
  case unchanged =>
    intro middle now next before moved after
    obtain ⟨request, current, entry, following, moving, advance, rfl⟩ := advance_of_next moved
    obtain ⟨_, same⟩ := after.running (Function.update_self ..)
    rw [running] at same
    cases same
    have reached := early.trans before
    have fits := (disciplined_of_new reached).fits _ _ _ moving
    refine advance.unchanged fits locked ?_
    -- had the lookup got the lock, it would not have found another refreshing after that
    by_contra granted
    obtain ⟨_, same, still⟩ := granted_later (reached.step (.stepped moving advance)) after locked
      (Function.update_self ..) (by simpa using granted)
    rw [running] at same
    cases same
    simp [ungranted_of_outrun behind] at still
  case answers =>
    intro now
    cases phase with
    | staleFlag snapshot =>
        let read := later.put id ⟨.lookup q, .staleSlot snapshot⟩ later.entry
          (.stepped id now later.entry (.staleFlag snapshot) (.staleSlot snapshot))
        have moved : later.next? (.step id now) = some read :=
          next_of_advance running (.staleUp (reaches.initialized early up))
        have reading : read.calls id = some ⟨.lookup q, .staleSlot snapshot⟩ := Function.update_self ..
        obtain ⟨last, ends, answered⟩ := finish read now rfl reading
        exact ⟨2, Nat.le_refl 2, last, v, by simp [follow?, List.replicate, moved, ends], answered⟩
    | staleSlot snapshot =>
        obtain ⟨last, ends, answered⟩ := finish later now rfl running
        exact ⟨1, Nat.le_succ 1, last, v, by simp [follow?, List.replicate, ends], answered⟩
    | done reply =>
        cases reply with
        | answered w how =>
            cases how <;> simp [isOutrun] at behind
            exact ⟨0, Nat.zero_le 2, later, w, rfl, running⟩
        | _ => simp [isOutrun] at behind
    | _ => simp [isOutrun] at behind
  case reply =>
    intro reply ended
    rw [running] at ended
    cases ended
    cases reply with
    | answered v how =>
        cases how <;> simp [isOutrun] at behind
        obtain ⟨writer, source, yields, landed⟩ := taken_value whole running rfl
        exact ⟨v, writer, rfl, source, yields, landed⟩
    | _ => simp [isOutrun] at behind

end

/-- Whoever takes stale values waits only for a first value, and where there is one is served at once: a tolerant
lookup that begins after the first publish never waits, and if it finds another call refreshing it answers what
the slot holds, leaving the entry as it is. Lookups with a zero timeout never wait. -/
theorem tolerant_lookups_do_not_wait (reaches : (new policy source).Reaches run) :
    (∀ id q snapshot, run.calls id = some ⟨.lookup q, .lock snapshot⟩ → q.tolerant = true →
      FoundNothing id run.log) ∧
    (∀ id q, q.timeout = 0 → Unwaiting id q run) ∧
    (run.entry.initialized = true → ∀ later id q, run.Reaches later → run.calls id = none → q.tolerant = true →
      Unwaiting id q later ∧
        ∀ phase, later.calls id = some ⟨.lookup q, phase⟩ → Outrun later.log id → ServedStale run later id q) := by
  refine ⟨?_, fun id q zero => unwaiting_of_unlocked reaches zero, ?_⟩
  · exact fun id q snapshot running tolerant => foundNothing_of_waiting reaches running tolerant
  · intro up later id q further unused tolerant
    refine ⟨unwaiting_of_published reaches further up unused tolerant, ?_⟩
    exact fun phase running outrun => servedStale_of_outrun reaches further up unused running outrun

/-- A value is published and too old for the lookup 2, whose updater is running. -/
def refreshOfOldValue : List (Move Nat Unit Bool) :=
  List.flatten [[.invoke 1 (.store 7)], List.replicate 6 (.step 1 100),
    [.invoke 2 (.lookup ⟨(), 10, false⟩)], List.replicate 8 (.step 2 200)]

/-- A tolerant lookup comes in between, and the refresh fails after the entry was expired. -/
def lookDuringRefresh : List (Move Nat Unit Bool) :=
  List.flatten [[.invoke 3 (.lookup ⟨(), 10, true⟩)], List.replicate 5 (.step 3 201), [.invoke 4 .expire, .step 4 0],
    List.replicate 1 (.step 3 201), [.resume 2 (.error true), .step 2 202], List.replicate 1 (.step 3 203)]

theorem tolerant_lookup_served_during_refresh : ∃ run later : Run Nat Unit Bool,
    (new .timed .wall).follow? refreshOfOldValue = some run ∧ run.entry.initialized = true ∧
      run.calls 3 = none ∧ run.follow? lookDuringRefresh = some later ∧
      later.calls 3 = some ⟨.lookup ⟨(), 10, true⟩, .done (.answered 7 .stale)⟩ ∧ Outrun later.log 3 ∧
      Unwaiting 3 ⟨(), 10, true⟩ later ∧ ServedStale run later 3 ⟨(), 10, true⟩ := by
  have computed : ((new .timed .wall).follow? refreshOfOldValue).bind (fun run : Run Nat Unit Bool =>
      (run.follow? lookDuringRefresh).map fun later => (run.entry.initialized, run.calls 3, later.calls 3)) =
      some (true, none, some ⟨.lookup ⟨(), 10, true⟩, .done (.answered 7 .stale)⟩) := by
    rfl
  obtain ⟨run, before, computed⟩ := Option.bind_eq_some_iff.mp computed
  obtain ⟨later, during, facts⟩ := Option.map_eq_some_iff.mp computed
  simp only [Prod.mk.injEq] at facts
  obtain ⟨up, unused, answered⟩ := facts
  have early := Reaches.of_follow before
  have further := Reaches.of_follow during
  have outrun := outrun_of_stale (early.trans further) answered rfl
  obtain ⟨unwaiting, served⟩ :=
    (tolerant_lookups_do_not_wait early).2.2 up later 3 ⟨(), 10, true⟩ further unused rfl
  exact ⟨run, later, before, up, unused, during, answered, outrun, unwaiting, served _ answered outrun⟩

end ViewCache.Entry.Run
