import Mathlib.Data.List.Nodup
import ViewCache.Proofs.Entry.Timeline

namespace ViewCache.Entry

variable {V C E : Type}

def Once (P : Event V C E → List (Event V C E) → Prop) (log : List (Event V C E)) : Prop :=
  ∃ newer event older, log = newer ++ event :: older ∧ P event older

theorem once_cons {P : Event V C E → List (Event V C E) → Prop} {event : Event V C E}
    {log : List (Event V C E)} (here : P event log) : Once P (event :: log) :=
  ⟨[], event, log, rfl, here⟩

theorem Once.later {P : Event V C E → List (Event V C E) → Prop} {log : List (Event V C E)}
    (event : Event V C E) (once : Once P log) : Once P (event :: log) := by
  obtain ⟨newer, found, older, rfl, holds⟩ := once
  exact ⟨event :: newer, found, older, rfl, holds⟩

/-- The value is pinned for the caller, or its publish is stamped no more than the timeout before the
moment when the caller looked at the clock. -/
def InTime (policy : RefreshPolicy V C) (log : List (Event V C E)) (id : CallId) (q : Query C) (v : V)
    (writer : CallId) : Prop :=
  policy.isPinned v q.context = true ∨ q.timeout < 0 ∨
    0 < q.timeout ∧ ∃ now seen loaded,
      .stepped id now seen (.checkAge loaded v) (.done (.answered v .fresh)) ∈ log ∧
        ∀ stamp, (writer, stamp) ∈ publishes log → now - stamp ≤ q.timeout

/-- When the call rechecked the entry under the lock, the writer had published last, and since the call
had loaded its snapshot. -/
def Awaited (log : List (Event V C E)) (id writer : CallId) : Prop :=
  Once (fun event older => ∃ now seen loaded stamp,
    event = .stepped id now seen (.recheckStamp loaded) .coalesceFlag ∧
      (publishes older).head? = some (writer, stamp) ∧ (writer, stamp) ∈ publishes (since id older)) log

def Outrun (log : List (Event V C E)) (id : CallId) : Prop :=
  ∃ now seen loaded other, .stepped id now seen (.tryLock loaded) (.staleFlag loaded) ∈ log ∧
    seen.holder = some other ∧ other ≠ id

def TookSlot (log : List (Event V C E)) (id : CallId) (v : V) : Prop :=
  ∃ now seen loaded, .stepped id now seen (.staleSlot loaded) (.done (.answered v .stale)) ∈ log ∧
    seen.slot = some v

def isCoalescing : Phase V E → Bool
  | .coalesceFlag | .coalesceSlot => true
  | _ => false

def isOutrun : Phase V E → Bool
  | .staleFlag _ | .staleSlot _ | .done (.answered _ .stale) => true
  | _ => false

@[simp]
theorem isCoalescing_contend {q : Query C} {snapshot : Int} :
    isCoalescing (Call.contend q snapshot : Phase V E) = false := Call.map_contend rfl rfl

@[simp]
theorem isOutrun_contend {q : Query C} {snapshot : Int} :
    isOutrun (Call.contend q snapshot : Phase V E) = false := Call.map_contend rfl rfl

theorem inner_of_coalescing {phase : Phase V E} (coalescing : isCoalescing phase = true) :
    Call.isEntry phase = false := by
  cases phase <;> simp [isCoalescing] at coalescing <;> rfl

theorem inner_of_outrun {phase : Phase V E} (outrun : isOutrun phase = true) : Call.isEntry phase = false := by
  cases phase with
  | staleFlag | staleSlot => rfl
  | done reply =>
      cases reply with
      | answered => rfl
      | _ => simp [isOutrun] at outrun
  | _ => simp [isOutrun] at outrun

theorem head_publishes_since {id : CallId} {log : List (Event V C E)}
    (some_since : publishes (since id log) ≠ []) :
    (publishes (since id log)).head? = (publishes log).head? := by
  have whole : publishes log =
      publishes (since id log) ++ publishes (log.dropWhile fun event => !event.loads id) := by
    simp only [publishes, since, ← List.filterMap_append, List.takeWhile_append_dropWhile]
  rw [whole, List.head?_append_of_ne_nil _ some_since]

namespace Run

open Call (Advance holds Fits Outline)

variable {policy : RefreshPolicy V C} {source : TimeSource} {run : Run V C E}

/-- What each way of being served says of an answer whose value is the writer's. -/
def Warranted (policy : RefreshPolicy V C) (run : Run V C E) (id : CallId) (q : Query C) (v : V)
    (writer : CallId) : Served → Prop
  | .computed => writer = id ∧ .returned id (.ok v) ∈ run.log
  | .fresh => ¬ Started id run.log ∧ Landed writer run ∧ InTime policy run.log id q v writer
  | .coalesced => ¬ Started id run.log ∧ Awaited run.log id writer
  | .stale => ¬ Started id run.log ∧ q.tolerant = true ∧ Outrun run.log id ∧ TookSlot run.log id v

structure StampedFrom (bound : Int) (writer : CallId) (run : Run V C E) : Prop where
  passed : bound ≤ ceiling run.log
  stored : ∀ stamp, (writer, stamp) ∈ publishes run.log → bound ≤ stamp
  pending : ∀ request v stamp, run.calls writer = some ⟨request, .writeStamp v stamp⟩ → bound ≤ stamp

theorem policy_fixed (reaches : (new policy source).Reaches run) : run.entry.policy = policy := by
  refine reaches.rule (P := fun run => run.entry.policy = policy) rfl ?_
  intro run event next reached same step
  cases step with
  | began | returned => exact same
  | stepped running advance =>
      have keeps := advance.keeps ((disciplined_of_new reached).locked _ _ _ running).mp
      exact keeps.policy.trans same

theorem stamp_unique (reaches : (new policy source).Reaches run) {id : CallId} {first second : Int}
    (published : (id, first) ∈ publishes run.log) (again : (id, second) ∈ publishes run.log) :
    first = second := by
  have same := List.inj_on_of_nodup_map (publishes_nodup reaches) published again rfl
  exact congrArg Prod.snd same

theorem StampedFrom.step {next : Run V C E} {event : Event V C E} {bound : Int} {writer : CallId}
    (from_bound : StampedFrom bound writer run) (step : Step run event next) (steady : Steady next.log) :
    StampedFrom bound writer next := by
  obtain ⟨passed, stored, pending⟩ := from_bound
  rw [step.log] at steady
  refine ⟨?_, ?_, ?_⟩
  · rw [step.log]
    exact Int.le_trans passed (ceiling_mono event run.log)
  · intro stamp published
    rw [step.log, publishes_cons, List.mem_append] at published
    rcases published with now | earlier
    · cases step with
      | began | returned => simp [Event.publish?] at now
      | stepped running advance =>
          cases advance <;> simp [Event.publish?] at now
          obtain ⟨rfl, rfl⟩ := now
          exact pending _ _ _ running
    · exact stored stamp earlier
  · intro request v stamp waiting
    by_cases same : writer = event.id
    · subst same
      cases step with
      | @began id asked unused =>
          have entered := Call.isEntry_start (E := E) asked
          rw [← calls_put_self waiting] at entered
          cases entered
      | @stepped id now asked phase entry after running advance =>
          have moved := calls_put_self waiting
          cases moved
          obtain ⟨rfl, _, rfl⟩ := advance.clock_read rfl
          exact Int.le_trans passed (ceiling_le_of_steady steady rfl)
      | @returned id q outcome running =>
          have entered := Call.isEntry_resumed q outcome
          have back : .writeStamp v stamp = Call.resumed q outcome :=
            congrArg Call.phase (calls_put_self waiting)
          rw [← back] at entered
          cases entered
    · exact pending request v stamp ((step.other same).symm.trans waiting)

theorem stampedFrom_of_snapshot (reaches : (new policy source).Reaches run) (steady : Steady run.log)
    {id : CallId} {request : Request V C} {phase : Phase V E} {snapshot : Int}
    (running : run.calls id = some ⟨request, phase⟩) (loaded : snapshot? phase = some snapshot)
    (stamped : snapshot ≠ neverPublished) {writer : CallId} (written : slotWriter run.log = some writer) :
    StampedFrom snapshot writer run := by
  obtain ⟨publish, member, rfl⟩ := snapshot_published reaches running loaded stamped
  refine ⟨(publish_bounds reaches publish member).2, ?_, ?_⟩
  · intro stamp published
    rcases last_publish reaches written with ⟨last, head⟩ | ⟨_, phase, moving, publishing⟩
    · rw [stamp_unique reaches published (List.mem_of_mem_head? head)]
      exact publishes_le_newest reaches steady head publish member
    · obtain ⟨_, _, ended, done⟩ := over_of_published reaches published
      rw [moving] at ended
      cases ended
      cases phase <;> simp [isPublishing, isOver] at publishing done
  · intro request v stamp waiting
    exact pending_latest reaches steady waiting publish member

theorem stampedFrom_of_checkAge (reaches : (new policy source).Reaches run) (steady : Steady run.log)
    {id : CallId} {request : Request V C} {snapshot : Int} {v : V}
    (running : run.calls id = some ⟨request, .checkAge snapshot v⟩) :
    ∃ writer, origin id run.log = some writer ∧ StampedFrom snapshot writer run := by
  refine reaches.inside (X := fun phase => phase = .checkAge snapshot v)
    (P := fun run id _ => Steady run.log → ∃ writer, origin id run.log = some writer ∧
      StampedFrom snapshot writer run) rfl (fun same => same ▸ rfl) ?_ ?_ running rfl steady
  · intro run id now request phase entry next reached _ moving advance _ checking steady
    have step : Step run _ _ := .stepped moving advance
    obtain ⟨q, _, rfl, _, held, stamped, _⟩ := advance.slot_read checking
    obtain ⟨writer, written, _⟩ := slot_value reached held
    have bound := stampedFrom_of_snapshot reached (steady_of_cons steady) moving rfl stamped written
    exact ⟨writer, by simpa [put, origin, Event.takes] using written, bound.step step steady⟩
  · intro run event next other request phase _ _ step different _ _ known steady
    obtain ⟨writer, source, bound⟩ := known (steady_of_cons (step.log ▸ steady))
    exact ⟨writer, by rw [step.log, origin_of_other different, source], bound.step step steady⟩

/-- The clock reading by which a lookup took the slot's value for fresh, against the timestamp of that
value's publish, which may not be stored yet. -/
theorem in_time (reaches : (new policy source).Reaches run) (steady : Steady run.log) {id : CallId}
    {q : Query C} {v : V} (running : run.calls id = some ⟨.lookup q, .done (.answered v .fresh)⟩)
    {writer : CallId} (taken : origin id run.log = some writer) :
    InTime policy run.log id q v writer := by
  -- how the lookup came to its answer; the publish of the value may still be under way
  have young : policy.isPinned v q.context = true ∨ q.timeout < 0 ∨ 0 < q.timeout ∧
      ∃ now seen loaded, .stepped id now seen (.checkAge loaded v) (.done (.answered v .fresh)) ∈ run.log ∧
        now - loaded ≤ q.timeout ∧ StampedFrom loaded writer run := by
    refine reaches.inside (X := fun phase => phase = .done (.answered v .fresh))
      (P := fun run id request => request = .lookup q → Steady run.log → origin id run.log = some writer →
        policy.isPinned v q.context = true ∨ q.timeout < 0 ∨ 0 < q.timeout ∧
          ∃ now seen loaded, .stepped id now seen (.checkAge loaded v) (.done (.answered v .fresh)) ∈ run.log ∧
            now - loaded ≤ q.timeout ∧ StampedFrom loaded writer run)
      rfl (fun same => same ▸ rfl) ?_ ?_ running rfl rfl steady taken
    · intro run id now request phase entry next reached _ moving advance _ answered lookup steady taken
      subst lookup
      have step : Step run _ _ := .stepped moving advance
      cases advance with
      | pinned lookup _ pin =>
          cases lookup
          cases answered
          exact .inl (policy_fixed reached ▸ pin)
      | forever lookup _ _ _ negative =>
          cases lookup
          exact .inr (.inl negative)
      | @young _ loaded _ lookup age =>
          cases lookup
          cases answered
          obtain ⟨found, source, bound⟩ := stampedFrom_of_checkAge reached (steady_of_cons steady) moving
          have same : found = writer := by simpa [put, origin, Event.takes, Event.computes, source] using taken
          subst same
          exact .inr (.inr ⟨timeout_pos_of_checkAge reached moving, now, _, loaded, List.mem_cons_self, age,
            bound.step step steady⟩)
      | @unlock reply =>
          cases answered
          have fits := (disciplined_of_new reached).fits _ _ _ moving
          simpa [Call.isUnderLock] using Call.isUnderLock_of_unlock fits
      | flagDown | slotEmpty | unstamped | old => exact absurd answered (Call.contend_ne (by simp) (by simp))
      | _ => cases answered
    · intro run event next other request phase _ _ step different _ _ known lookup steady taken
      rw [step.log, origin_of_other different] at taken
      rcases known lookup (steady_of_cons (step.log ▸ steady)) taken with
        pin | negative | ⟨positive, now, seen, loaded, checked, age, bound⟩
      · exact .inl pin
      · exact .inr (.inl negative)
      · exact .inr (.inr ⟨positive, now, seen, loaded, step.log ▸ List.mem_cons_of_mem event checked, age,
          bound.step step steady⟩)
  rcases young with pin | negative | ⟨positive, now, seen, loaded, checked, age, bound⟩
  · exact .inl pin
  · exact .inr (.inl negative)
  · refine .inr (.inr ⟨positive, now, seen, loaded, checked, ?_⟩)
    intro stamp published
    have late := bound.stored stamp published
    omega

theorem awaited_of_coalescing (reaches : (new policy source).Reaches run) {id : CallId}
    {request : Request V C} {phase : Phase V E} (running : run.calls id = some ⟨request, phase⟩)
    (coalescing : isCoalescing phase = true) :
    ∃ writer, slotWriter run.log = some writer ∧ Awaited run.log id writer := by
  refine reaches.inside (X := fun phase => isCoalescing phase = true)
    (P := fun run id _ => ∃ writer, slotWriter run.log = some writer ∧ Awaited run.log id writer)
    rfl inner_of_coalescing ?_ ?_ running coalescing
  · intro run id now request phase entry next reached _ moving advance known coalescing
    have disciplined := disciplined_of_new reached
    cases advance with
    | @refreshed snapshot moved stamped =>
        obtain ⟨publisher, last⟩ := stamp_current reached stamped
        have published : publishes (since id run.log) ≠ [] := by
          intro nothing
          rcases unmoved reached moving rfl nothing with same | zero
          · exact moved same.symm
          · exact stamped zero
        have recent : (publisher, run.entry.stamp) ∈ publishes (since id run.log) :=
          List.mem_of_mem_head? ((head_publishes_since published).trans last)
        obtain ⟨v, held⟩ := Option.ne_none_iff_exists'.mp
          (disciplined.sound.filled (disciplined.outline _ _ _ moving))
        -- the slot may be ahead of the timestamp only while somebody else has the lock
        obtain ⟨writer, _, written, _, newest⟩ := published_of_holds reached moving rfl rfl held
        have same : writer = publisher := congrArg Prod.fst (Option.some.inj (newest.symm.trans last))
        subst same
        exact ⟨writer, by simpa [put, slotWriter_cons, Event.writer?] using written,
          once_cons ⟨now, run.entry, snapshot, run.entry.stamp, rfl, last, recent⟩⟩
    | coalesceUp =>
        obtain ⟨writer, written, awaited⟩ := known rfl
        exact ⟨writer, by simpa [put, slotWriter_cons, Event.writer?] using written, awaited.later _⟩
    | flagDown | slotEmpty | unstamped | old => simp at coalescing
    | _ => simp [isCoalescing] at coalescing
  · intro run event next other request phase reached _ step different waiting coalescing known
    obtain ⟨writer, written, awaited⟩ := known
    have locked : holds request phase = true := by
      cases phase <;> first | rfl | simp [isCoalescing] at coalescing
    have idle := (step.idle_of_holds reached waiting locked different).1
    rw [step.log, slotWriter_cons, idle]
    exact ⟨writer, written, awaited.later event⟩

theorem awaited_of_coalesced (reaches : (new policy source).Reaches run) {id : CallId}
    {request : Request V C} {phase : Phase V E} {v : V} (running : run.calls id = some ⟨request, phase⟩)
    (answers : phase = .unlock (.answered v .coalesced) ∨ phase = .done (.answered v .coalesced))
    {writer : CallId} (taken : origin id run.log = some writer) : Awaited run.log id writer := by
  refine reaches.inside
    (X := fun phase => phase = .unlock (.answered v .coalesced) ∨ phase = .done (.answered v .coalesced))
    (P := fun run id _ => origin id run.log = some writer → Awaited run.log id writer) rfl ?_ ?_ ?_
    running answers taken
  · rintro _ (rfl | rfl) <;> rfl
  · intro run id now request phase entry next reached _ moving advance known answers taken
    cases advance with
    | coalesced held =>
        obtain ⟨found, written, awaited⟩ := awaited_of_coalescing reached moving rfl
        have same : found = writer := by simpa [put, origin, Event.takes, written] using taken
        exact same ▸ awaited.later _
    | @unlock reply =>
        have same : reply = .answered v .coalesced := by simpa using answers
        have before : origin id run.log = some writer := by
          simpa [put, origin, Event.takes, Event.computes] using taken
        exact (known (.inl (by rw [same])) before).later _
    | writeStamp => cases request <;> simp [Call.published] at answers
    | flagDown | slotEmpty | unstamped | old =>
        rcases answers with same | same <;> exact absurd same (Call.contend_ne (by simp) (by simp))
    | _ => simp at answers
  · intro run event next other request phase _ _ step different _ _ known taken
    rw [step.log, origin_of_other different] at taken
    rw [step.log]
    exact (known taken).later event

theorem outrun_of_stale (reaches : (new policy source).Reaches run) {id : CallId}
    {request : Request V C} {phase : Phase V E} (running : run.calls id = some ⟨request, phase⟩)
    (outrun : isOutrun phase = true) : Outrun run.log id := by
  refine reaches.inside (X := fun phase => isOutrun phase = true) (P := fun run id _ => Outrun run.log id)
    rfl inner_of_outrun ?_ ?_ running outrun
  · intro run id now request phase entry next reached _ moving advance known outrun
    have later (before : isOutrun phase = true) :
        Outrun (run.put id ⟨request, next⟩ entry (.stepped id now run.entry phase next)).log id := by
      obtain ⟨now', seen, loaded, other, tried, busy, different⟩ := known before
      exact ⟨now', seen, loaded, other, List.mem_cons_of_mem _ tried, busy, different⟩
    have disciplined := disciplined_of_new reached
    cases advance with
    | @tryBusy snapshot other busy =>
        refine ⟨now, run.entry, snapshot, other, List.mem_cons_self, busy, ?_⟩
        rintro rfl
        have locked := (disciplined.locked _ _ _ moving).mpr busy
        simp [holds] at locked
    | staleUp | staleTaken => exact later rfl
    | @unlock reply =>
        have held := Call.isUnderLock_of_unlock (disciplined.fits _ _ _ moving)
        cases reply with
        | answered v how => cases how <;> simp [isOutrun, Call.isUnderLock] at outrun held
        | _ => simp [isOutrun] at outrun
    | flagDown | slotEmpty | unstamped | old => simp at outrun
    | _ => simp [isOutrun] at outrun
  · intro run event next other request phase _ _ step _ _ _ known
    obtain ⟨now, seen, loaded, holder, tried, busy, different⟩ := known
    exact ⟨now, seen, loaded, holder, step.log ▸ List.mem_cons_of_mem event tried, busy, different⟩

theorem tookSlot_of_stale (reaches : (new policy source).Reaches run) {id : CallId} {request : Request V C}
    {v : V} (running : run.calls id = some ⟨request, .done (.answered v .stale)⟩) :
    TookSlot run.log id v := by
  refine reaches.inside (X := fun phase => phase = .done (.answered v .stale))
    (P := fun run id _ => TookSlot run.log id v) rfl (fun same => same ▸ rfl) ?_ ?_ running rfl
  · intro run id now request phase entry next reached _ moving advance known answered
    cases advance with
    | @staleTaken snapshot w held =>
        cases answered
        exact ⟨now, run.entry, snapshot, List.mem_cons_self, held⟩
    | unlock =>
        cases answered
        have fits := (disciplined_of_new reached).fits _ _ _ moving
        simpa [Call.isUnderLock] using Call.isUnderLock_of_unlock fits
    | flagDown | slotEmpty | unstamped | old => exact absurd answered (Call.contend_ne (by simp) (by simp))
    | _ => cases answered
  · intro run event next other request phase _ _ step _ _ _ known
    obtain ⟨now, seen, loaded, read, held⟩ := known
    exact ⟨now, seen, loaded, step.log ▸ List.mem_cons_of_mem event read, held⟩

/-- Every answer is a value that some call computed or published, and was served as it says. -/
theorem answers_are_warranted (reaches : (new policy source).Reaches run) (steady : Steady run.log)
    {id : CallId} {q : Query C} {v : V} {how : Served}
    (answered : run.calls id = some ⟨.lookup q, .done (.answered v how)⟩) :
    ∃ writer, origin id run.log = some writer ∧ Yields writer v run.log ∧
      Warranted policy run id q v writer how := by
  have fits := (disciplined_of_new reaches).fits _ _ _ answered
  cases how with
  | computed =>
      obtain ⟨returned, own⟩ := own_value reaches answered rfl
      exact ⟨id, own, .inl returned, rfl, returned⟩
  | fresh =>
      obtain ⟨writer, taken, yields, landed⟩ := taken_value reaches answered rfl
      exact ⟨writer, taken, yields, not_started reaches answered rfl, landed,
        in_time reaches steady answered taken⟩
  | coalesced =>
      obtain ⟨writer, taken, yields, _⟩ := taken_value reaches answered rfl
      exact ⟨writer, taken, yields, not_started reaches answered rfl,
        awaited_of_coalesced reaches answered (.inr rfl) taken⟩
  | stale =>
      obtain ⟨writer, taken, yields, _⟩ := taken_value reaches answered rfl
      exact ⟨writer, taken, yields, not_started reaches answered rfl, fits.2,
        outrun_of_stale reaches answered rfl, tookSlot_of_stale reaches answered⟩

/-- A lookup that loads the timestamp of one publish and reads the value of the next, whose timestamp is
stored after the lookup has answered. -/
def readAhead : List (Move Nat Unit Unit) :=
  List.flatten [[.invoke 1 (.store 7)], List.replicate 6 (.step 1 100),
    [.invoke 2 (.lookup ⟨(), 10, false⟩)], List.replicate 2 (.step 2 104),
    [.invoke 3 (.store 8)], List.replicate 2 (.step 3 105),
    List.replicate 2 (.step 2 105), List.replicate 4 (.step 3 106)]

theorem read_ahead_is_warranted : ∃ (run : Run Nat Unit Unit) (writer : CallId),
    (new .timed .wall).follow? readAhead = some run ∧ Steady run.log ∧
      run.calls 2 = some ⟨.lookup ⟨(), 10, false⟩, .done (.answered 8 .fresh)⟩ ∧
      publishes run.log = [(3, 106), (1, 100)] ∧ origin 2 run.log = some writer ∧
      Yields writer 8 run.log ∧ Warranted .timed run 2 ⟨(), 10, false⟩ 8 writer .fresh := by
  have computed : ((new .timed .wall).follow? readAhead).map (fun run : Run Nat Unit Unit =>
      (decide (Steady run.log), run.calls 2, publishes run.log)) =
      some (true, some ⟨.lookup ⟨(), 10, false⟩, .done (.answered 8 .fresh)⟩, [(3, 106), (1, 100)]) := by
    rfl
  obtain ⟨run, followed, facts⟩ := Option.map_eq_some_iff.mp computed
  simp only [Prod.mk.injEq, decide_eq_true_eq] at facts
  obtain ⟨steady, answered, published⟩ := facts
  obtain ⟨writer, taken, yields, warranted⟩ :=
    answers_are_warranted (.of_follow followed) steady answered
  exact ⟨run, writer, followed, steady, answered, published, taken, yields, warranted⟩

end Run

end ViewCache.Entry
