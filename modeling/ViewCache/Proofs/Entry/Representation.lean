import ViewCache.Proofs.Entry.Account

/-!
The three cells and the lock at any moment of any run: what they show together, who may write them, and what
they say of the last publish.
-/
namespace ViewCache.Entry

variable {V C E : Type}

inductive Write (V : Type)
  | slot (v : V)
  | flag
  | stamp (millis : Int)

def Write.apply (entry : Entry V C) : Write V → Entry V C
  | slot v => { entry with slot := some v }
  | flag => { entry with initialized := true }
  | stamp millis => { entry with stamp := millis }

namespace Event

def write? : Event V C E → Option (Write V)
  | .stepped _ _ _ (.writeSlot v) _ => some (.slot v)
  | .stepped _ _ _ (.writeFlag _) _ => some .flag
  | .stepped _ _ _ (.writeStamp _ stamp) _ => some (.stamp stamp)
  | .stepped _ _ _ .clearStamp _ => some (.stamp neverPublished)
  | _ => none

def acquires (id : CallId) : Event V C E → Bool
  | .stepped me _ seen (.tryLock _) _ | .stepped me _ seen (.lock _) _ | .stepped me _ seen (.tryPublish _) _
  | .stepped me _ seen .lockStore _ => me == id && seen.holder.isNone
  | _ => false

def releases (id : CallId) : Event V C E → Bool
  | .stepped me _ _ (.unlock _) _ => me == id
  | _ => false

def published? : Event V C E → Option V
  | .stepped _ _ _ (.writeStamp v _) _ => some v
  | _ => none

end Event

def Inside (id : CallId) : List (Event V C E) → Prop
  | [] => False
  | event :: older => event.acquires id = true ∨ Inside id older ∧ event.releases id = false

def lastPublished? (log : List (Event V C E)) : Option V := log.findSome? Event.published?

/-- A publish has written the slot and has not stored its timestamp. -/
def UnderWay : List (Event V C E) → Prop
  | [] => False
  | event :: older => event.writer?.isSome = true ∨ UnderWay older ∧ event.publish? = none

/-- Whoever takes a step between two publishes sees the last one, or what the entry was made with. -/
def Shows (made : Entry V C) : Event V C E → List (Event V C E) → Prop
  | .stepped _ _ seen _ _, older => ¬ UnderWay older → seen.value? = (lastPublished? older).or made.value?
  | _, _ => True

/-- Writes are made under the lock, timestamps from a reading of the clock by the same publish. Without the
lock, and by an expiry, only zero is written. -/
def Authorized (event : Event V C E) (older : List (Event V C E)) : Prop :=
  ∀ write, event.write? = some write →
    (write ≠ .stamp neverPublished → Inside event.id older) ∧
    (∀ stamp, write = .stamp stamp → stamp ≠ neverPublished →
      ∃ now seen v, .stepped event.id now seen (.readClock v) (.writeStamp v stamp) ∈ older ∧ stamp = max 1 now) ∧
    (.began event.id .expire ∈ older → write = .stamp neverPublished)

theorem lastPublished?_cons (event : Event V C E) (log : List (Event V C E)) :
    lastPublished? (event :: log) = event.published?.or (lastPublished? log) := by
  cases found : event.published? <;> simp [lastPublished?, found]

end ViewCache.Entry

namespace ViewCache.Call

open Entry

variable {V C E : Type} {me : CallId} {now : Int} {request : Request V C} {entry after : Entry V C}
  {phase next : Phase V E}

theorem Advance.written (advance : Advance me now request entry phase after next) :
    (after.slot, after.initialized, after.stamp) =
      let shown := ((Event.stepped me now entry phase next : Event V C E).write?.elim entry (Write.apply entry))
      (shown.slot, shown.initialized, shown.stamp) := by
  cases advance <;> rfl

theorem Advance.holder_of_event (advance : Advance me now request entry phase after next)
    (locked : holds request phase = true → entry.holder = some me) (id : CallId) :
    after.holder = some id ↔
      (Event.stepped me now entry phase next : Event V C E).acquires id = true ∨
        entry.holder = some id ∧ (Event.stepped me now entry phase next : Event V C E).releases id = false := by
  cases advance with
  | tryFree free | locked free | publishFree free | storeLocked _ free =>
      simp [Event.acquires, Event.releases, take, free]
  | tryBusy busy | publishBusy busy => simp [Event.acquires, Event.releases, busy]
  | unlock =>
      have held : entry.holder = some me := locked rfl
      simp [Event.acquires, Event.releases, held]
  | _ => simp [Event.acquires, Event.releases, Entry.expire]

end ViewCache.Call

namespace ViewCache.Entry.Run

open Call (Advance holds Fits Outline)

variable {V C E : Type} {policy : RefreshPolicy V C} {source : TimeSource} {run next : Run V C E}

theorem holder_iff_inside (reaches : (new policy source).Reaches run) (id : CallId) :
    run.entry.holder = some id ↔ Inside id run.log := by
  refine reaches.rule (P := fun run => run.entry.holder = some id ↔ Inside id run.log)
    (by simp [new, start, Inside]) ?_
  intro run event next reached same step
  rw [step.log, Inside, ← same]
  cases step with
  | began | returned => simp [put, Event.acquires, Event.releases]
  | stepped running advance =>
      exact advance.holder_of_event ((disciplined_of_new reached).locked _ _ _ running).mp id

theorem Step.initialized {event : Event V C E} (step : Step run event next)
    (reaches : (new policy source).Reaches run) (up : run.entry.initialized = true) :
    next.entry.initialized = true := by
  cases step with
  | began | returned => exact up
  | stepped running advance =>
      exact (advance.keeps ((disciplined_of_new reaches).locked _ _ _ running).mp).flag up

theorem Reaches.initialized {later : Run V C E} (reaches : run.Reaches later)
    (early : (new policy source).Reaches run) (up : run.entry.initialized = true) :
    later.entry.initialized = true := by
  refine reaches.rule (P := fun run => run.entry.initialized = true) up ?_
  intro run event next reached up step
  exact step.initialized (early.trans reached) up

theorem value?_eq_none_iff (reaches : (new policy source).Reaches run) :
    run.entry.value? = none ↔ run.entry.initialized = false := by
  have filled := (disciplined_of_new reaches).sound.filled
  cases up : run.entry.initialized <;> simp_all [Entry.value?]

theorem flag_of_found (reaches : (new policy source).Reaches run) {id : CallId} {found : Option V}
    (answered : run.calls id = some ⟨.read, .done (.found found)⟩) :
    ∃ now seen next, .stepped id now seen .valueFlag next ∈ run.log ∧
      (found = none ↔ seen.initialized = false) := by
  let Decided (run : Run V C E) (id : CallId) (up : Bool) : Prop :=
    ∃ now seen next, .stepped id now seen .valueFlag next ∈ run.log ∧ seen.initialized = up
  suffices decided : Decided run id found.isSome by
    obtain ⟨now, seen, next, member, flag⟩ := decided
    refine ⟨now, seen, next, member, ?_⟩
    rw [flag]
    cases found <;> simp
  refine reaches.each (P := fun run id request phase => request = .read →
      (phase = .valueSlot → Decided run id true) ∧ ∀ found, phase = .done (.found found) → Decided run id found.isSome)
    (by simp [new, start]) ?_ ?_ ?_ ?_ answered rfl |>.2 found rfl
  · rintro run id _ _ _ rfl
    simp [Call.start]
  · rintro run id now _ phase entry next reached running advance known rfl
    have disciplined := disciplined_of_new reached
    obtain ⟨slot, _⟩ := known rfl
    -- a read looks at the flag, then at the slot, and is done
    rcases disciplined.fits _ _ _ running with rfl | rfl | ⟨_, rfl⟩
    · cases advance with
      | valueUp up => exact ⟨fun _ => ⟨now, _, _, List.mem_cons_self, up⟩, by simp⟩
      | valueDown down =>
          refine ⟨by simp, ?_⟩
          rintro found same
          cases same
          exact ⟨now, _, _, List.mem_cons_self, down⟩
    · cases advance with
      | valueRead =>
          refine ⟨by simp, ?_⟩
          rintro found same
          cases same
          obtain ⟨earlier, seen, next, member, up⟩ := slot rfl
          have held : run.entry.slot.isSome = true :=
            Option.isSome_iff_ne_none.mpr (disciplined.sound.filled (disciplined.outline _ _ _ running))
          exact ⟨earlier, seen, next, List.mem_cons_of_mem _ member, up.trans held.symm⟩
    · cases advance
  · rintro run id q outcome _ _ _ ⟨⟩
  · intro run event next other request phase _ step _ _ known reading
    obtain ⟨slot, done⟩ := known reading
    have later {up : Bool} (decided : Decided run other up) : Decided next other up := by
      obtain ⟨now, seen, after, member, flag⟩ := decided
      exact ⟨now, seen, after, step.log ▸ List.mem_cons_of_mem event member, flag⟩
    exact ⟨fun here => later (slot here), fun found here => later (done found here)⟩

theorem slot_filled (reaches : (new policy source).Reaches run) {id : CallId} {now : Int} {seen : Entry V C}
    {phase after : Phase V E} (member : .stepped id now seen phase after ∈ run.log)
    (takes : (Event.stepped id now seen phase after : Event V C E).takes id = true) : seen.slot ≠ none := by
  revert member
  refine reaches.rule (P := fun run => .stepped id now seen phase after ∈ run.log → seen.slot ≠ none)
    (by simp [new, start]) ?_
  intro run event next reached known step member
  rw [step.log] at member
  rcases List.mem_cons.mp member with rfl | earlier
  · cases step with
    | stepped running advance =>
        have disciplined := disciplined_of_new reached
        have outline := disciplined.outline _ _ _ running
        refine disciplined.sound.filled ?_
        cases phase <;> first | exact outline | simp [Event.takes] at takes
  · exact known earlier

theorem clock_of_writeStamp (reaches : (new policy source).Reaches run) {id : CallId} {request : Request V C}
    {v : V} {stamp : Int} (running : run.calls id = some ⟨request, .writeStamp v stamp⟩) :
    ∃ now seen, .stepped id now seen (.readClock v) (.writeStamp v stamp) ∈ run.log ∧ stamp = max 1 now := by
  refine reaches.inside (X := fun phase => phase = .writeStamp v stamp)
    (P := fun run id _ => ∃ now seen,
      .stepped id now seen (.readClock v) (.writeStamp v stamp) ∈ run.log ∧ stamp = max 1 now)
    rfl (fun same => same ▸ rfl) ?_ ?_ running rfl
  · intro run id now request phase entry next _ _ _ advance _ pending
    obtain ⟨rfl, _, same⟩ := advance.clock_read pending
    subst pending
    exact ⟨now, run.entry, List.mem_cons_self, same⟩
  · intro run event next other request phase _ _ step _ _ _ known
    obtain ⟨now, seen, member, same⟩ := known
    exact ⟨now, seen, step.log ▸ List.mem_cons_of_mem event member, same⟩

theorem Step.authorized {event : Event V C E} (step : Step run event next)
    (reaches : (new policy source).Reaches run) : Authorized event run.log := by
  have disciplined := disciplined_of_new reaches
  intro write writes
  cases step with
  | began | returned => simp [Event.write?] at writes
  | @stepped id now request phase entry after running advance =>
      have fits := disciplined.fits _ _ _ running
      have outline := disciplined.outline _ _ _ running
      have inside (locked : holds request phase = true) : Inside id run.log :=
        (holder_iff_inside reaches id).mp ((disciplined.locked _ _ _ running).mp locked)
      have expiry (began : .began id .expire ∈ run.log) : phase = .clearStamp := by
        obtain ⟨current, same⟩ := running_of_began reaches began
        rw [running] at same
        cases same
        rcases fits with rfl | rfl
        · rfl
        · cases advance
      cases advance with
      | writeSlot | writeFlag =>
          cases writes
          refine ⟨fun _ => inside rfl, by simp, ?_⟩
          intro began
          cases expiry began
      | @writeStamp v stamp =>
          cases writes
          refine ⟨fun _ => inside rfl, ?_, ?_⟩
          · rintro _ ⟨⟩ _
            obtain ⟨reading, seen, member, same⟩ := clock_of_writeStamp reaches running
            exact ⟨reading, seen, v, member, same⟩
          · intro began
            cases expiry began
      | clearStamp =>
          cases writes
          refine ⟨fun nonzero => absurd rfl nonzero, ?_, fun _ => rfl⟩
          rintro _ ⟨⟩ nonzero
          exact absurd rfl nonzero
      | _ => simp [Event.write?] at writes

theorem writes_authorized (reaches : (new policy source).Reaches run) : Always Authorized run.log := by
  refine reaches.rule (P := fun run => Always Authorized run.log) (always_nil _) ?_
  intro run event next reached known step
  rw [step.log]
  exact always_cons (step.authorized reached) known

section

variable {made : Entry V C}

theorem underWay_iff (reaches : (start made).Reaches run) (sound : made.Sound) (free : made.holder = none) :
    UnderWay run.log ↔ ∃ id request phase, run.calls id = some ⟨request, phase⟩ ∧ isPublishing phase = true := by
  refine reaches.rule (P := fun run => UnderWay run.log ↔
    ∃ id request phase, run.calls id = some ⟨request, phase⟩ ∧ isPublishing phase = true)
    (by simp [start, UnderWay]) ?_
  intro run event next reached known step
  have disciplined := disciplined_of_start reached sound free
  rw [step.log, UnderWay]
  constructor
  · rintro (opens | ⟨earlier, uncompleted⟩)
    · cases step with
      | began | returned => simp [Event.writer?] at opens
      | stepped running advance =>
          cases advance <;> simp [Event.writer?] at opens
          exact ⟨_, _, _, Function.update_self .., rfl⟩
    · obtain ⟨id, request, phase, running, publishing⟩ := known.mp earlier
      obtain ⟨after, moved, still⟩ := step.publishing running publishing uncompleted
      exact ⟨id, request, after, moved, still⟩
  · rintro ⟨id, request, phase, found, publishing⟩
    have before {phase : Phase V E} (running : run.calls id = some ⟨request, phase⟩)
        (publishing : isPublishing phase = true) : UnderWay run.log :=
      known.mpr ⟨id, request, phase, running, publishing⟩
    cases step with
    | began =>
        rcases calls_put found with ⟨_, same⟩ | ⟨_, running⟩
        · rw [Call.start_request] at same
          cases same
          have entered := Call.isEntry_start (E := E) request
          simp [inner_of_publishing publishing] at entered
        · exact .inr ⟨before running publishing, rfl⟩
    | @returned _ q outcome _ =>
        rcases calls_put found with ⟨_, same⟩ | ⟨_, running⟩
        · cases same
          have entered := Call.isEntry_resumed q outcome
          simp [inner_of_publishing publishing] at entered
        · exact .inr ⟨before running publishing, rfl⟩
    | @stepped mover now asked current entry after moving advance =>
        rcases calls_put found with ⟨rfl, same⟩ | ⟨different, running⟩
        · cases same
          cases advance with
          | writeSlot => exact .inl rfl
          | writeFlag | readClock => exact .inr ⟨before moving rfl, rfl⟩
          | flagDown | slotEmpty | unstamped | old => simp at publishing
          | _ => simp [isPublishing] at publishing
        · refine .inr ⟨before running publishing, ?_⟩
          cases completes : (Event.stepped mover now run.entry current after : Event V C E).publish? with
          | none => rfl
          | some publish =>
              -- a second publish could only be completed by the call that has the lock
              cases advance <;> simp [Event.publish?] at completes
              exact absurd (disciplined.alone running (holds_of_publishing publishing) moving rfl) different

theorem cells_of_quiet (reaches : (start made).Reaches run) (sound : made.Sound) (free : made.holder = none)
    (quiet : ¬ UnderWay run.log) : run.entry.slot = (lastPublished? run.log).or made.slot ∧
      run.entry.initialized = ((lastPublished? run.log).isSome || made.initialized) := by
  revert quiet
  refine reaches.rule (P := fun run => ¬ UnderWay run.log → run.entry.slot = (lastPublished? run.log).or made.slot ∧
    run.entry.initialized = ((lastPublished? run.log).isSome || made.initialized))
    (fun _ => ⟨rfl, rfl⟩) ?_
  intro run event next reached known step quiet
  rw [step.log, UnderWay, not_or, not_and] at quiet
  rw [step.log, lastPublished?_cons]
  cases step with
  | began | returned => exact known fun earlier => quiet.2 earlier rfl
  | stepped running advance =>
      cases advance with
      | writeStamp =>
          obtain ⟨shown, up, _⟩ := (disciplined_of_start reached sound free).outline _ _ _ running
          exact ⟨shown, up⟩
      | writeSlot => exact absurd rfl quiet.1
      | writeFlag =>
          have opened := (underWay_iff reached sound free).mpr ⟨_, _, _, running, rfl⟩
          exact absurd rfl (quiet.2 opened)
      | _ => exact known fun earlier => quiet.2 earlier rfl

theorem value?_of_quiet (reaches : (start made).Reaches run) (sound : made.Sound) (free : made.holder = none)
    (quiet : ¬ UnderWay run.log) : run.entry.value? = (lastPublished? run.log).or made.value? := by
  obtain ⟨shown, up⟩ := cells_of_quiet reaches sound free quiet
  cases last : lastPublished? run.log <;> simp [Entry.value?, shown, up, last]

theorem steps_show (reaches : (start made).Reaches run) (sound : made.Sound) (free : made.holder = none) :
    Always (Shows made) run.log := by
  refine reaches.rule (P := fun run => Always (Shows made) run.log) (always_nil _) ?_
  intro run event next reached known step
  rw [step.log]
  refine always_cons ?_ known
  cases step with
  | began | returned => trivial
  | stepped => exact fun quiet => value?_of_quiet reached sound free quiet

end

theorem value?_of_free (reaches : (new policy source).Reaches run) (free : run.entry.holder = none) :
    run.entry.value? = lastPublished? run.log := by
  have quiet : ¬ UnderWay run.log := by
    intro opened
    obtain ⟨id, request, phase, running, publishing⟩ :=
      (underWay_iff reaches (sound_new policy source) rfl).mp opened
    have held := ((disciplined_of_new reaches).locked _ _ _ running).mp (holds_of_publishing publishing)
    simp [free] at held
  simpa [Entry.value?] using value?_of_quiet reaches (sound_new policy source) rfl quiet

structure WellKept (run : Run V C E) : Prop where
  nonneg : 0 ≤ run.entry.stamp
  stamped : run.entry.stamp ≠ neverPublished → run.entry.initialized = true
  filled : run.entry.initialized = true → ∃ v, run.entry.slot = some v
  stays : run.entry.initialized = true → ∀ later, run.Reaches later → later.entry.initialized = true
  unread : run.entry.value? = none ↔ run.entry.initialized = false
  /-- a read that others come in between of answers by the flag as it found it -/
  reads : ∀ id found, run.calls id = some ⟨.read, .done (.found found)⟩ →
    ∃ now seen next, .stepped id now seen .valueFlag next ∈ run.log ∧ (found = none ↔ seen.initialized = false)
  takes : ∀ id now seen phase next, .stepped id now seen phase next ∈ run.log →
    (Event.stepped id now seen phase next : Event V C E).takes id = true → seen.slot ≠ none
  held : ∀ id, run.entry.holder = some id ↔ Inside id run.log
  alone : ∀ id other, Inside id run.log → Inside other run.log → id = other
  authorized : Always Authorized run.log
  written : ∀ move next, run.next? move = some next → ∃ event, next.log = event :: run.log ∧
    let shown := event.write?.elim run.entry (Write.apply run.entry)
    (next.entry.slot, next.entry.initialized, next.entry.stamp) = (shown.slot, shown.initialized, shown.stamp)
  settled : run.entry.holder = none → run.entry.initialized = true →
    ∃ v, lastPublished? run.log = some v ∧ run.entry.slot = some v

theorem entry_well_kept (reaches : (new policy source).Reaches run) : run.WellKept := by
  have sound := (disciplined_of_new reaches).sound
  have held (id : CallId) := holder_iff_inside reaches id
  have filled (up : run.entry.initialized = true) : ∃ v, run.entry.slot = some v :=
    Option.ne_none_iff_exists'.mp (sound.filled up)
  constructor
  case nonneg => exact sound.nonneg
  case stamped => exact sound.stamped
  case filled => exact filled
  case stays => exact fun up later further => further.initialized reaches up
  case unread => exact value?_eq_none_iff reaches
  case reads => exact fun id found answered => flag_of_found reaches answered
  case takes => exact fun id now seen phase next member takes => slot_filled reaches member takes
  case held => exact held
  case alone =>
    intro id other inside also
    exact Option.some.inj (((held id).mpr inside).symm.trans ((held other).mpr also))
  case authorized => exact writes_authorized reaches
  case written =>
    intro move next moved
    obtain ⟨event, step⟩ := step_of_next moved
    refine ⟨event, step.log, ?_⟩
    cases step with
    | began | returned => rfl
    | stepped running advance => exact advance.written
  case settled =>
    intro free up
    obtain ⟨v, shown⟩ := filled up
    have last := value?_of_free reaches free
    exact ⟨v, by simpa [Entry.value?, up, shown] using last.symm, shown⟩

/-- A value is published while the clock stands before the epoch. The next publish is under way, with the slot
written and the timestamp cleared by an expiry. -/
def expiryAmidPublish : List (Move Nat Unit Unit) :=
  List.flatten [[.invoke 1 (.store 7)], List.replicate 6 (.step 1 (-3)),
    [.invoke 2 (.store 8)], List.replicate 2 (.step 2 5), [.invoke 3 .expire, .step 3 5],
    [.invoke 4 .read], List.replicate 2 (.step 4 5)]

theorem half_published_entry_well_kept : ∃ run : Run Nat Unit Unit,
    (new .timed .wall).follow? expiryAmidPublish = some run ∧ publishes run.log = [(1, 1)] ∧
      run.entry = { slot := some 8, initialized := true, stamp := 0, holder := some 2 } ∧
      run.calls 4 = some ⟨.read, .done (.found (some 8))⟩ ∧ run.WellKept := by
  have computed : ((new .timed .wall).follow? expiryAmidPublish).map (fun run : Run Nat Unit Unit =>
      (publishes run.log, run.entry, run.calls 4)) =
      some ([(1, 1)], { slot := some 8, initialized := true, stamp := 0, holder := some 2 },
        some ⟨.read, .done (.found (some 8))⟩) := by
    rfl
  obtain ⟨run, followed, facts⟩ := Option.map_eq_some_iff.mp computed
  simp only [Prod.mk.injEq] at facts
  obtain ⟨published, shown, answered⟩ := facts
  exact ⟨run, followed, published, shown, answered, entry_well_kept (.of_follow followed)⟩

end ViewCache.Entry.Run
