import ViewCache.Proofs.Entry.Step

/-!
What holds at every moment of every run: who holds the lock, which cells are filled, and what a call
may rely on at the point that it has come to.
-/
namespace ViewCache.Call

variable {V C E : Type}

def holds : Request V C → Phase V E → Bool
  | _, .recheckFlag _ | _, .recheckStamp _ | _, .coalesceFlag | _, .coalesceSlot | _, .writeSlot _
  | _, .writeFlag _ | _, .readClock _ | _, .writeStamp .. | _, .unlock _ => true
  | .lookup q, .callUpdater | .lookup q, .updating => !q.isUnlocked
  | _, _ => false

def ReplyFits (q : Query C) : Reply V E → Prop
  | .answered _ .fresh | .answered _ .coalesced => q.isUnlocked = false
  | .answered _ .stale => q.isUnlocked = false ∧ q.tolerant = true
  | .answered _ .computed | .failed _ => True
  | .stored | .expired | .found _ => False

def isUnderLock : Reply V E → Bool
  | .answered _ .fresh | .answered _ .stale => false
  | _ => true

def LookupFits (q : Query C) : Phase V E → Prop
  | .loadStamp | .loadFlag _ | .readSlot _ | .checkAge .. | .lock _ | .recheckFlag _ | .recheckStamp _
  | .coalesceFlag | .coalesceSlot => q.isUnlocked = false
  | .tryLock _ | .staleFlag _ | .staleSlot _ => q.isUnlocked = false ∧ q.tolerant = true
  | .tryPublish _ => q.isUnlocked = true
  | .callUpdater | .updating | .writeSlot _ | .writeFlag _ | .readClock _ | .writeStamp .. => True
  | .unlock reply => ReplyFits q reply ∧ isUnderLock reply = true
  | .done reply => ReplyFits q reply
  | .lockStore | .clearStamp | .valueFlag | .valueSlot => False

def StoreFits (v : V) : Phase V E → Prop
  | .lockStore | .unlock .stored | .done .stored => True
  | .writeSlot w | .writeFlag w | .readClock w | .writeStamp w _ => w = v
  | _ => False

def Fits : Request V C → Phase V E → Prop
  | .lookup q, phase => LookupFits q phase
  | .store v, phase => StoreFits v phase
  | .expire, phase => phase = .clearStamp ∨ phase = .done .expired
  | .read, phase => phase = .valueFlag ∨ phase = .valueSlot ∨ ∃ v, phase = .done (.found v)

/-- What a call knows of the entry in each phase. -/
def Outline (entry : Entry V C) : Phase V E → Prop
  | .loadFlag snapshot => snapshot ≠ neverPublished → entry.initialized = true
  | .readSlot _ | .checkAge .. | .staleSlot _ | .recheckStamp _ | .coalesceFlag | .coalesceSlot
  | .valueSlot => entry.initialized = true
  | .writeFlag v => entry.slot = some v
  | .readClock v => entry.slot = some v ∧ entry.initialized = true
  | .writeStamp v stamp => entry.slot = some v ∧ entry.initialized = true ∧ 1 ≤ stamp
  | _ => True

structure Keeps (me : CallId) (before after : Entry V C) : Prop where
  flag : before.initialized = true → after.initialized = true
  filled : before.slot ≠ none → after.slot ≠ none
  policy : after.policy = before.policy
  holder : ∀ other, other ≠ me → (after.holder = some other ↔ before.holder = some other)
  owner : ∀ other, other ≠ me → before.holder = some other →
    after.slot = before.slot ∧ after.initialized = before.initialized ∧
      (after.stamp = before.stamp ∨ after.stamp = neverPublished)

theorem Keeps.refl (me : CallId) (entry : Entry V C) : Keeps me entry entry := by
  constructor <;> simp

theorem Keeps.take {me : CallId} {entry : Entry V C} (free : entry.holder = none) :
    Keeps me entry (take entry me) := by
  constructor
  case flag => exact id
  case filled => exact id
  case policy => rfl
  case holder =>
      intro other different
      have unheld : me ≠ other := Ne.symm different
      simp [Call.take, free, unheld]
  case owner =>
      intro other _ held
      rw [free] at held
      cases held

theorem Keeps.expire (me : CallId) (entry : Entry V C) : Keeps me entry entry.expire := by
  constructor <;> simp [Entry.expire]

/-- The call that has the lock may write what it likes, as long as it does not empty the entry. -/
theorem Keeps.of_owner {me : CallId} {entry after : Entry V C} (held : entry.holder = some me)
    (flag : entry.initialized = true → after.initialized = true)
    (filled : entry.slot ≠ none → after.slot ≠ none) (policy : after.policy = entry.policy)
    (mine : ∀ other, after.holder = some other → other = me) : Keeps me entry after := by
  have unheld (other : CallId) (different : other ≠ me) : entry.holder ≠ some other := by
    rw [held]
    exact fun same => different (Option.some.inj same).symm
  constructor
  case flag => exact flag
  case filled => exact filled
  case policy => exact policy
  case holder =>
      intro other different
      have gone : after.holder ≠ some other := fun owned => different (mine other owned)
      exact iff_of_false gone (unheld other different)
  case owner =>
      intro other different owned
      exact absurd owned (unheld other different)

theorem Advance.keeps {me : CallId} {now : Int} {request : Request V C} {entry after : Entry V C}
    {phase next : Phase V E} (advance : Advance me now request entry phase after next)
    (locked : holds request phase = true → entry.holder = some me) : Keeps me entry after := by
  have alone (held : entry.holder = some me) (other : CallId) (owned : entry.holder = some other) :
      other = me := Option.some.inj (owned.symm.trans held)
  cases advance with
  | tryFree free | locked free | publishFree free | storeLocked _ free => exact .take free
  | clearStamp => exact .expire me entry
  | writeSlot => exact .of_owner (locked rfl) id (by simp) rfl (alone (locked rfl))
  | writeFlag => exact .of_owner (locked rfl) (fun _ => rfl) id rfl (alone (locked rfl))
  | writeStamp => exact .of_owner (locked rfl) id id rfl (alone (locked rfl))
  | unlock => exact .of_owner (locked rfl) id id rfl (by simp)
  | _ => exact .refl me entry

theorem expire_of_clearStamp {request : Request V C} (fits : Fits request (.clearStamp : Phase V E)) :
    request = .expire := by
  cases request <;> simp_all [Fits, LookupFits, StoreFits]

theorem isUnderLock_of_unlock {request : Request V C} {reply : Reply V E}
    (fits : Fits request (.unlock reply)) : isUnderLock reply = true := by
  cases request with
  | lookup q => exact fits.2
  | store v => cases reply <;> simp_all [Fits, StoreFits, isUnderLock]
  | expire | read => simp [Fits] at fits

theorem start_fits (request : Request V C) :
    Fits request (start request : Call V C E).phase ∧
      holds request (start request : Call V C E).phase = false ∧
      ∀ entry : Entry V C, Outline entry (start request : Call V C E).phase := by
  cases request with
  | lookup q =>
      cases unlocked : q.isUnlocked <;> simp [start, unlocked, Fits, LookupFits, holds, Outline]
  | store | expire | read => simp [start, Fits, StoreFits, holds, Outline]

theorem resumed_fits (q : Query C) (outcome : Except E V) :
    Fits (.lookup q) (resumed q outcome) ∧
      holds (.lookup q : Request V C) (resumed q outcome) = !q.isUnlocked ∧
      ∀ entry : Entry V C, Outline entry (resumed q outcome) := by
  cases outcome <;> cases unlocked : q.isUnlocked <;>
    simp [resumed, unlocked, Fits, LookupFits, ReplyFits, isUnderLock, holds, Outline]

@[simp]
theorem lookupFits_contend {q asked : Query C} {snapshot : Int} (same : asked = q) :
    LookupFits q (contend asked snapshot : Phase V E) ↔ q.isUnlocked = false := by
  subst same
  cases tolerant : asked.tolerant <;> simp [contend, tolerant, LookupFits]

@[simp]
theorem holds_contend (request : Request V C) (q : Query C) (snapshot : Int) :
    holds request (contend q snapshot : Phase V E) = false := by
  cases tolerant : q.tolerant <;> cases request <;> simp [contend, tolerant, holds]

@[simp]
theorem outline_contend (entry : Entry V C) (q : Query C) (snapshot : Int) :
    Outline entry (contend q snapshot : Phase V E) := by
  cases tolerant : q.tolerant <;> simp [contend, tolerant, Outline]

theorem Advance.fits_next {me : CallId} {now : Int} {request : Request V C} {entry after : Entry V C}
    {phase next : Phase V E} (advance : Advance me now request entry phase after next)
    (fits : Fits request phase) : Fits request next := by
  cases request with
  | lookup q =>
      cases advance with
      | flagDown lookup | slotEmpty lookup | unstamped lookup | old lookup =>
          cases lookup
          exact (lookupFits_contend rfl).mpr fits
      | _ => simp_all [Fits, LookupFits, ReplyFits, isUnderLock, published]
  | store v =>
      cases advance with
      | @unlock reply => cases reply <;> simp_all [Fits, StoreFits]
      | _ => simp_all [Fits, StoreFits, published]
  | expire => cases advance <;> simp_all [Fits]
  | read => cases advance <;> simp_all [Fits]

theorem Advance.holder_next {me : CallId} {now : Int} {request : Request V C} {entry after : Entry V C}
    {phase next : Phase V E} (advance : Advance me now request entry phase after next)
    (fits : Fits request phase) (locked : holds request phase = true ↔ entry.holder = some me) :
    holds request next = true ↔ after.holder = some me := by
  cases request with
  | lookup q =>
      cases advance with
      | flagDown | slotEmpty | unstamped | old =>
          rw [holds_contend]
          exact locked
      | _ => simp_all [Fits, LookupFits, holds, take]
  | store v => cases advance <;> simp_all [Fits, StoreFits, holds, take]
  | expire => cases advance <;> simp_all [Fits, holds, Entry.expire]
  | read => cases advance <;> simp_all [Fits, holds]

theorem Outline.kept {entry after : Entry V C} {phase : Phase V E} {request : Request V C}
    {me other : CallId} (keeps : Keeps me entry after) (different : other ≠ me)
    (locked : holds request phase = true → entry.holder = some other) (outline : Outline entry phase) :
    Outline after phase := by
  have owner := keeps.owner other different
  cases phase with
  | loadFlag snapshot => exact fun stamped => keeps.flag (outline stamped)
  | readSlot | checkAge | staleSlot | recheckStamp | coalesceFlag | coalesceSlot | valueSlot =>
      exact keeps.flag outline
  | writeFlag v => exact (owner (locked (by simp [holds]))).1.trans outline
  | readClock v =>
      obtain ⟨slot, flag, _⟩ := owner (locked (by simp [holds]))
      exact ⟨slot.trans outline.1, flag.trans outline.2⟩
  | writeStamp v stamp =>
      obtain ⟨slot, flag, _⟩ := owner (locked (by simp [holds]))
      exact ⟨slot.trans outline.1, flag.trans outline.2.1, outline.2.2⟩
  | _ => trivial

end ViewCache.Call

namespace ViewCache.Entry

variable {V C E : Type}

structure Sound (entry : Entry V C) : Prop where
  nonneg : 0 ≤ entry.stamp
  stamped : entry.stamp ≠ neverPublished → entry.initialized = true
  filled : entry.initialized = true → entry.slot ≠ none

end ViewCache.Entry

namespace ViewCache.Call

variable {V C E : Type}

theorem Advance.sound_next {me : CallId} {now : Int} {request : Request V C} {entry after : Entry V C}
    {phase next : Phase V E} (advance : Advance me now request entry phase after next)
    (outline : Outline entry phase) (sound : entry.Sound) : after.Sound := by
  have stamped := sound.stamped
  have filled := sound.filled
  cases advance with
  | tryFree | locked | publishFree | storeLocked => exact ⟨sound.nonneg, stamped, filled⟩
  | writeSlot => exact ⟨sound.nonneg, stamped, by simp⟩
  | writeFlag =>
      have held : entry.slot = some _ := outline
      exact ⟨sound.nonneg, fun _ => rfl, by simp [held]⟩
  | writeStamp =>
      obtain ⟨_, up, positive⟩ := outline
      refine ⟨?_, fun _ => up, filled⟩
      simp only
      omega
  | unlock => exact ⟨sound.nonneg, stamped, filled⟩
  | clearStamp => exact ⟨Int.le_refl 0, fun stamped => absurd rfl stamped, filled⟩
  | _ => exact sound

theorem Advance.outline_next {me : CallId} {now : Int} {request : Request V C} {entry after : Entry V C}
    {phase next : Phase V E} (advance : Advance me now request entry phase after next)
    (outline : Outline entry phase) (sound : entry.Sound) : Outline after next := by
  cases advance with
  | loadStamp => exact sound.stamped
  | flagUp _ up | staleUp up | recheckUp up | coalesceUp up | valueUp up => exact up
  | flagDown | slotEmpty | unstamped | old => exact outline_contend ..
  | aging | refreshed => exact outline
  | writeSlot => rfl
  | writeFlag => exact ⟨outline, rfl⟩
  | readClock =>
      obtain ⟨held, up⟩ := outline
      refine ⟨held, up, ?_⟩
      simp only [Entry.stampAt]
      omega
  | _ => trivial

end ViewCache.Call

namespace ViewCache.Entry.Run

open Call (holds Fits Outline)

variable {V C E : Type}

structure Disciplined (run : Run V C E) : Prop where
  sound : run.entry.Sound
  owned : ∀ id, run.entry.holder = some id → ∃ call, run.calls id = some call
  fits : ∀ id request phase, run.calls id = some ⟨request, phase⟩ → Fits request phase
  locked : ∀ id request phase, run.calls id = some ⟨request, phase⟩ →
    (holds request phase = true ↔ run.entry.holder = some id)
  outline : ∀ id request phase, run.calls id = some ⟨request, phase⟩ → Outline run.entry phase

theorem disciplined_start {entry : Entry V C} (sound : entry.Sound) (free : entry.holder = none) :
    (start entry : Run V C E).Disciplined := by
  refine ⟨sound, ?_, ?_, ?_, ?_⟩ <;> simp [start, free]

theorem Disciplined.put {run : Run V C E} (disciplined : run.Disciplined) {id : CallId}
    {request : Request V C} {phase : Phase V E} {entry : Entry V C} {event : Event V C E}
    (keeps : Call.Keeps id run.entry entry) (sound : entry.Sound) (fit : Fits request phase)
    (held : holds request phase = true ↔ entry.holder = some id) (known : Outline entry phase) :
    (run.put id ⟨request, phase⟩ entry event).Disciplined := by
  obtain ⟨_, owned, fits, locked, outline⟩ := disciplined
  refine ⟨sound, ?_, ?_, ?_, ?_⟩
  · intro holder held
    by_cases same : holder = id
    · exact ⟨⟨request, phase⟩, by simp [Run.put, same]⟩
    · obtain ⟨call, running⟩ := owned holder ((keeps.holder holder same).mp held)
      exact ⟨call, by simpa [Run.put, same] using running⟩
  · intro other _ _ found
    rcases calls_put found with ⟨rfl, same⟩ | ⟨_, running⟩
    · cases same
      exact fit
    · exact fits _ _ _ running
  · intro other _ _ found
    rcases calls_put found with ⟨rfl, same⟩ | ⟨different, running⟩
    · cases same
      exact held
    · rw [locked _ _ _ running]
      exact (keeps.holder other different).symm
  · intro other _ _ found
    rcases calls_put found with ⟨rfl, same⟩ | ⟨different, running⟩
    · cases same
      exact known
    · exact (outline _ _ _ running).kept keeps different (locked _ _ _ running).mp

theorem Disciplined.step {run next : Run V C E} {event : Event V C E} (disciplined : run.Disciplined)
    (step : Step run event next) : next.Disciplined := by
  cases step with
  | @began id request unused =>
      have unheld : run.entry.holder ≠ some id := by
        intro held
        obtain ⟨call, running⟩ := disciplined.owned id held
        simp [unused] at running
      obtain ⟨fit, unlocked, known⟩ := Call.start_fits (E := E) request
      rw [Call.start_request]
      exact disciplined.put (.refl id _) disciplined.sound fit (by simp [unlocked, unheld]) (known _)
  | @stepped id now request phase entry after running advance =>
      have locked := disciplined.locked _ _ _ running
      have fit := disciplined.fits _ _ _ running
      have known := disciplined.outline _ _ _ running
      exact disciplined.put (advance.keeps locked.mp) (advance.sound_next known disciplined.sound)
        (advance.fits_next fit) (advance.holder_next fit locked)
        (advance.outline_next known disciplined.sound)
  | @returned id q outcome running =>
      obtain ⟨fit, held, known⟩ := Call.resumed_fits q outcome
      have locked := disciplined.locked _ _ _ running
      exact disciplined.put (.refl id _) disciplined.sound fit (by rw [held]; exact locked) (known _)

theorem Disciplined.alone {run : Run V C E} (disciplined : run.Disciplined) {id other : CallId}
    {request asked : Request V C} {phase current : Phase V E} (running : run.calls id = some ⟨request, phase⟩)
    (locked : holds request phase = true) (moving : run.calls other = some ⟨asked, current⟩)
    (owning : holds asked current = true) : id = other := by
  have mine := (disciplined.locked _ _ _ running).mp locked
  have others := (disciplined.locked _ _ _ moving).mp owning
  exact Option.some.inj (mine.symm.trans others)

theorem disciplined_of_start {entry : Entry V C} {run : Run V C E} (reaches : (start entry).Reaches run)
    (sound : entry.Sound) (free : entry.holder = none) : run.Disciplined :=
  reaches.rule (disciplined_start sound free) (fun _ disciplined step => disciplined.step step)

theorem sound_new (policy : RefreshPolicy V C) (source : TimeSource) :
    ({ policy, source } : Entry V C).Sound := ⟨by simp [neverPublished], by simp, by simp⟩

theorem disciplined_of_new {policy : RefreshPolicy V C} {source : TimeSource} {run : Run V C E}
    (reaches : (new policy source).Reaches run) : run.Disciplined :=
  disciplined_of_start reaches (sound_new policy source) rfl

end ViewCache.Entry.Run
