import ViewCache.Entry.Alone
import ViewCache.Proofs.Entry.Step

/-!
Calls made one after another. Whether a lookup calls its updater, and what it answers, can be read off the
calls before it: what they published last, what the clock read then, and whether the entry was expired since.
-/
namespace ViewCache.Call

variable {V C E : Type}

def runCounted (outcome : Except E V) (later : Int) :
    Nat → Int → Entry V C → Call V C E → (Entry V C × Call V C E) × Nat
  | 0, _, entry, call => ((entry, call), 0)
  | fuel + 1, now, entry, call =>
    match call.step 0 now entry with
    | some (entry, call) => runCounted outcome later fuel now entry call
    | none =>
      match call.resume outcome with
      | some call =>
        let (last, times) := runCounted outcome later fuel later entry call
        (last, times + 1)
      | none => ((entry, call), 0)

theorem runCounted_fst (outcome : Except E V) (later : Int) (fuel : Nat) (now : Int) (entry : Entry V C)
    (call : Call V C E) :
    (runCounted outcome later fuel now entry call).1 = runAlone outcome later fuel now entry call := by
  induction fuel generalizing now entry call with
  | zero => rfl
  | succ fuel ih =>
      simp only [runCounted, runAlone]
      cases call.step 0 now entry with
      | some next => exact ih _ _ _
      | none =>
          cases call.resume outcome with
          | some call => exact ih _ _ _
          | none => rfl

def republished (entry : Entry V C) (v : V) (reading : Int) : Entry V C :=
  { entry with slot := some v, initialized := true, stamp := Entry.stampAt reading, holder := none }

def updated (entry : Entry V C) (reading : Int) : Except E V → Entry V C
  | .ok v => republished entry v reading
  | .error _ => { entry with holder := none }

section

variable {outcome : Except E V} {later now : Int} {entry after : Entry V C} {request : Request V C}
  {phase next : Phase V E} {q : Query C}

theorem runCounted_step (fuel : Nat) (advance : Advance 0 now request entry phase after next) :
    runCounted outcome later (fuel + 1) now entry ⟨request, phase⟩ =
      runCounted outcome later fuel now after ⟨request, next⟩ := by
  simp [runCounted, step, advance_of_case advance]

theorem runCounted_done (fuel : Nat) (reply : Reply V E) :
    runCounted outcome later fuel now entry ⟨request, .done reply⟩ = ((entry, ⟨request, .done reply⟩), 0) := by
  cases fuel with
  | zero => rfl
  | succ fuel => cases request <;> rfl

theorem runCounted_publish (fuel : Nat) (v : V) :
    runCounted outcome later (fuel + 5) now entry ⟨request, .writeSlot v⟩ =
      ((republished entry v now, ⟨request, .done (published request v)⟩), 0) := by
  rw [runCounted_step _ .writeSlot, runCounted_step _ .writeFlag, runCounted_step _ .readClock,
    runCounted_step _ .writeStamp, runCounted_step _ .unlock, runCounted_done]
  rfl

theorem runCounted_callUpdater (fuel : Nat) (free : q.isUnlocked = true → entry.holder = none) :
    runCounted outcome later (fuel + 8) now entry ⟨.lookup q, .callUpdater⟩ =
      ((updated entry later outcome, ⟨.lookup q, .done (Entry.ownReply outcome)⟩), 1) := by
  have ends : runCounted outcome later (fuel + 6) later entry ⟨.lookup q, resumed q outcome⟩ =
      ((updated entry later outcome, ⟨.lookup q, .done (Entry.ownReply outcome)⟩), 0) := by
    cases outcome with
    | ok v =>
        cases unlocked : q.isUnlocked with
        | true =>
            simp only [resumed, unlocked, if_true]
            rw [runCounted_step _ (.publishFree (free unlocked)), runCounted_publish]
            rfl
        | false =>
            simp only [resumed, unlocked]
            exact runCounted_publish (fuel + 1) v
    | error cause =>
        cases unlocked : q.isUnlocked with
        | true =>
            have same : { entry with holder := none } = entry := by simp only [← free unlocked]
            simp only [resumed, unlocked, if_true, runCounted_done, updated, same]
            rfl
        | false =>
            simp only [resumed, unlocked]
            exact (runCounted_step _ .unlock).trans (runCounted_done ..)
  have called : runCounted outcome later (fuel + 7) now entry ⟨.lookup q, .updating⟩ =
      let (last, times) := runCounted outcome later (fuel + 6) later entry ⟨.lookup q, resumed q outcome⟩
      (last, times + 1) := rfl
  rw [runCounted_step _ .callUpdater, called, ends]

theorem runCounted_contend (fuel : Nat) (waits : q.isUnlocked = false) (free : entry.holder = none) :
    runCounted outcome later (fuel + 11) now entry ⟨.lookup q, contend q entry.stamp⟩ =
      ((updated entry later outcome, ⟨.lookup q, .done (Entry.ownReply outcome)⟩), 1) := by
  have locks : Advance 0 now (.lookup q) entry (contend q entry.stamp : Phase V E) (take entry 0)
      (.recheckFlag entry.stamp) := by
    cases tolerant : q.tolerant <;> simp only [contend, tolerant, if_true]
    · exact .locked free
    · exact .tryFree free
  have same : updated (take entry 0) later outcome = updated entry later outcome := by
    cases outcome <;> rfl
  have held : q.isUnlocked = true → (take entry 0).holder = none := by simp [waits]
  rw [runCounted_step _ locks, ← same]
  cases up : (take entry 0).initialized with
  | false =>
      rw [runCounted_step _ (.recheckDown up)]
      exact runCounted_callUpdater (fuel + 1) held
  | true =>
      -- nobody has come in between, so that the recheck sees what the lookup has loaded
      have unmoved : entry.stamp = (take entry 0).stamp := rfl
      rw [runCounted_step _ (.recheckUp up), runCounted_step _ (.unrefreshed (.inl unmoved))]
      exact runCounted_callUpdater fuel held

end

end ViewCache.Call

namespace ViewCache.Entry

variable {V C E : Type}

/-- A call that has the entry to itself. The clock reads `now` when it is made and `later` once its updater
has returned; between two calls it may move either way. -/
structure Turn (V C E : Type) where
  request : Request V C
  outcome : Except E V
  now : Int
  later : Int

structure Standing (V : Type) where
  value : V
  reading : Int
  expired : Bool

namespace Turn

def play (turn : Turn V C E) (entry : Entry V C) : Entry V C × Option (Reply V E) :=
  entry.perform turn.request turn.outcome turn.now turn.later

def updates (turn : Turn V C E) (entry : Entry V C) : Nat :=
  (Call.runCounted turn.outcome turn.later Call.manySteps turn.now entry (Call.start turn.request)).2

def publish? (turn : Turn V C E) (updates : Nat) : Option (V × Int) :=
  match turn.request, turn.outcome with
  | .store v, _ => some (v, turn.now)
  | .lookup _, .ok v => if updates = 0 then none else some (v, turn.later)
  | _, _ => none

def impatient (turn : Turn V C E) : Turn V C E :=
  match turn.request with
  | .lookup q => { turn with request := .lookup { q with tolerant := false } }
  | _ => turn

end Turn

section

variable (policy : RefreshPolicy V C) (source : TimeSource)

def afterTurns : List (Turn V C E) → Entry V C
  | [] => { policy, source }
  | turn :: earlier => (turn.play (afterTurns earlier)).1

def standing : List (Turn V C E) → Option (Standing V)
  | [] => none
  | turn :: earlier =>
    match turn.publish? (turn.updates (afterTurns policy source earlier)) with
    | some (v, reading) => some ⟨v, reading, false⟩
    | none =>
      match turn.request with
      | .expire => (standing earlier).map ({ · with expired := true })
      | _ => standing earlier

def showing : Option (Standing V) → Entry V C
  | none => { policy, source }
  | some last =>
    { slot := some last.value, initialized := true, policy, source
      stamp := if last.expired then neverPublished else stampAt last.reading }

/-- What was published last does not answer the lookup: there is nothing, or it is not pinned for the
lookup's context, and was expired since or is older than the timeout. -/
def Unserved (last? : Option (Standing V)) (q : Query C) (now : Int) : Prop :=
  ∀ last, last? = some last → policy.isPinned last.value q.context = false ∧
    (last.expired = true ∨ 0 < q.timeout ∧ q.timeout < now - max 1 last.reading)

end

section

variable {policy : RefreshPolicy V C} {source : TimeSource}

open Call

@[simp]
theorem showing_holder (last? : Option (Standing V)) : (showing policy source last?).holder = none := by
  cases last? <;> rfl

theorem stampAt_ne_neverPublished (reading : Int) : stampAt reading ≠ neverPublished := by
  simp only [stampAt, neverPublished]
  omega

variable {q : Query C} {outcome : Except E V} {now later : Int}

theorem start_of_waits (waits : q.isUnlocked = false) :
    (start (.lookup q) : Call V C E) = ⟨.lookup q, .loadStamp⟩ := by
  simp [start, waits]

theorem runCounted_free {entry : Entry V C} (free : entry.holder = none) (q : Query C) (outcome : Except E V)
    (now later : Int) : ∃ last reply times,
      runCounted outcome later manySteps now entry (start (.lookup q)) = ((last, ⟨.lookup q, .done reply⟩), times) ∧
        (last = entry ∨ last = updated entry later outcome) := by
  cases unlocked : q.isUnlocked with
  | true =>
      have begins : (start (.lookup q) : Call V C E) = ⟨.lookup q, .callUpdater⟩ := by simp [start, unlocked]
      rw [begins]
      exact ⟨_, _, _, runCounted_callUpdater 16 (fun _ => free), .inr rfl⟩
  | false =>
      rw [start_of_waits unlocked, manySteps, runCounted_step _ .loadStamp]
      cases flag : entry.initialized with
      | false =>
          rw [runCounted_step _ (.flagDown rfl flag)]
          exact ⟨_, _, _, runCounted_contend 11 unlocked free, .inr rfl⟩
      | true =>
          rw [runCounted_step _ (.flagUp rfl flag)]
          cases held : entry.slot with
          | none =>
              rw [runCounted_step _ (.slotEmpty rfl held)]
              exact ⟨_, _, _, runCounted_contend 10 unlocked free, .inr rfl⟩
          | some v =>
              cases pin : entry.policy.isPinned v q.context with
              | true => exact ⟨_, _, _, (runCounted_step _ (.pinned rfl held pin)).trans (runCounted_done ..), .inl rfl⟩
              | false =>
                  by_cases zero : entry.stamp = neverPublished
                  · rw [runCounted_step _ (.unstamped rfl held pin zero)]
                    exact ⟨_, _, _, runCounted_contend 10 unlocked free, .inr rfl⟩
                  · by_cases negative : q.timeout < 0
                    · rw [runCounted_step _ (.forever rfl held pin zero negative)]
                      exact ⟨_, _, _, runCounted_done .., .inl rfl⟩
                    · rw [runCounted_step _ (.aging rfl held pin zero (by omega))]
                      by_cases elapsed : q.timeout < now - entry.stamp
                      · rw [runCounted_step _ (.old rfl elapsed)]
                        exact ⟨_, _, _, runCounted_contend 9 unlocked free, .inr rfl⟩
                      · rw [runCounted_step _ (.young rfl (by omega))]
                        exact ⟨_, _, _, runCounted_done .., .inl rfl⟩

theorem runCounted_unserved {last? : Option (Standing V)} (waits : q.isUnlocked = false)
    (unserved : Unserved policy last? q now) :
    runCounted outcome later manySteps now (showing policy source last?) (start (.lookup q)) =
      ((updated (showing policy source last?) later outcome, ⟨.lookup q, .done (ownReply outcome)⟩), 1) := by
  rw [start_of_waits waits, manySteps, runCounted_step _ .loadStamp]
  cases last? with
  | none =>
      rw [runCounted_step _ (.flagDown rfl rfl)]
      exact runCounted_contend 11 waits rfl
  | some last =>
      obtain ⟨unpinned, due⟩ := unserved last rfl
      rw [runCounted_step _ (.flagUp rfl rfl)]
      by_cases zero : (showing policy source (some last)).stamp = neverPublished
      · rw [runCounted_step _ (.unstamped rfl rfl unpinned zero)]
        exact runCounted_contend 10 waits rfl
      · have unexpired : last.expired = false := by
          cases expired : last.expired <;> simp_all [showing]
        have aged : 0 < q.timeout ∧ q.timeout < now - max 1 last.reading := by simpa [unexpired] using due
        have elapsed : q.timeout < now - (showing policy source (some last)).stamp := by
          simpa [showing, unexpired, stampAt] using aged.2
        rw [runCounted_step _ (.aging rfl rfl unpinned zero (by omega)), runCounted_step _ (.old rfl elapsed)]
        exact runCounted_contend 9 waits rfl

theorem runCounted_served {last : Standing V} (waits : q.isUnlocked = false)
    (served : ¬ Unserved policy (some last) q now) :
    runCounted outcome later manySteps now (showing policy source (some last)) (start (.lookup q)) =
      ((showing policy source (some last), ⟨.lookup q, .done (.answered last.value .fresh)⟩), 0) := by
  rw [start_of_waits waits, manySteps, runCounted_step _ .loadStamp, runCounted_step _ (.flagUp rfl rfl)]
  cases pin : policy.isPinned last.value q.context with
  | true => rw [runCounted_step _ (.pinned rfl rfl pin), runCounted_done]
  | false =>
      have young : last.expired = false ∧ (0 < q.timeout → now - max 1 last.reading ≤ q.timeout) := by
        simpa [Unserved, pin] using served
      obtain ⟨unexpired, young⟩ := young
      have shown : (showing policy source (some last)).stamp = stampAt last.reading := by
        simp [showing, unexpired]
      have stamped : (showing policy source (some last)).stamp ≠ neverPublished := by
        rw [shown]
        exact stampAt_ne_neverPublished last.reading
      by_cases negative : q.timeout < 0
      · rw [runCounted_step _ (.forever rfl rfl pin stamped negative), runCounted_done]
      · have positive : 0 < q.timeout := by
          have nonzero : q.timeout ≠ 0 := by simpa [Query.isUnlocked, Timeout.never] using waits
          omega
        have age : now - (showing policy source (some last)).stamp ≤ q.timeout := by
          rw [shown]
          exact young positive
        rw [runCounted_step _ (.aging rfl rfl pin stamped (by omega)), runCounted_step _ (.young rfl age),
          runCounted_done]

variable (source) in
theorem runCounted_lookup (last? : Option (Standing V)) (q : Query C) (outcome : Except E V)
    (now later : Int) :
    (q.timeout = 0 ∨ Unserved policy last? q now) ∧
        runCounted outcome later manySteps now (showing policy source last?) (start (.lookup q)) =
          ((updated (showing policy source last?) later outcome, ⟨.lookup q, .done (ownReply outcome)⟩), 1) ∨
      ∃ last, last? = some last ∧ ¬ (q.timeout = 0 ∨ Unserved policy last? q now) ∧
        runCounted outcome later manySteps now (showing policy source last?) (start (.lookup q)) =
          ((showing policy source last?, ⟨.lookup q, .done (.answered last.value .fresh)⟩), 0) := by
  cases unlocked : q.isUnlocked with
  | true =>
      have zero : q.timeout = 0 := by simpa [Query.isUnlocked, Timeout.never] using unlocked
      have begins : (start (.lookup q) : Call V C E) = ⟨.lookup q, .callUpdater⟩ := by simp [start, unlocked]
      rw [begins]
      exact .inl ⟨.inl zero, runCounted_callUpdater 16 (fun _ => showing_holder last?)⟩
  | false =>
      have nonzero : q.timeout ≠ 0 := by simpa [Query.isUnlocked, Timeout.never] using unlocked
      by_cases unserved : Unserved policy last? q now
      · exact .inl ⟨.inr unserved, runCounted_unserved unlocked unserved⟩
      · cases last? with
        | none => exact absurd (fun last found => by cases found) unserved
        | some last =>
            exact .inr ⟨last, rfl, by simp [nonzero, unserved], runCounted_served unlocked unserved⟩

theorem play_eq (turn : Turn V C E) (entry : Entry V C) :
    turn.play entry =
      let (last, _) := runCounted turn.outcome turn.later manySteps turn.now entry (start turn.request)
      (last.1, last.2.reply?) := by
  simp only [Turn.play, Entry.perform, ← runCounted_fst]

/-- The history of an entry shows in its three cells, and nothing else of it does. -/
theorem afterTurns_eq_showing (turns : List (Turn V C E)) :
    afterTurns policy source turns = showing policy source (standing policy source turns) := by
  induction turns with
  | nil => rfl
  | cons turn earlier ih =>
      obtain ⟨request, outcome, now, later⟩ := turn
      simp only [afterTurns, standing, ih, play_eq, Turn.updates]
      generalize standing policy source earlier = last?
      cases request with
      | lookup q =>
          rcases runCounted_lookup source last? q outcome now later with
            ⟨_, played⟩ | ⟨last, _, _, played⟩
          · rw [played]
            cases outcome <;> cases last? <;> rfl
          · rw [played]
            cases outcome <;> rfl
      | store v =>
          have played : runCounted outcome later manySteps now (showing policy source last?)
              (start (.store v)) =
                ((republished (showing policy source last?) v now, ⟨.store v, .done .stored⟩), 0) :=
            (runCounted_step _ (.storeLocked rfl (showing_holder last?))).trans (runCounted_publish 18 v)
          rw [played]
          cases last? <;> cases outcome <;> rfl
      | expire => cases last? <;> cases outcome <;> rfl
      | read => cases last? <;> cases outcome <;> rfl

@[simp]
theorem publish?_impatient (turn : Turn V C E) (updates : Nat) :
    turn.impatient.publish? updates = turn.publish? updates := by
  obtain ⟨request, outcome, now, later⟩ := turn
  cases request <;> cases outcome <;> rfl

theorem impatient_same (turn : Turn V C E) (last? : Option (Standing V)) :
    turn.impatient.play (showing policy source last?) = turn.play (showing policy source last?) ∧
      turn.impatient.updates (showing policy source last?) = turn.updates (showing policy source last?) := by
  obtain ⟨request, outcome, now, later⟩ := turn
  cases request with
  | lookup q =>
      have blind : Unserved policy last? { q with tolerant := false } now ↔ Unserved policy last? q now := .rfl
      simp only [Turn.impatient, play_eq, Turn.updates]
      rcases runCounted_lookup source last? q outcome now later with
        ⟨called, played⟩ | ⟨last, found, served, played⟩ <;>
      rcases runCounted_lookup source last? { q with tolerant := false } outcome now later with
        ⟨calledToo, playedToo⟩ | ⟨other, foundToo, servedToo, playedToo⟩
      · rw [played, playedToo]
        exact ⟨rfl, rfl⟩
      · exact absurd called servedToo
      · exact absurd calledToo served
      · have same : other = last := by simpa [found] using foundToo.symm
        rw [played, playedToo, same]
        exact ⟨rfl, rfl⟩
  | store | expire | read => exact ⟨rfl, rfl⟩

theorem standing_impatient (turns : List (Turn V C E)) :
    standing policy source (turns.map Turn.impatient) = standing policy source turns := by
  induction turns with
  | nil => rfl
  | cons turn earlier ih =>
      simp only [List.map_cons, standing, afterTurns_eq_showing, ih, publish?_impatient, (impatient_same turn _).2]
      obtain ⟨request, outcome, now, later⟩ := turn
      cases request <;> rfl

/-- An unpinned value is recomputed exactly when the entry itself says that it has expired. -/
theorem unserved_iff_hasExpired {last : Standing V} (nonzero : q.timeout ≠ 0)
    (unpinned : policy.isPinned last.value q.context = false) :
    Unserved policy (some last) q now ↔ (showing policy source (some last)).hasExpired q.timeout now = true := by
  have positive : 0 ≤ q.timeout ↔ 0 < q.timeout := by omega
  cases expired : last.expired with
  | true => simp [Unserved, unpinned, expired, showing, hasExpired, expiredSince]
  | false =>
      have stamped : max 1 last.reading ≠ neverPublished := stampAt_ne_neverPublished last.reading
      simp [Unserved, unpinned, expired, showing, hasExpired, expiredSince, stamped, positive, stampAt]

section

variable (policy : RefreshPolicy V C) (source : TimeSource)

structure FollowsHistory (earlier : List (Turn V C E)) (q : Query C) (turn : Turn V C E) : Prop where
  once : turn.updates (afterTurns policy source earlier) ≤ 1
  called_iff : turn.updates (afterTurns policy source earlier) = 1 ↔
    q.timeout = 0 ∨ Unserved policy (standing policy source earlier) q turn.now
  own : turn.updates (afterTurns policy source earlier) = 1 →
    (turn.play (afterTurns policy source earlier)).2 = some (ownReply turn.outcome)
  served : turn.updates (afterTurns policy source earlier) = 0 → ∃ last, standing policy source earlier = some last ∧
    (turn.play (afterTurns policy source earlier)).2 = some (.answered last.value .fresh)
  settled : ∀ v how, (turn.play (afterTurns policy source earlier)).2 = some (.answered v how) →
    how ≠ .stale ∧ how ≠ .coalesced
  /-- nobody's tolerance makes a difference, neither the lookup's own nor that of those before it -/
  impatient : turn.impatient.play (afterTurns policy source (earlier.map Turn.impatient)) =
    turn.play (afterTurns policy source earlier)
  expiry : q.timeout ≠ 0 → ∀ v, (afterTurns policy source earlier).value? = some v →
    policy.isPinned v q.context = false →
      (turn.updates (afterTurns policy source earlier) = 1 ↔
        (afterTurns policy source earlier).hasExpired q.timeout turn.now = true)

end

theorem lookups_follow_history (earlier : List (Turn V C E)) (q : Query C) (outcome : Except E V) (now later : Int) :
    FollowsHistory policy source earlier q ⟨.lookup q, outcome, now, later⟩ := by
  let turn : Turn V C E := ⟨.lookup q, outcome, now, later⟩
  let entry := afterTurns policy source earlier
  let last? := standing policy source earlier
  have shown : entry = showing policy source last? := afterTurns_eq_showing earlier
  have same : turn.impatient.play (afterTurns policy source (earlier.map Turn.impatient)) = turn.play entry := by
    rw [shown, afterTurns_eq_showing, standing_impatient]
    exact (impatient_same turn last?).1
  have expiry (v : V) (nonzero : q.timeout ≠ 0) (read : entry.value? = some v)
      (unpinned : policy.isPinned v q.context = false) :
      Unserved policy last? q now ↔ entry.hasExpired q.timeout now = true := by
    rw [shown] at read ⊢
    cases found : last? with
    | none => simp [found, showing, Entry.value?] at read
    | some last =>
        have held : last.value = v := by simpa [found, showing, Entry.value?] using read
        exact unserved_iff_hasExpired nonzero (held ▸ unpinned)
  rcases runCounted_lookup source last? q outcome now later with
    ⟨called, played⟩ | ⟨last, found, served, played⟩
  · have once : turn.updates entry = 1 := by rw [shown, Turn.updates, played]
    have replies : (turn.play entry).2 = some (ownReply outcome) := by rw [shown, play_eq, played]; rfl
    have never : turn.updates entry ≠ 0 := by omega
    exact {
      once := Nat.le_of_eq once
      called_iff := iff_of_true once called
      own := fun _ => replies
      served := fun none => absurd none never
      settled := by
        intro v how answered
        have answered := replies.symm.trans answered
        cases outcome <;> cases answered
        exact ⟨by simp, by simp⟩
      impatient := same
      expiry := fun nonzero v read unpinned =>
        iff_of_true once ((expiry v nonzero read unpinned).mp (called.resolve_left nonzero)) }
  · have never : turn.updates entry = 0 := by rw [shown, Turn.updates, played]
    have replies : (turn.play entry).2 = some (.answered last.value .fresh) := by rw [shown, play_eq, played]; rfl
    have idle : turn.updates entry ≠ 1 := by omega
    exact {
      once := Nat.le_succ_of_le (Nat.le_of_eq never)
      called_iff := iff_of_false idle served
      own := fun once => absurd once idle
      served := fun _ => ⟨last, found, replies⟩
      settled := by
        intro v how answered
        cases replies.symm.trans answered
        exact ⟨by simp, by simp⟩
      impatient := same
      expiry := fun nonzero v read unpinned =>
        iff_of_false idle (mt (expiry v nonzero read unpinned).mpr (not_or.mp served).2) }

/-- A value that was published before the epoch counts as published one millisecond after it. -/
example :
    (Turn.play ⟨.lookup ⟨(), 10, false⟩, .ok 8, 11, 11⟩
      (afterTurns .timed .manual [(⟨.store 7, .ok 0, -5, -5⟩ : Turn Nat Unit Unit)])).2 =
      some (.answered 7 .fresh : Reply Nat Unit) := rfl

end

end ViewCache.Entry
