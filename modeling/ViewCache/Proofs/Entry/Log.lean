import ViewCache.Proofs.Entry.Step

namespace ViewCache.Entry

variable {V C E : Type}

namespace Event

def publish? : Event V C E → Option (CallId × Int)
  | .stepped id _ _ (.writeStamp _ stamp) _ => some (id, stamp)
  | _ => none

def reading? : Event V C E → Option Int
  | .stepped _ now _ (.checkAge ..) _ | .stepped _ now _ (.readClock _) _ => some now
  | _ => none

def writer? : Event V C E → Option CallId
  | .stepped id _ _ (.writeSlot _) _ => some id
  | _ => none

def loads (id : CallId) : Event V C E → Bool
  | .stepped me _ _ .loadStamp _ => me == id
  | _ => false

def takes (id : CallId) : Event V C E → Bool
  | .stepped me _ _ (.readSlot _) _ | .stepped me _ _ (.staleSlot _) _ | .stepped me _ _ .coalesceSlot _
  | .stepped me _ _ .valueSlot _ => me == id
  | _ => false

def computes (id : CallId) : Event V C E → Bool
  | .returned me (.ok _) => me == id
  | _ => false

def starts (id : CallId) : Event V C E → Bool
  | .stepped me _ _ .callUpdater _ => me == id
  | _ => false

end Event

def publishes (log : List (Event V C E)) : List (CallId × Int) := log.filterMap Event.publish?

def readings (log : List (Event V C E)) : List Int := log.filterMap Event.reading?

/-- The clock never went back from one reading to the next. -/
def Steady (log : List (Event V C E)) : Prop := (readings log).Pairwise fun newer older => older ≤ newer

instance (log : List (Event V C E)) : Decidable (Steady log) :=
  inferInstanceAs (Decidable ((readings log).Pairwise _))

def slotWriter (log : List (Event V C E)) : Option CallId := log.findSome? Event.writer?

def since (id : CallId) (log : List (Event V C E)) : List (Event V C E) :=
  log.takeWhile fun event => !event.loads id

/-- The call whose value the call `id` has: that of the slot when it last read it, or its own. -/
def origin (id : CallId) : List (Event V C E) → Option CallId
  | [] => none
  | event :: older =>
    if event.takes id then slotWriter older
    else if event.computes id then some id
    else origin id older

def Started (id : CallId) (log : List (Event V C E)) : Prop := ∃ event ∈ log, event.starts id = true

def Yields (id : CallId) (v : V) (log : List (Event V C E)) : Prop :=
  .returned id (.ok v) ∈ log ∨ .began id (.store v) ∈ log

/-- The call is a lookup that refreshes under the lock. -/
def Refresher (id : CallId) (log : List (Event V C E)) : Prop :=
  ∃ q : Query C, .began id (.lookup q) ∈ log ∧ q.isUnlocked = false

def Always (P : Event V C E → List (Event V C E) → Prop) (log : List (Event V C E)) : Prop :=
  ∀ newer event older, log = newer ++ event :: older → P event older

theorem always_nil (P : Event V C E → List (Event V C E) → Prop) : Always P [] := by
  intro newer event older split
  simp at split

theorem always_cons {P : Event V C E → List (Event V C E) → Prop} {event : Event V C E}
    {log : List (Event V C E)} (here : P event log) (before : Always P log) :
    Always P (event :: log) := by
  intro newer found older split
  cases newer with
  | nil =>
      simp only [List.nil_append, List.cons.injEq] at split
      obtain ⟨rfl, rfl⟩ := split
      exact here
  | cons _ newer =>
      simp only [List.cons_append, List.cons.injEq] at split
      exact before newer found older split.2

theorem Always.of_cons {P : Event V C E → List (Event V C E) → Prop} {event : Event V C E}
    {log : List (Event V C E)} (always : Always P (event :: log)) : P event log ∧ Always P log := by
  refine ⟨always [] event log rfl, ?_⟩
  intro newer found older split
  exact always (event :: newer) found older (congrArg (event :: ·) split)

instance decidableAlways {P : Event V C E → List (Event V C E) → Prop}
    [∀ event older, Decidable (P event older)] : (log : List (Event V C E)) → Decidable (Always P log)
  | [] => .isTrue (always_nil P)
  | event :: log =>
    haveI : Decidable (Always P log) := decidableAlways log
    decidable_of_iff (P event log ∧ Always P log)
      ⟨fun both => always_cons both.1 both.2, Always.of_cons⟩

theorem publishes_cons (event : Event V C E) (log : List (Event V C E)) :
    publishes (event :: log) = event.publish?.toList ++ publishes log := by
  cases found : event.publish? <;> simp [publishes, found]

theorem readings_cons (event : Event V C E) (log : List (Event V C E)) :
    readings (event :: log) = event.reading?.toList ++ readings log := by
  cases found : event.reading? <;> simp [readings, found]

theorem slotWriter_cons (event : Event V C E) (log : List (Event V C E)) :
    slotWriter (event :: log) = event.writer?.or (slotWriter log) := by
  cases found : event.writer? <;> simp [slotWriter, found]

theorem since_cons (id : CallId) (event : Event V C E) (log : List (Event V C E)) :
    since id (event :: log) = if event.loads id then [] else event :: since id log := by
  cases found : event.loads id <;> simp [since, found]

theorem origin_of_other {id : CallId} {event : Event V C E} (other : id ≠ event.id)
    (log : List (Event V C E)) : origin id (event :: log) = origin id log := by
  have different : event.id ≠ id := Ne.symm other
  cases event with
  | stepped me now seen before after =>
      have same : (me == id) = false := by simpa [Event.id] using different
      cases before <;> simp [origin, Event.takes, Event.computes, same]
  | returned me outcome =>
      have same : (me == id) = false := by simpa [Event.id] using different
      cases outcome <;> simp [origin, Event.takes, Event.computes, same]
  | began me request => simp [origin, Event.takes, Event.computes]

theorem since_of_other {id : CallId} {event : Event V C E} (other : id ≠ event.id)
    (log : List (Event V C E)) : since id (event :: log) = event :: since id log := by
  have different : event.id ≠ id := Ne.symm other
  rw [since_cons, if_neg]
  cases event with
  | stepped me now seen before after => cases before <;> simp_all [Event.loads, Event.id]
  | returned | began => simp [Event.loads]

theorem Event.id_of_starts {id : CallId} {event : Event V C E} (starts : event.starts id = true) :
    event.id = id := by
  cases event with
  | stepped me now seen before after => cases before <;> simp_all [Event.starts, Event.id]
  | returned | began => simp [Event.starts] at starts

theorem Event.id_of_publish {event : Event V C E} {publish : CallId × Int}
    (completes : event.publish? = some publish) : event.id = publish.1 := by
  cases event with
  | stepped me now seen before after => cases before <;> simp_all [Event.publish?, Event.id, Prod.ext_iff]
  | returned | began => simp [Event.publish?] at completes

theorem started_of_other {id : CallId} {event : Event V C E} (other : id ≠ event.id)
    (log : List (Event V C E)) : Started id (event :: log) ↔ Started id log := by
  have different : event.id ≠ id := Ne.symm other
  have idle : event.starts id = false := by
    cases event with
    | stepped me now seen before after => cases before <;> simp_all [Event.starts, Event.id]
    | returned | began => simp [Event.starts]
  simp [Started, idle]

theorem steady_of_cons {event : Event V C E} {log : List (Event V C E)} (steady : Steady (event :: log)) :
    Steady log := by
  rw [Steady, readings_cons, List.pairwise_append] at steady
  exact steady.2.1

/-- The later of the first moment that a timestamp can name and all readings of the clock. -/
def ceiling (log : List (Event V C E)) : Int := (readings log).foldr max 1

theorem ceiling_cons (event : Event V C E) (log : List (Event V C E)) :
    ceiling (event :: log) = event.reading?.elim (ceiling log) (max · (ceiling log)) := by
  cases found : event.reading? <;> simp [ceiling, readings_cons, found]

theorem ceiling_le {log : List (Event V C E)} {now : Int} (latest : ∀ reading ∈ readings log, reading ≤ now) :
    ceiling log ≤ stampAt now := by
  unfold ceiling
  generalize readings log = times at latest
  induction times with
  | nil =>
      simp only [List.foldr_nil, stampAt]
      omega
  | cons time times ih =>
      have here := latest time (by simp)
      have rest := ih (fun reading member => latest reading (List.mem_cons_of_mem time member))
      simp only [List.foldr_cons, stampAt] at *
      omega

theorem ceiling_le_of_steady {event : Event V C E} {log : List (Event V C E)} {now : Int}
    (steady : Steady (event :: log)) (reads : event.reading? = some now) :
    ceiling log ≤ stampAt now := by
  rw [Steady, readings_cons, reads] at steady
  exact ceiling_le (fun reading member => (List.pairwise_cons.mp steady).1 reading member)

end ViewCache.Entry
