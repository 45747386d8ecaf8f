import ViewCache.Proofs.Store.Run

/-!
What the log says of the map: which entry a key held at each moment, and in which order each call went
about its business. Logs are newest first.
-/
namespace ViewCache.Store

variable {K V C E : Type}

namespace Event

def caller? : Event K V C E → Option CallId
  | asked id _ | looked id .. | made id .. | yielded id .. | inserted id .. | removed id _ => some id
  | acted .. => none

def accesses (id : CallId) : Event K V C E → Bool
  | looked me .. | yielded me .. | inserted me .. => me == id
  | _ => false

def callsFactory (id : CallId) : Event K V C E → Bool
  | looked me _ none => me == id
  | _ => false

def makes (id : CallId) : Event K V C E → Bool
  | made me .. => me == id
  | _ => false

def inserts : Event K V C E → Bool
  | inserted .. => true
  | _ => false

variable [DecidableEq K]

def removes (key : K) : Event K V C E → Bool
  | removed _ gone => gone == key
  | _ => false

def gives? (key : K) : Event K V C E → Option EntryId
  | looked _ sought found => if sought = key then found else none
  | yielded _ sought entry | inserted _ sought entry _ => if sought = key then some entry else none
  | _ => none

end Event

def trail (id : CallId) (log : List (Event K V C E)) : List (Event K V C E) :=
  log.filter fun event => event.caller? == some id

def insertions (log : List (Event K V C E)) : Nat := log.countP Event.inserts

def holding [DecidableEq K] (key : K) : List (Event K V C E) → Option EntryId
  | [] => none
  | .inserted _ sought entry _ :: older => if sought = key then some entry else holding key older
  | .removed _ gone :: older => if gone = key then none else holding key older
  | _ :: older => holding key older

/-- Each access finds what the map holds. A call looks at the map once, and a second time if its factory ran
in between. -/
def Allowed [DecidableEq K] (older : List (Event K V C E)) : Event K V C E → Prop
  | .asked id _ => trail id older = []
  | .looked id key found => found = holding key older ∧ trail id older = [.asked id key]
  | .made id key _ => trail id older = [.looked id key none, .asked id key]
  | .yielded id key entry => holding key older = some entry ∧
      ∃ fresh, trail id older = [.made id key fresh, .looked id key none, .asked id key]
  | .inserted id key entry fresh => holding key older = none ∧ entry = insertions older ∧
      ∃ own : Unshared V C, fresh = own.entry ∧
        trail id older = [.made id key own, .looked id key none, .asked id key]
  | .removed id _ => trail id older = []
  | .acted .. => True

def Legal [DecidableEq K] : List (Event K V C E) → Prop
  | [] => True
  | event :: older => Allowed older event ∧ Legal older

/-- Where a call stands, by what it did to the map. -/
inductive Standing (id : CallId) : Option (Task K V C E) → List (Event K V C E) → Prop
  | unused : Standing id none []
  | asked {key goal} : Standing id (some (.call (.find key goal))) [.asked id key]
  | building {key goal} :
      Standing id (some (.call (.build key goal))) [.looked id key none, .asked id key]
  | inserting {key goal} (fresh : Unshared V C) :
      Standing id (some (.call (.insert key goal fresh.entry)))
        [.made id key fresh, .looked id key none, .asked id key]
  | found {call key entry} (come : call.entryId? = some entry) :
      Standing id (some (.call call)) [.looked id key (some entry), .asked id key]
  | yielded {call key entry fresh} (come : call.entryId? = some entry) :
      Standing id (some (.call call))
        [.yielded id key entry, .made id key fresh, .looked id key none, .asked id key]
  | inserted {call key entry fresh} (come : call.entryId? = some entry) :
      Standing id (some (.call call))
        [.inserted id key entry fresh.entry, .made id key fresh, .looked id key none, .asked id key]
  | held {call} (come : call.entryId?.isSome) : Standing id (some (.call call)) []
  | removing {key} : Standing id (some (.removing key)) []
  | removed {key} : Standing id (some .removed) [.removed id key]

theorem trail_append (id : CallId) (newer older : List (Event K V C E)) :
    trail id (newer ++ older) = trail id newer ++ trail id older := List.filter_append ..

theorem mem_trail {id : CallId} {event : Event K V C E} {log : List (Event K V C E)} :
    event ∈ trail id log ↔ event ∈ log ∧ event.caller? = some id := by
  simp [trail]

theorem Event.caller?_of_accesses {id : CallId} {event : Event K V C E} (accesses : event.accesses id = true) :
    event.caller? = some id := by
  cases event <;> simp_all [Event.accesses, Event.caller?]

theorem countP_trail {id : CallId} {p : Event K V C E → Bool}
    (own : ∀ event, p event = true → event.caller? = some id) (log : List (Event K V C E)) :
    log.countP p = (trail id log).countP p := by
  rw [trail, List.countP_filter]
  refine List.countP_congr fun event _ => ?_
  have own := own event
  simp only [Bool.and_eq_true, beq_iff_eq]
  exact ⟨fun holds => ⟨holds, own holds⟩, And.left⟩

@[simp]
theorem trail_arrival (id me : CallId) (entry : EntryId) (goal : Goal C) :
    trail id (arrival me entry goal : List (Event K V C E)) = [] := by
  cases goal <;> rfl

@[simp]
theorem countP_arrival (me : CallId) (entry : EntryId) (goal : Goal C) :
    (arrival me entry goal : List (Event K V C E)).countP Event.inserts = 0 := by
  cases goal <;> rfl

section

variable [DecidableEq K]

@[simp]
theorem holding_arrival (key : K) (me : CallId) (entry : EntryId) (goal : Goal C) (log : List (Event K V C E)) :
    holding key (arrival me entry goal ++ log) = holding key log := by
  cases goal <;> rfl

theorem legal_arrival {me : CallId} {entry : EntryId} {goal : Goal C} {log : List (Event K V C E)}
    (legal : Legal log) : Legal (arrival me entry goal ++ log) := by
  cases goal with
  | entry => exact legal
  | lookup q => exact ⟨trivial, legal⟩

theorem Legal.of_append {newer older : List (Event K V C E)} (legal : Legal (newer ++ older)) : Legal older := by
  induction newer with
  | nil => exact legal
  | cons event newer ih => exact ih legal.2

theorem Legal.allowed {newer older : List (Event K V C E)} {event : Event K V C E}
    (legal : Legal (newer ++ event :: older)) : Allowed older event := legal.of_append.1

theorem holding_of_gives {event : Event K V C E} {older : List (Event K V C E)} {key : K} {entry : EntryId}
    (allowed : Allowed older event) (gives : event.gives? key = some entry) :
    holding key (event :: older) = some entry := by
  cases event with
  | looked id asked found =>
      simp only [Event.gives?, Option.ite_none_right_eq_some] at gives
      obtain ⟨rfl, rfl⟩ := gives
      exact allowed.1.symm
  | yielded id asked held =>
      simp only [Event.gives?, Option.ite_none_right_eq_some, Option.some.injEq] at gives
      obtain ⟨rfl, rfl⟩ := gives
      exact allowed.1
  | inserted id asked own fresh =>
      simp only [Event.gives?, Option.ite_none_right_eq_some, Option.some.injEq] at gives
      obtain ⟨rfl, rfl⟩ := gives
      simp [holding]
  | _ => simp [Event.gives?] at gives

theorem holding_kept {period older : List (Event K V C E)} {key : K} {entry : EntryId}
    (legal : Legal (period ++ older)) (unremoved : ∀ event ∈ period, event.removes key = false)
    (held : holding key older = some entry) : holding key (period ++ older) = some entry := by
  induction period with
  | nil => exact held
  | cons event period ih =>
      have still := ih legal.2 fun earlier member => unremoved earlier (List.mem_cons_of_mem _ member)
      cases event with
      | inserted id asked own fresh =>
          by_cases same : asked = key
          · subst same
            have absent : holding asked (period ++ older) = none := legal.1.1
            simp [absent] at still
          · simpa [holding, same] using still
      | removed id gone =>
          have other : gone ≠ key := by simpa [Event.removes] using unremoved _ List.mem_cons_self
          simpa [holding, other] using still
      | _ => exact still

theorem gives_agree {period older : List (Event K V C E)} {key : K} (legal : Legal (period ++ older))
    (unremoved : ∀ event ∈ period, event.removes key = false) {access : Event K V C E} {entry : EntryId}
    (member : access ∈ period) (gives : access.gives? key = some entry) :
    holding key (period ++ older) = some entry := by
  obtain ⟨later, before, rfl⟩ := List.append_of_mem member
  have split : (later ++ access :: before) ++ older = later ++ access :: (before ++ older) := by simp
  rw [split] at legal ⊢
  have given := holding_of_gives legal.allowed gives
  exact holding_kept legal (fun event earlier => unremoved event (List.mem_append_left _ earlier)) given

end

theorem Legal.numbered [DecidableEq K] {log : List (Event K V C E)} (legal : Legal log) {id : CallId} {key : K}
    {entry : EntryId} {fresh : Entry V C} (member : .inserted id key entry fresh ∈ log) :
    entry < insertions log := by
  obtain ⟨newer, older, rfl⟩ := List.append_of_mem member
  have numbered : entry = insertions older := legal.allowed.2.1
  calc entry = insertions older := numbered
    _ < older.countP Event.inserts + 1 := Nat.lt_succ_self _
    _ = insertions (.inserted id key entry fresh :: older) := (List.countP_cons_of_pos rfl).symm
    _ ≤ insertions (newer ++ .inserted id key entry fresh :: older) :=
      (List.sublist_append_right ..).countP_le

theorem Legal.exists_inserted [DecidableEq K] {log : List (Event K V C E)} (legal : Legal log) {entry : EntryId}
    (known : entry < insertions log) : ∃ id key fresh, .inserted id key entry fresh ∈ log := by
  induction log with
  | nil => exact absurd known (Nat.not_lt_zero _)
  | cons event log ih =>
      have earlier (known : entry < insertions log) :
          ∃ id key fresh, .inserted id key entry fresh ∈ event :: log := by
        obtain ⟨id, key, fresh, member⟩ := ih legal.2 known
        exact ⟨id, key, fresh, List.mem_cons_of_mem _ member⟩
      cases event with
      | inserted id key newest fresh =>
          have counted : insertions (.inserted id key newest fresh :: log) = insertions log + 1 :=
            List.countP_cons_of_pos rfl
          rcases Nat.lt_succ_iff_lt_or_eq.mp (counted ▸ known) with older | same
          · exact earlier older
          · have numbered : newest = insertions log := legal.1.2.1
            exact ⟨id, key, fresh, by rw [same, ← numbered]; exact List.mem_cons_self⟩
      | _ => exact earlier known

theorem Legal.inserted_unique [DecidableEq K] {log : List (Event K V C E)} (legal : Legal log) {id other : CallId}
    {key sought : K} {entry : EntryId} {fresh own : Entry V C} (first : .inserted id key entry fresh ∈ log)
    (second : .inserted other sought entry own ∈ log) : id = other ∧ key = sought ∧ fresh = own := by
  induction log with
  | nil => cases first
  | cons event log ih =>
      rcases List.mem_cons.mp first with rfl | earlier
      · rcases List.mem_cons.mp second with same | again
        · cases same
          exact ⟨rfl, rfl, rfl⟩
        · have newest : entry = insertions log := legal.1.2.1
          exact absurd newest (Nat.ne_of_lt (legal.2.numbered again))
      · rcases List.mem_cons.mp second with rfl | again
        · have newest : entry = insertions log := legal.1.2.1
          exact absurd newest (Nat.ne_of_lt (legal.2.numbered earlier))
        · exact ih legal.2 earlier again

section

variable {id : CallId} {done : List (Event K V C E)} {key : K} {goal : Goal C}

theorem Standing.of_none (standing : Standing id (none : Option (Task K V C E)) done) : done = [] := by
  cases standing
  rfl

theorem Standing.of_removing (standing : Standing id (some (.removing key)) done) : done = [] := by
  cases standing
  rfl

theorem Standing.of_find (standing : Standing id (some (.call (.find key goal))) done) :
    done = [.asked id key] := by
  cases standing with
  | asked => rfl
  | found come | yielded come | inserted come => cases come
  | held come => cases come

theorem Standing.of_build (standing : Standing id (some (.call (.build key goal))) done) :
    done = [.looked id key none, .asked id key] := by
  cases standing with
  | building => rfl
  | found come | yielded come | inserted come => cases come
  | held come => cases come

theorem Standing.of_insert {fresh : Entry V C} (standing : Standing id (some (.call (.insert key goal fresh))) done) :
    ∃ own : Unshared V C, fresh = own.entry ∧ done = [.made id key own, .looked id key none, .asked id key] := by
  cases standing with
  | inserting own => exact ⟨own, rfl, rfl⟩
  | found come | yielded come | inserted come => cases come
  | held come => cases come

theorem Standing.go {call next : Call K V C E} {entry : EntryId} (standing : Standing id (some (.call call)) done)
    (at_entry : call.entryId? = some entry) (stays : next.entryId? = some entry) :
    Standing id (some (.call next)) done := by
  cases standing with
  | asked | building | inserting => cases at_entry
  | found come => exact .found (stays.trans (at_entry.symm.trans come))
  | yielded come => exact .yielded (stays.trans (at_entry.symm.trans come))
  | inserted come => exact .inserted (stays.trans (at_entry.symm.trans come))
  | held => exact .held (by simp [stays])

end

namespace Run

structure Recorded [DecidableEq K] (run : Run K V C E) : Prop where
  keys : (run.store.index.map Prod.fst).Nodup
  size : run.store.entries.size = insertions run.log
  held : ∀ key, run.store.find? key = holding key run.log
  legal : Legal run.log
  standing : ∀ id, Standing id (run.tasks id) (trail id run.log)
  listed : ∀ {key entry}, run.store.find? key = some entry → entry < run.store.entries.size
  reached : ∀ {id task entry}, run.tasks id = some task → task.entryId? = some entry →
    entry < run.store.entries.size
  acted : ∀ {entry event}, .acted entry event ∈ run.log → entry < run.store.entries.size

variable [DecidableEq K] {run : Run K V C E} {id : CallId} {before : Option (Task K V C E)} {store : Store K V C}
  {task : Task K V C E} {news : List (Event K V C E)}

theorem Turn.standing {log : List (Event K V C E)} (turn : Turn run.store id before store task news)
    (standing : Standing id before (trail id log)) : Standing id (some task) (trail id (news ++ log)) := by
  rw [trail_append]
  cases turn with
  | sought =>
      rw [standing.of_none]
      simpa [trail, Event.caller?] using Standing.asked
  | held =>
      rw [standing.of_none]
      exact .held rfl
  | remove =>
      rw [standing.of_none]
      exact .removing
  | @found key goal entry holds =>
      rw [standing.of_find, trail_append, trail_arrival]
      simpa [trail, Event.caller?] using Standing.found (Call.entryId?_arrive entry goal)
  | missed =>
      rw [standing.of_find]
      simpa [trail, Event.caller?] using Standing.building
  | @supplied key goal fresh =>
      rw [standing.of_build]
      simpa [trail, Event.caller?] using Standing.inserting fresh
  | @yielded key goal fresh entry holds =>
      obtain ⟨own, rfl, done⟩ := standing.of_insert
      rw [done, trail_append, trail_arrival]
      simpa [trail, Event.caller?] using Standing.yielded (Call.entryId?_arrive entry goal)
  | @inserted key goal fresh absent =>
      obtain ⟨own, rfl, done⟩ := standing.of_insert
      rw [done, trail_append, trail_arrival]
      simpa [trail, Event.caller?] using Standing.inserted (Call.entryId?_arrive run.store.entries.size goal)
  | stepped | returned => exact standing.go rfl rfl
  | removed =>
      rw [standing.of_removing]
      simpa [trail, Event.caller?] using Standing.removed

theorem Turn.trail_other {log : List (Event K V C E)} (turn : Turn run.store id before store task news)
    {other : CallId} (different : other ≠ id) : trail other (news ++ log) = trail other log := by
  have away : id ≠ other := Ne.symm different
  suffices silent : trail other news = [] by rw [trail_append, silent, List.nil_append]
  cases turn with
  | found | yielded | inserted =>
      rw [trail_append, trail_arrival]
      simp [trail, Event.caller?, away]
  | _ => simp [trail, Event.caller?, away]

theorem Turn.legal (turn : Turn run.store id before store task news) (recorded : run.Recorded)
    (running : run.tasks id = before) : Legal (news ++ run.log) := by
  have standing := recorded.standing id
  rw [running] at standing
  have held := recorded.held
  cases turn with
  | sought => exact ⟨standing.of_none, recorded.legal⟩
  | held | stepped | returned => exact ⟨trivial, recorded.legal⟩
  | remove => exact recorded.legal
  | @found key goal entry holds =>
      rw [List.append_assoc]
      exact legal_arrival ⟨⟨holds.symm.trans (held key), standing.of_find⟩, recorded.legal⟩
  | @missed key goal absent => exact ⟨⟨absent.symm.trans (held key), standing.of_find⟩, recorded.legal⟩
  | supplied => exact ⟨standing.of_build, recorded.legal⟩
  | @yielded key goal fresh entry holds =>
      obtain ⟨own, _, done⟩ := standing.of_insert
      rw [List.append_assoc]
      exact legal_arrival ⟨⟨(held key).symm.trans holds, own, done⟩, recorded.legal⟩
  | @inserted key goal fresh absent =>
      rw [List.append_assoc]
      exact legal_arrival ⟨⟨(held key).symm.trans absent, recorded.size, standing.of_insert⟩, recorded.legal⟩
  | removed => exact ⟨standing.of_removing, recorded.legal⟩

theorem Turn.find_eq_holding (turn : Turn run.store id before store task news) {log : List (Event K V C E)}
    {key : K} (held : run.store.find? key = holding key log) :
    store.find? key = holding key (news ++ log) := by
  cases turn with
  | sought | held | remove | missed | supplied | stepped | returned => exact held
  | found | yielded =>
      rw [List.append_assoc, holding_arrival]
      exact held
  | inserted absent =>
      rw [List.append_assoc, holding_arrival, find?_insert]
      exact if_congr Iff.rfl rfl held
  | removed =>
      rw [find?_remove]
      exact if_congr Iff.rfl rfl held

theorem Turn.size (turn : Turn run.store id before store task news) {log : List (Event K V C E)}
    (size : run.store.entries.size = insertions log) : store.entries.size = insertions (news ++ log) := by
  have counted (rest : List (Event K V C E)) : insertions (rest ++ log) = rest.countP Event.inserts + insertions log :=
    List.countP_append ..
  cases turn with
  | stepped =>
      rw [size_set]
      exact size
  | found | yielded =>
      rw [counted, List.countP_append, countP_arrival, size]
      simp [Event.inserts]
  | inserted =>
      rw [counted, List.countP_append, countP_arrival, Array.size_push, size]
      simp [Event.inserts]
      omega
  | _ => exact size

theorem Turn.size_le (turn : Turn run.store id before store task news) :
    run.store.entries.size ≤ store.entries.size := by
  cases turn with
  | stepped => exact Nat.le_of_eq (size_set ..).symm
  | inserted => simp
  | _ => exact Nat.le_refl _

theorem Turn.keys {earlier : Store K V C} (turn : Turn earlier id before store task news)
    (keys : (earlier.index.map Prod.fst).Nodup) : (store.index.map Prod.fst).Nodup := by
  cases turn with
  | @inserted key goal fresh absent =>
      refine List.nodup_cons.mpr ⟨?_, keys⟩
      intro member
      obtain ⟨⟨_, entry⟩, listed, rfl⟩ := List.mem_map.mp member
      have missing := List.lookup_eq_none_iff.mp absent _ listed
      simp at missing
  | removed => exact keys.sublist (List.filter_sublist.map _)
  | _ => exact keys

theorem Turn.listed (turn : Turn run.store id before store task news)
    (listed : ∀ {key entry}, run.store.find? key = some entry → entry < run.store.entries.size) {key : K}
    {entry : EntryId} (holds : store.find? key = some entry) : entry < store.entries.size := by
  cases turn with
  | inserted =>
      rw [find?_insert] at holds
      rw [Array.size_push]
      split at holds
      · cases holds
        exact Nat.lt_succ_self _
      · exact Nat.lt_succ_of_lt (listed holds)
  | removed =>
      rw [find?_remove, Option.ite_none_left_eq_some] at holds
      exact listed holds.2
  | stepped =>
      rw [size_set]
      exact listed holds
  | _ => exact listed holds

theorem Turn.reached (turn : Turn run.store id before store task news) (recorded : run.Recorded)
    (running : run.tasks id = before) {entry : EntryId} (come : task.entryId? = some entry) :
    entry < store.entries.size := by
  cases turn with
  | sought | remove | missed | supplied | removed => cases come
  | held known =>
      cases come
      exact known
  | found holds | yielded holds =>
      rw [Task.entryId?, Call.entryId?_arrive] at come
      cases come
      exact recorded.listed holds
  | inserted =>
      rw [Task.entryId?, Call.entryId?_arrive] at come
      cases come
      rw [Array.size_push]
      exact Nat.lt_succ_self _
  | stepped =>
      rw [size_set]
      exact recorded.reached running come
  | returned => exact recorded.reached running come

theorem Turn.acts_on (turn : Turn run.store id before store task news) {entry : EntryId}
    {event : Entry.Event V C E} (member : .acted entry event ∈ news) : task.entryId? = some entry := by
  have of_arrival {me : CallId} {at_entry : EntryId} {goal : Goal C}
      (member : (.acted entry event : Event K V C E) ∈ arrival me at_entry goal) :
      (Task.call (.arrive at_entry goal) : Task K V C E).entryId? = some entry := by
    cases goal with
    | entry => cases member
    | lookup q =>
        simp only [arrival, List.mem_singleton, Event.acted.injEq] at member
        obtain ⟨rfl, _⟩ := member
        rfl
  cases turn with
  | found | yielded | inserted => exact of_arrival (by simpa using member)
  | held | stepped | returned =>
      simp only [List.mem_singleton, Event.acted.injEq] at member
      obtain ⟨rfl, _⟩ := member
      rfl
  | _ => simp at member

theorem Recorded.put (recorded : run.Recorded) (turn : Turn run.store id (run.tasks id) store task news) :
    (run.put id store task news).Recorded := by
  constructor
  case keys => exact turn.keys recorded.keys
  case size => exact turn.size recorded.size
  case held => exact fun key => turn.find_eq_holding (recorded.held key)
  case legal => exact turn.legal recorded rfl
  case standing =>
    intro other
    by_cases same : other = id
    · subst same
      simpa [Run.put] using turn.standing (recorded.standing other)
    · simpa [Run.put, same, turn.trail_other same] using recorded.standing other
  case listed => exact turn.listed recorded.listed
  case reached =>
    intro other found entry running come
    rcases tasks_put running with ⟨rfl, rfl⟩ | ⟨_, running⟩
    · exact turn.reached recorded rfl come
    · exact Nat.lt_of_lt_of_le (recorded.reached running come) turn.size_le
  case acted =>
    intro entry event member
    rcases List.mem_append.mp member with now | earlier
    · exact turn.reached recorded rfl (turn.acts_on now)
    · exact Nat.lt_of_lt_of_le (recorded.acted earlier) turn.size_le

theorem recorded_of_new (reaches : new.Reaches run) : run.Recorded := by
  refine reaches.rule ?_ (fun _ recorded turn => recorded.put turn)
  constructor
  case standing => exact fun id => .unused
  case legal => trivial
  case held => exact fun key => rfl
  all_goals simp [new, insertions, find?]

end Run

end ViewCache.Store
