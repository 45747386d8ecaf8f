import ViewCache.Proofs.Entry.Representation
import ViewCache.Proofs.Store.View

/-!
Calls that race to make the entry of a key: they all come to the one that the map holds, whoever put it in,
and what is published there is there for all of them.
-/
namespace ViewCache.Store.Run

variable {K V C E : Type} {run : Run K V C E} {id : CallId} {key : K} {entry : EntryId}

def Got (run : Run K V C E) (id : CallId) (key : K) (entry : EntryId) : Prop :=
  .asked id key ∈ run.log ∧ ∃ call, run.tasks id = some (.call call) ∧ call.entryId? = some entry

/-- The call last looked at the map during the period, of which `newer` is what came afterwards. -/
def LastIn (id : CallId) (newer period : List (Event K V C E)) : Prop :=
  (∃ event ∈ period, event.accesses id = true) ∧ ∀ event ∈ newer, event.accesses id = false

theorem mem_period {newer period older later before : List (Event K V C E)} {access : Event K V C E}
    (split : newer ++ period ++ older = later ++ access :: before) (last : LastIn id newer period)
    (accesses : access.accesses id = true) (since : ∀ event ∈ later, event.accesses id = false) :
    access ∈ period := by
  obtain ⟨⟨event, member, looks⟩, after⟩ := last
  have found : (newer ++ period ++ older).find? (·.accesses id) = some access := by
    rw [split, List.find?_append, List.find?_eq_none.mpr (by simpa using since)]
    simp [accesses]
  have none : newer.find? (·.accesses id) = none := List.find?_eq_none.mpr (by simpa using after)
  have some : (period.find? (·.accesses id)).isSome := List.find?_isSome.mpr ⟨event, member, looks⟩
  rw [List.append_assoc, List.find?_append, none, Option.none_or, List.find?_append, Option.or_of_isSome some] at found
  exact List.mem_of_find?_eq_some found

variable [DecidableEq K]

/-- The last access of the call came to the entry, which is what the key held when the access was over. -/
def ByLastAccess (log : List (Event K V C E)) (id : CallId) (key : K) (entry : EntryId) : Prop :=
  ∃ newer access older, log = newer ++ access :: older ∧ access.accesses id = true ∧
    (∀ event ∈ newer, event.accesses id = false) ∧ access.gives? key = some entry ∧
    holding key (access :: older) = some entry

theorem byLastAccess_of_trail {log : List (Event K V C E)} {access : Event K V C E} {rest : List (Event K V C E)}
    (legal : Legal log) (trailed : trail id log = access :: rest) (accesses : access.accesses id = true)
    (gives : access.gives? key = some entry) : ByLastAccess log id key entry := by
  obtain ⟨newer, older, split, others, _, _⟩ := List.filter_eq_cons_iff.mp trailed
  rw [split] at legal
  refine ⟨newer, access, older, split, accesses, ?_, gives, holding_of_gives legal.allowed gives⟩
  intro event member
  refine Bool.eq_false_iff.mpr fun accesses => ?_
  exact others event member (by simp [Event.caller?_of_accesses accesses])

theorem byLastAccess_of_got (reaches : new.Reaches run) (got : run.Got id key entry) :
    ByLastAccess run.log id key entry := by
  have recorded := recorded_of_new reaches
  obtain ⟨asked, call, running, come⟩ := got
  have standing := recorded.standing id
  rw [running] at standing
  have began : .asked id key ∈ trail id run.log := mem_trail.mpr ⟨asked, rfl⟩
  generalize trailed : trail id run.log = done at standing began
  cases standing with
  | asked | building | inserting => cases come
  | found at_entry | yielded at_entry | inserted at_entry =>
      cases at_entry.symm.trans come
      simp only [List.mem_cons, List.not_mem_nil, Event.asked.injEq, reduceCtorEq, true_and, false_or,
        or_false] at began
      subst began
      exact byLastAccess_of_trail recorded.legal trailed (by simp [Event.accesses]) (by simp [Event.gives?])
  | held => cases began

theorem find?_kept {move : Move K V C E} {next : Run K V C E} (moved : run.next? move = some next)
    (held : run.store.find? key = some entry) :
    next.store.find? key = some entry ∨ ∃ id, next.log = .removed id key :: run.log := by
  obtain ⟨id, store, task, news, turn, rfl⟩ := turn_of_next moved
  generalize run.tasks id = before at turn
  cases turn with
  | @inserted sought _ _ absent =>
      have other : sought ≠ key := by
        rintro rfl
        simp [held] at absent
      left
      rw [put, find?_insert, if_neg other]
      exact held
  | @removed gone =>
      by_cases same : gone = key
      · subst same
        exact .inr ⟨id, rfl⟩
      · left
        rw [put, find?_remove, if_neg same]
        exact held
  | _ => exact .inl held

theorem factory_once (reaches : new.Reaches run) (id : CallId) :
    run.log.countP (Event.callsFactory id) ≤ 1 ∧ run.log.countP (Event.makes id) ≤ 1 := by
  have called (event : Event K V C E) (calls : event.callsFactory id = true) : event.caller? = some id := by
    cases event with
    | looked me sought found => cases found <;> simp_all [Event.callsFactory, Event.caller?]
    | _ => simp [Event.callsFactory] at calls
  have returned (event : Event K V C E) (makes : event.makes id = true) : event.caller? = some id := by
    cases event <;> simp_all [Event.makes, Event.caller?]
  rw [countP_trail called, countP_trail returned]
  have standing := (recorded_of_new reaches).standing id
  generalize run.tasks id = task at standing
  generalize trail id run.log = done at standing
  cases standing <;> simp [Event.callsFactory, Event.makes]

theorem not_inserted_of_yielded (reaches : new.Reaches run) (yielded : .yielded id key entry ∈ run.log) {sought : K}
    {other : EntryId} {fresh : Entry V C} : .inserted id sought other fresh ∉ run.log := by
  intro inserted
  have standing := (recorded_of_new reaches).standing id
  have first := mem_trail.mpr ⟨yielded, rfl⟩
  have second := mem_trail.mpr ⟨inserted, rfl⟩
  generalize run.tasks id = task at standing
  generalize trail id run.log = done at standing first second
  cases standing <;> simp at first second

theorem seeker_goes_on {call : Store.Call K V C E} (running : run.tasks id = some (.call call))
    (seeks : call.seeks?.isSome) : call.isBuilding = true ∧ (∀ fresh, (run.next? (.supply id fresh)).isSome) ∨
      ∀ clock, (run.next? (.step id clock)).isSome := by
  cases call with
  | find key goal =>
      right
      intro clock
      cases held : run.store.find? key <;> simp [next?, running, step?, Call.step, held]
  | build key goal => exact .inl ⟨rfl, fun fresh => by simp [next?, running, supply?, Call.supply]⟩
  | insert key goal fresh => exact .inr fun clock => by simp [next?, running, step?, Call.step]
  | got | within => cases seeks

structure Agreed (run : Run K V C E) : Prop where
  single : (run.store.index.map Prod.fst).Nodup
  held : ∀ key, run.store.find? key = holding key run.log
  legal : Legal run.log
  /-- an insertion never replaces an entry -/
  kept : ∀ move next key entry, run.next? move = some next → run.store.find? key = some entry →
    next.store.find? key = some entry ∨ ∃ id, next.log = .removed id key :: run.log
  got : ∀ id key entry, run.Got id key entry → ByLastAccess run.log id key entry
  /-- between two removals of a key everybody comes to the same entry -/
  agree : ∀ key newer period older, run.log = newer ++ period ++ older →
    (∀ event ∈ period, event.removes key = false) → ∀ id other entry found,
    run.Got id key entry → LastIn id newer period → run.Got other key found → LastIn other newer period →
    entry = found
  once : ∀ id, run.log.countP (Event.callsFactory id) ≤ 1 ∧ run.log.countP (Event.makes id) ≤ 1
  missed : ∀ newer id key fresh older, run.log = newer ++ .made id key fresh :: older →
    trail id older = [.looked id key none, .asked id key]
  waits : ∀ id call, run.tasks id = some (.call call) → call.seeks?.isSome →
    call.isBuilding = true ∧ (∀ fresh, (run.next? (.supply id fresh)).isSome) ∨
      ∀ clock, (run.next? (.step id clock)).isSome
  known : ∀ entry, entry < run.store.entries.size ↔ ∃ id key fresh, .inserted id key entry fresh ∈ run.log
  maker : ∀ id other key sought entry fresh own, .inserted id key entry fresh ∈ run.log →
    .inserted other sought entry own ∈ run.log → id = other ∧ key = sought ∧ fresh = own
  loser : ∀ id key entry, .yielded id key entry ∈ run.log → ∀ sought other fresh,
    .inserted id sought other fresh ∉ run.log
  visible : (∀ key entry, run.store.find? key = some entry → entry < run.store.entries.size) ∧
    ∀ id task entry, run.tasks id = some task → task.entryId? = some entry → entry < run.store.entries.size
  /-- what is done to an entry through all handles is one run on the entry as it was put in -/
  shared : ∀ id key entry fresh, .inserted id key entry fresh ∈ run.log →
    ∃ shown, run.store.entry? entry = some shown ∧ (Entry.Run.start fresh).Reaches (run.view entry shown) ∧
      (¬ Entry.UnderWay (entryLog entry run.log) →
        shown.value? = (Entry.lastPublished? (entryLog entry run.log)).or fresh.value?) ∧
      Entry.Always (Entry.Shows fresh) (entryLog entry run.log)

theorem creation_races_agree (reaches : new.Reaches run) : run.Agreed := by
  have recorded := recorded_of_new reaches
  have legal := recorded.legal
  constructor
  case single => exact recorded.keys
  case held => exact recorded.held
  case legal => exact legal
  case kept => exact fun move next key entry moved held => find?_kept moved held
  case got => exact fun id key entry got => byLastAccess_of_got reaches got
  case agree =>
    intro key newer period older split unremoved id other entry found got last gotToo lastToo
    -- the access falls into the period, in which the key keeps what it holds
    have given {id : CallId} {entry : EntryId} (got : run.Got id key entry) (last : LastIn id newer period) :
        holding key (period ++ older) = some entry := by
      obtain ⟨later, access, before, parts, accesses, since, gives, _⟩ := byLastAccess_of_got reaches got
      have inside := mem_period (split.symm.trans parts) last accesses since
      have legal : Legal (newer ++ (period ++ older)) := by simpa [split] using legal
      exact gives_agree legal.of_append unremoved inside gives
    exact Option.some.inj ((given got last).symm.trans (given gotToo lastToo))
  case once => exact fun id => factory_once reaches id
  case missed =>
    intro newer id key fresh older split
    rw [split] at legal
    exact legal.allowed
  case waits => exact fun id call running seeks => seeker_goes_on running seeks
  case known =>
    intro entry
    rw [recorded.size]
    exact ⟨legal.exists_inserted, fun ⟨id, key, fresh, member⟩ => legal.numbered member⟩
  case maker => exact fun _ _ _ _ _ _ _ first second => legal.inserted_unique first second
  case loser => exact fun id key entry yielded _ _ _ => not_inserted_of_yielded reaches yielded
  case visible =>
    exact ⟨fun key entry holds => recorded.listed holds,
      fun id task entry running come => recorded.reached running come⟩
  case shared =>
    intro id key entry fresh inserted
    obtain ⟨newer, older, split⟩ := List.append_of_mem inserted
    rw [split] at legal
    obtain ⟨own, rfl, _⟩ := legal.allowed.2.2
    obtain ⟨shown, at_entry, early⟩ := viewed reaches inserted
    exact ⟨shown, at_entry, early, Entry.Run.value?_of_quiet early own.sound own.free,
      Entry.Run.steps_show early own.sound own.free⟩

def empty : Unshared Nat Unit := .ofRun (.refl (Entry.Run.new .timed .wall : Entry.Run Nat Unit Unit)) rfl

/-- Three calls find the key missing, the third of them in the factory of the first. The third puts in its
entry, to which the first yields; then the key is removed, and the second puts in its own. What is published
through the handle of the fifth is what the second answers. -/
def nestedRace : List (Move Nat Nat Unit Unit) :=
  List.flatten [[.invoke 1 (.find 7 .entry), .invoke 2 (.find 7 (.lookup ⟨(), -1, false⟩)), .step 1 {}, .step 2 {}],
    [.invoke 3 (.find 7 .entry), .step 3 {}, .supply 3 empty, .step 3 {}, .supply 1 empty, .step 1 {}],
    [.supply 2 empty, .invoke 4 (.remove 7), .step 4 {}, .step 2 {}, .invoke 5 (.find 7 .entry), .step 5 {}],
    .invoke 6 (.held 1 (.store 9)) :: List.replicate 6 (.step 6 {}), List.replicate 3 (.step 2 {})]

theorem nested_race_agrees : ∃ run : Run Nat Nat Unit Unit, new.follow? nestedRace = some run ∧
    run.Got 1 7 0 ∧ run.Got 2 7 1 ∧ run.Got 3 7 0 ∧ run.store.find? 7 = some 1 ∧
      run.store.entries.size = 2 ∧
      run.tasks 2 = some (.call (.within 1 ⟨.lookup ⟨(), -1, false⟩, .done (.answered 9 .fresh)⟩)) ∧
      run.Agreed := by
  have computed : (new.follow? nestedRace).map (fun run : Run Nat Nat Unit Unit =>
      ((run.log.reverse[0]?, run.log.reverse[1]?, run.log.reverse[4]?), (run.tasks 1, run.tasks 2, run.tasks 3),
        run.store.find? 7, run.store.entries.size)) =
      some ((some (.asked 1 7), some (.asked 2 7), some (.asked 3 7)),
        (some (.call (.got 0)),
          some (.call (.within 1 ⟨.lookup ⟨(), -1, false⟩, .done (.answered 9 .fresh)⟩)), some (.call (.got 0))),
        some 1, 2) := by
    rfl
  obtain ⟨run, followed, facts⟩ := Option.map_eq_some_iff.mp computed
  simp only [Prod.mk.injEq] at facts
  obtain ⟨⟨first, second, third⟩, ⟨yielded, inserted, nested⟩, held, size⟩ := facts
  have got {id : CallId} {entry : EntryId} {i : Nat} {call : Store.Call Nat Nat Unit Unit}
      (asked : run.log.reverse[i]? = some (.asked id 7)) (running : run.tasks id = some (.call call))
      (come : call.entryId? = some entry) : run.Got id 7 entry :=
    ⟨List.mem_reverse.mp (List.mem_of_getElem? asked), call, running, come⟩
  exact ⟨run, followed, got first yielded rfl, got second inserted rfl, got third nested rfl, held, size, inserted,
    creation_races_agree (.of_follow followed)⟩

end ViewCache.Store.Run
