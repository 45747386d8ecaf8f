import ViewCache.Proofs.Entry.Discipline
import ViewCache.Proofs.Store.Call

namespace ViewCache.Store

structure Unshared (V C : Type) where
  entry : Entry V C
  sound : entry.Sound
  free : entry.holder = none

/-- It is new, or its maker has called on it and the calls are over. -/
def Unshared.ofRun {V C E : Type} {policy : RefreshPolicy V C} {source : TimeSource} {run : Entry.Run V C E}
    (reaches : (Entry.Run.new policy source).Reaches run) (free : run.entry.holder = none) : Unshared V C :=
  ⟨run.entry, (Entry.Run.disciplined_of_new reaches).sound, free⟩

inductive Operation (K V C : Type)
  | find (key : K) (goal : Goal C)
  | held (entry : EntryId) (request : Request V C)
  | remove (key : K)

inductive Task (K V C E : Type)
  | call (call : Store.Call K V C E)
  | removing (key : K)
  | removed

inductive Event (K V C E : Type)
  | asked (id : CallId) (key : K)
  /-- what the key held at the first look; if nothing, the factory was called -/
  | looked (id : CallId) (key : K) (found : Option EntryId)
  | made (id : CallId) (key : K) (fresh : Unshared V C)
  /-- at the second look the key held an entry, and the call dropped its own -/
  | yielded (id : CallId) (key : K) (entry : EntryId)
  /-- at the second look the key held nothing, and the call put in its own entry -/
  | inserted (id : CallId) (key : K) (entry : EntryId) (fresh : Entry V C)
  | removed (id : CallId) (key : K)
  | acted (entry : EntryId) (event : Entry.Event V C E)

inductive Move (K V C E : Type)
  | invoke (id : CallId) (operation : Operation K V C)
  | step (id : CallId) (clock : Clock)
  | supply (id : CallId) (fresh : Unshared V C)
  | resume (id : CallId) (outcome : Except E V)

structure Run (K V C E : Type) where
  store : Store K V C := {}
  tasks : CallId → Option (Task K V C E) := fun _ => none
  log : List (Event K V C E) := []

variable {K V C E : Type}

def Task.entryId? : Task K V C E → Option EntryId
  | call inner => inner.entryId?
  | removing _ | removed => none

namespace Run

def new : Run K V C E := {}

def put (run : Run K V C E) (id : CallId) (store : Store K V C) (task : Task K V C E)
    (news : List (Event K V C E)) : Run K V C E :=
  ⟨store, Function.update run.tasks id (some task), news ++ run.log⟩

theorem tasks_put {run : Run K V C E} {id other : CallId} {store : Store K V C} {task found : Task K V C E}
    {news : List (Event K V C E)} (held : (run.put id store task news).tasks other = some found) :
    other = id ∧ found = task ∨ other ≠ id ∧ run.tasks other = some found := by
  by_cases same : other = id
  · subst same
    exact .inl ⟨rfl, by simpa [put] using held.symm⟩
  · exact .inr ⟨same, by simpa [put, same] using held⟩

def accesses [DecidableEq K] (me : CallId) (store : Store K V C) : Store.Call K V C E → List (Event K V C E)
  | .find key _ => [.looked me key (store.find? key)]
  | .insert key _ fresh =>
    match store.find? key with
    | some entry => [.yielded me key entry]
    | none => [.inserted me key store.entries.size fresh]
  | _ => []

def acts (me : CallId) (clock : Clock) (store : Store K V C) :
    Store.Call K V C E → Store.Call K V C E → List (Event K V C E)
  | .within entry call, .within _ next =>
    match store.entry? entry with
    | some seen => [.acted entry (.stepped me (clock.now seen.source) seen call.phase next.phase)]
    | none => []
  | _, .within entry call => [.acted entry (.began me call.request)]
  | _, _ => []

def begin? (run : Run K V C E) (id : CallId) : Operation K V C → Option (Run K V C E)
  | .find key goal => some (run.put id run.store (.call (.find key goal)) [.asked id key])
  | .held entry request =>
    if entry < run.store.entries.size then
      some (run.put id run.store (.call (.within entry (ViewCache.Call.start request)))
        [.acted entry (.began id request)])
    else none
  | .remove key => some (run.put id run.store (.removing key) [])

variable [DecidableEq K]

def step? (run : Run K V C E) (id : CallId) (clock : Clock) : Task K V C E → Option (Run K V C E)
  | .call call => (call.step id clock run.store).map fun (store, next) =>
      run.put id store (.call next) (acts id clock run.store call next ++ accesses id run.store call)
  | .removing key => some (run.put id (run.store.remove key) .removed [.removed id key])
  | .removed => none

def supply? (run : Run K V C E) (id : CallId) (fresh : Unshared V C) : Task K V C E → Option (Run K V C E)
  | .call (.build key goal) =>
      ((Store.Call.build key goal).supply fresh.entry).map fun next =>
        run.put id run.store (.call next) [.made id key fresh]
  | _ => none

def resume? (run : Run K V C E) (id : CallId) (outcome : Except E V) : Task K V C E → Option (Run K V C E)
  | .call call => (call.resume outcome).map fun next =>
      run.put id run.store (.call next) (next.entryId?.toList.map fun entry => .acted entry (.returned id outcome))
  | _ => none

def next? (run : Run K V C E) : Move K V C E → Option (Run K V C E)
  | .invoke id operation => if (run.tasks id).isNone then run.begin? id operation else none
  | .step id clock => (run.tasks id).bind (run.step? id clock)
  | .supply id fresh => (run.tasks id).bind (run.supply? id fresh)
  | .resume id outcome => (run.tasks id).bind (run.resume? id outcome)

def follow? (run : Run K V C E) (moves : List (Move K V C E)) : Option (Run K V C E) := moves.foldlM next? run

def Reaches (first last : Run K V C E) : Prop := Leads next? first last

theorem Reaches.of_follow {first last : Run K V C E} {moves : List (Move K V C E)}
    (followed : first.follow? moves = some last) : first.Reaches last := leads_of_foldlM followed

end Run

def arrival (me : CallId) (entry : EntryId) : Goal C → List (Event K V C E)
  | .entry => []
  | .lookup q => [.acted entry (.began me (.lookup q))]

theorem acts_arrive (me : CallId) (clock : Clock) (store : Store K V C) {before : Store.Call K V C E}
    (seeks : before.seeks?.isSome) (entry : EntryId) (goal : Goal C) :
    Run.acts me clock store before (.arrive entry goal) = arrival me entry goal := by
  cases before with
  | find | build | insert => cases goal <;> rfl
  | got | within => simp [Call.seeks?] at seeks

namespace Run

variable [DecidableEq K]

/-- What becomes of a task, of the map and of the log by one step of the task; `none` is a task that has not
begun. -/
inductive Turn (store : Store K V C) (id : CallId) :
    Option (Task K V C E) → Store K V C → Task K V C E → List (Event K V C E) → Prop
  | sought {key goal} : Turn store id none store (.call (.find key goal)) [.asked id key]
  | held {entry request} (known : entry < store.entries.size) :
      Turn store id none store (.call (.within entry (ViewCache.Call.start request)))
        [.acted entry (.began id request)]
  | remove {key} : Turn store id none store (.removing key) []
  | found {key goal entry} (holds : store.find? key = some entry) :
      Turn store id (some (.call (.find key goal))) store (.call (.arrive entry goal))
        (arrival id entry goal ++ [.looked id key (some entry)])
  | missed {key goal} (absent : store.find? key = none) :
      Turn store id (some (.call (.find key goal))) store (.call (.build key goal)) [.looked id key none]
  | supplied {key goal fresh} :
      Turn store id (some (.call (.build key goal))) store (.call (.insert key goal fresh.entry))
        [.made id key fresh]
  | yielded {key goal fresh entry} (holds : store.find? key = some entry) :
      Turn store id (some (.call (.insert key goal fresh))) store (.call (.arrive entry goal))
        (arrival id entry goal ++ [.yielded id key entry])
  | inserted {key goal fresh} (absent : store.find? key = none) :
      Turn store id (some (.call (.insert key goal fresh)))
        ⟨store.entries.push fresh, (key, store.entries.size) :: store.index⟩
        (.call (.arrive store.entries.size goal))
        (arrival id store.entries.size goal ++ [.inserted id key store.entries.size fresh])
  | stepped {entryId request phase entry now after next} (known : store.entry? entryId = some entry)
      (advance : ViewCache.Call.Advance id now request entry phase after next) :
      Turn store id (some (.call (.within entryId ⟨request, phase⟩))) (store.set entryId after)
        (.call (.within entryId ⟨request, next⟩)) [.acted entryId (.stepped id now entry phase next)]
  | returned {entryId q outcome} :
      Turn store id (some (.call (.within entryId ⟨.lookup q, .updating⟩))) store
        (.call (.within entryId ⟨.lookup q, ViewCache.Call.resumed q outcome⟩))
        [.acted entryId (.returned id outcome)]
  | removed {key} : Turn store id (some (.removing key)) (store.remove key) .removed [.removed id key]

theorem turn_of_advance {me : CallId} {clock : Clock} {store after : Store K V C} {call next : Store.Call K V C E}
    (advance : Store.Call.Advance me clock store call after next) :
    Turn store me (some (.call call)) after (.call next) (acts me clock store call next ++ accesses me store call) := by
  cases advance with
  | hit holds =>
      rw [acts_arrive _ _ _ rfl]
      simpa [accesses, holds] using Turn.found holds
  | missed absent => simpa [acts, accesses, absent] using Turn.missed absent
  | lost holds =>
      rw [acts_arrive _ _ _ rfl]
      simpa [accesses, holds] using Turn.yielded holds
  | inserted absent =>
      rw [acts_arrive _ _ _ rfl]
      simpa [accesses, absent] using Turn.inserted absent
  | within known advance => simpa [acts, accesses, known] using Turn.stepped known advance

theorem turn_of_next {run next : Run K V C E} {move : Move K V C E} (moved : run.next? move = some next) :
    ∃ id store task news, Turn run.store id (run.tasks id) store task news ∧
      next = run.put id store task news := by
  cases move with
  | invoke id operation =>
      simp only [next?, Option.isNone_iff_eq_none, Option.ite_none_right_eq_some] at moved
      obtain ⟨unused, begun⟩ := moved
      cases operation with
      | find key goal =>
          cases begun
          exact ⟨id, _, _, _, unused ▸ .sought, rfl⟩
      | held entry request =>
          simp only [begin?, Option.ite_none_right_eq_some, Option.some.injEq] at begun
          obtain ⟨known, rfl⟩ := begun
          exact ⟨id, _, _, _, unused ▸ .held known, rfl⟩
      | remove key =>
          cases begun
          exact ⟨id, _, _, _, unused ▸ .remove, rfl⟩
  | step id clock =>
      simp only [next?, Option.bind_eq_some_iff] at moved
      obtain ⟨task, running, stepped⟩ := moved
      cases task with
      | call call =>
          simp only [step?, Option.map_eq_some_iff] at stepped
          obtain ⟨⟨store, after⟩, advances, rfl⟩ := stepped
          exact ⟨id, _, _, _, running ▸ turn_of_advance (Store.Call.advance_cases advances), rfl⟩
      | removing key =>
          cases stepped
          exact ⟨id, _, _, _, running ▸ .removed, rfl⟩
      | removed => cases stepped
  | supply id fresh =>
      simp only [next?, Option.bind_eq_some_iff] at moved
      obtain ⟨task, running, supplied⟩ := moved
      cases task with
      | call call =>
          cases call with
          | build key goal =>
              cases supplied
              exact ⟨id, _, _, _, running ▸ .supplied, rfl⟩
          | find | insert | got | within => cases supplied
      | removing | removed => cases supplied
  | resume id outcome =>
      simp only [next?, Option.bind_eq_some_iff] at moved
      obtain ⟨task, running, resumes⟩ := moved
      cases task with
      | call call =>
          cases call with
          | within entryId waiting =>
              obtain ⟨request, phase⟩ := waiting
              cases request with
              | lookup q =>
                  cases phase with
                  | updating =>
                      cases resumes
                      exact ⟨id, _, _, _, running ▸ .returned, rfl⟩
                  | _ => cases resumes
              | store | expire | read => cases resumes
          | find | build | insert | got => cases resumes
      | removing | removed => cases resumes

theorem Reaches.rule {first last : Run K V C E} {P : Run K V C E → Prop} (reaches : first.Reaches last)
    (holds : P first)
    (kept : ∀ {run id store task news}, first.Reaches run → P run →
      Turn run.store id (run.tasks id) store task news → P (run.put id store task news)) : P last := by
  refine Leads.induct reaches holds ?_
  intro run move next reached holds moved
  obtain ⟨id, store, task, news, turn, rfl⟩ := turn_of_next moved
  exact kept reached holds turn

end Run

end ViewCache.Store
