import ViewCache.Locator
import ViewCache.Proofs.Cache.Mirror
import ViewCache.Proofs.Entry.Log

/-!
Any number of threads on one view locator, whose resolver may answer what it likes. To its cache they are
threads that keep to what a locator offers: lookups by key, invalidation and clearing.
-/
namespace ViewCache.Locator

open Cache (Task Log)

abbrev Run := Cache.Run Key (Option Page) Unit Failure

inductive Move
  | lookup (id : CallId) (key : Key)
  | invalidate (id : CallId) (key : Key)
  | clear (id : CallId)
  | step (id : CallId) (clock : Clock)
  | answer (id : CallId) (resolution : Resolution)

def Move.id : Move → CallId
  | lookup id _ | invalidate id _ | clear id | step id _ | answer id _ => id

def query (config : LocatorConfig) : Query Unit := ⟨(), config.effectiveTimeout, config.tolerant⟩

namespace Run

def new (config : LocatorConfig) (source : TimeSource) : Run := { cache := (Locator.new config source).cache }

def onCache (run : Run) : Move → Cache.Move Key (Option Page) Unit Failure
  | .lookup id key => .invoke id (.lookup key ())
  | .invalidate id key => .invoke id (.invalidate key)
  | .clear id => .invoke id .clear
  | .step id clock =>
    match run.tasks id with
    | some (.call call) => if call.isBuilding then .supply id run.cache.policy run.cache.source else .step id clock
    | _ => .step id clock
  | .answer id resolution => .resume id resolution

def next? {shards : Nat} (shardOf : Key → Fin shards) (run : Run) (move : Move) : Option Run :=
  Cache.Run.next? shardOf run (run.onCache move)

def follow? {shards : Nat} (shardOf : Key → Fin shards) (run : Run) (moves : List Move) : Option Run :=
  moves.foldlM (next? shardOf) run

def Reaches {shards : Nat} (shardOf : Key → Fin shards) (first last : Run) : Prop :=
  Leads (next? shardOf) first last

def Fits (config : LocatorConfig) : Task Key (Option Page) Unit Failure → Prop
  | .call (.counted (.find _ goal)) | .call (.counted (.build _ goal)) => goal = .lookup (query config)
  | .call (.counted (.insert _ goal fresh)) => goal = .lookup (query config) ∧ fresh.policy = pagePolicy
  | .call (.counted (.within _ call)) => call.request = .lookup (query config)
  | .call (.counted (.got _)) | .call (.uncounted _) => False
  | .call (.recorded ..) | .invalidating _ | .clearing .. | .removed _ => True

structure Kept (config : LocatorConfig) (run : Run) : Prop where
  settings : run.cache.config = config.cacheConfig
  policy : run.cache.policy = pagePolicy
  pins : ∀ {id entry}, run.cache.store.entry? id = some entry → entry.policy = pagePolicy
  tasks : ∀ {id task}, run.tasks id = some task → Fits config task
  asked : ∀ {entry id request}, (entry, .began id request) ∈ run.log → request = .lookup (query config)

variable {config : LocatorConfig} {source : TimeSource} {shards : Nat} {shardOf : Key → Fin shards}
  {first run next last : Run}

theorem Reaches.onCache (reaches : first.Reaches shardOf last) : Cache.Run.Reaches shardOf first last :=
  Leads.induct reaches .refl fun _ reached moved => Cache.Run.Reaches.next reached moved

theorem Reaches.of_next {move : Move} (moved : first.next? shardOf move = some next) : first.Reaches shardOf next :=
  Relation.ReflTransGen.single ⟨move, moved⟩

theorem Reaches.of_follow {moves : List Move} (followed : first.follow? shardOf moves = some last) :
    first.Reaches shardOf last := leads_of_foldlM followed

theorem kept_new (config : LocatorConfig) (source : TimeSource) : Kept config (new config source) := by
  refine ⟨rfl, rfl, ?_, ?_, ?_⟩
  · intro id entry known
    simp [new, Locator.new, Store.entry?] at known
  · intro id task running
    cases running
  · intro entry id request member
    cases member

theorem step_cases {id : CallId} {clock : Clock} (moved : run.next? shardOf (.step id clock) = some next) :
    (∃ call, run.tasks id = some (.call call) ∧ call.isBuilding = true ∧
        Cache.Run.next? shardOf run (.supply id run.cache.policy run.cache.source) = some next) ∨
      ∃ task cache after news, run.tasks id = some task ∧
        (∀ key goal, task ≠ .call (.counted (.build key goal))) ∧
        Cache.Run.Turn shardOf run.cache id (some task) cache after news ∧
        next = Cache.Run.put run id cache after news := by
  rw [next?, onCache] at moved
  split at moved
  case h_1 call running =>
    split at moved
    case isTrue building => exact .inl ⟨call, running, building, moved⟩
    case isFalse resting =>
      obtain ⟨task, cache, after, news, found, turn, rfl⟩ := Cache.Run.turn_of_step moved
      rw [running] at found
      cases found
      refine .inr ⟨_, cache, after, news, running, ?_, turn, rfl⟩
      rintro key goal ⟨⟩
      exact resting rfl
  case h_2 =>
    obtain ⟨task, cache, after, news, found, turn, rfl⟩ := Cache.Run.turn_of_step moved
    refine .inr ⟨task, cache, after, news, found, ?_, turn, rfl⟩
    rintro key goal rfl
    simp_all

theorem Kept.put (kept : Kept config run) {id : CallId} {cache : PageCache} {task : Task Key (Option Page) Unit Failure}
    {news : Log (Option Page) Unit Failure} (settings : cache.config = run.cache.config)
    (policy : cache.policy = run.cache.policy)
    (pins : ∀ {id entry}, cache.store.entry? id = some entry → entry.policy = pagePolicy)
    (fits : Fits config task)
    (asked : ∀ {entry id request}, (entry, .began id request) ∈ news → request = .lookup (query config)) :
    Kept config (Cache.Run.put run id cache task news) := by
  refine ⟨settings.trans kept.settings, policy.trans kept.policy, pins, ?_, ?_⟩
  · intro other found running
    rcases Cache.Run.tasks_put running with ⟨-, rfl⟩ | ⟨-, running⟩
    · exact fits
    · exact kept.tasks running
  · intro entry other request member
    rcases List.mem_append.mp member with now | earlier
    · exact asked now
    · exact kept.asked earlier

theorem Kept.arrive (kept : Kept config run) {id : CallId} {cache : PageCache} {entry : EntryId}
    {goal : Store.Goal Unit} (settings : cache.config = run.cache.config) (policy : cache.policy = run.cache.policy)
    (pins : ∀ {id entry}, cache.store.entry? id = some entry → entry.policy = pagePolicy)
    (wanted : goal = .lookup (query config)) :
    Kept config (Cache.Run.put run id cache (.call (.wrap true (.arrive entry goal)))
      (Cache.Run.arrival id entry goal)) := by
  subst wanted
  refine kept.put settings policy pins rfl ?_
  intro found other request member
  simp only [Cache.Run.arrival, List.mem_singleton, Prod.mk.injEq, Entry.Event.began.injEq] at member
  exact member.2.2

theorem counted_of_fits {counted : Bool} {call : Store.Call Key (Option Page) Unit Failure}
    (fits : Fits config (.call (.wrap counted call))) : counted = true := by
  cases counted with
  | false => exact fits.elim
  | true => rfl

theorem Kept.turn (kept : Kept config run) {id : CallId} {before after : Task Key (Option Page) Unit Failure}
    {cache : PageCache} {news : Log (Option Page) Unit Failure} (running : run.tasks id = some before)
    (turn : Cache.Run.Turn shardOf run.cache id (some before) cache after news)
    (supplied : ∀ key goal, before ≠ .call (.counted (.build key goal))) :
    Kept config (Cache.Run.put run id cache after news) := by
  have fits := kept.tasks running
  cases turn with
  | @missed counted key goal =>
      obtain rfl := counted_of_fits fits
      exact kept.put rfl rfl kept.pins fits (fun member => by cases member)
  | @supplied counted key goal policy source =>
      obtain rfl := counted_of_fits fits
      exact absurd rfl (supplied key goal)
  | @arrived counted call key goal entry seeks found =>
      obtain rfl := counted_of_fits fits
      cases call with
      | find | build =>
          cases seeks
          exact kept.arrive rfl rfl kept.pins fits
      | insert =>
          cases seeks
          exact kept.arrive rfl rfl kept.pins fits.1
      | got | within => cases seeks
  | @inserted counted key goal fresh absent =>
      obtain rfl := counted_of_fits fits
      refine kept.arrive rfl rfl ?_ fits.1
      intro other entry known
      simp only [Store.entry?, Array.getElem?_push] at known
      split at known
      · cases known
        exact fits.2
      · exact kept.pins known
  | @stepped counted entryId request phase entry now after next known advance =>
      obtain rfl := counted_of_fits fits
      refine kept.put rfl rfl ?_ fits (fun member => by simp at member)
      intro other seen shown
      by_cases same : other = entryId
      · subst same
        rw [Store.entry?_set_self known] at shown
        cases shown
        exact advance.policy.trans (kept.pins known)
      · rw [Store.entry?_set_of_ne _ _ same] at shown
        exact kept.pins shown
  | @returned counted entryId q outcome =>
      obtain rfl := counted_of_fits fits
      exact kept.put rfl rfl kept.pins fits (fun member => by simp at member)
  | recorded => exact kept.put rfl rfl kept.pins trivial (fun member => by cases member)
  | invalidated | swept | cleared => exact kept.put rfl rfl kept.pins trivial (fun member => by cases member)

theorem Kept.asks (kept : Kept config run) : run.cache.query () = query config := by
  simp [Cache.query, query, kept.settings, LocatorConfig.cacheConfig]

theorem Kept.move (kept : Kept config run) {move : Move} (moved : run.next? shardOf move = some next) :
    Kept config next := by
  cases move with
  | lookup id key =>
      obtain ⟨-, begun⟩ := Cache.Run.begin_of_invoke moved
      cases begun
      exact kept.put rfl rfl kept.pins (congrArg Store.Goal.lookup kept.asks) (fun member => by cases member)
  | invalidate id key | clear id =>
      obtain ⟨-, begun⟩ := Cache.Run.begin_of_invoke moved
      cases begun
      exact kept.put rfl rfl kept.pins trivial (fun member => by cases member)
  | step id clock =>
      rcases step_cases moved with
        ⟨call, running, building, moved⟩ | ⟨task, cache, after, news, running, resting, turn, rfl⟩
      · obtain ⟨_, after, again, supplies, rfl⟩ := Cache.Run.supplied_of_next moved
        rw [running] at again
        cases again
        have fits := kept.tasks running
        cases call with
        | uncounted => exact fits.elim
        | recorded => cases building
        | counted inner =>
            cases inner <;> simp [Cache.Call.isBuilding, Store.Call.isBuilding] at building
            cases supplies
            exact kept.put rfl rfl kept.pins ⟨fits, kept.policy⟩ (fun member => by cases member)
      · exact kept.turn running turn resting
  | answer id resolution =>
      obtain ⟨call, after, running, resumes, rfl⟩ := Cache.Run.resumed_of_next moved
      have turn : Cache.Run.Turn shardOf run.cache id _ _ _ _ := Cache.Run.turn_of_resume resumes
      refine kept.turn running turn ?_
      rintro key goal ⟨⟩
      simp [Cache.Call.resume, Store.Call.resume] at resumes

theorem tasks_of_next {move : Move} (moved : run.next? shardOf move = some next) {other : CallId}
    (different : other ≠ move.id) : next.tasks other = run.tasks other := by
  cases move with
  | lookup id key | invalidate id key | clear id =>
      obtain ⟨-, begun⟩ := Cache.Run.begin_of_invoke moved
      cases begun
      exact Function.update_of_ne different _ _
  | step id clock =>
      rcases step_cases moved with ⟨_, _, _, moved⟩ | ⟨_, _, _, _, _, _, _, rfl⟩
      · obtain ⟨_, _, _, _, rfl⟩ := Cache.Run.supplied_of_next moved
        exact Function.update_of_ne different _ _
      · exact Function.update_of_ne different _ _
  | answer id resolution =>
      obtain ⟨_, _, _, _, rfl⟩ := Cache.Run.resumed_of_next moved
      exact Function.update_of_ne different _ _

theorem kept_of_new (reaches : (new config source).Reaches shardOf run) : Kept config run :=
  Leads.induct reaches (kept_new config source) fun _ kept moved => kept.move moved

def removes (shardOf : Key → Fin shards) (key : Key) (run : Run) : Move → Prop
  | .step id _ => ∃ task ∈ run.tasks id, task.removes shardOf key
  | _ => False

/-- Moves that leave the key in the map lead from one run to the other. -/
def Calm (shardOf : Key → Fin shards) (key : Key) : Run → Run → Prop :=
  Relation.ReflTransGen fun run next => ∃ move, run.next? shardOf move = some next ∧ ¬ run.removes shardOf key move

theorem found_of_next {move : Move} (moved : run.next? shardOf move = some next) {key : Key} {entry : EntryId}
    (held : run.cache.store.find? key = some entry) (calm : ¬ run.removes shardOf key move) :
    next.cache.store.find? key = some entry := by
  cases move with
  | lookup id asked | invalidate id asked | clear id =>
      obtain ⟨-, begun⟩ := Cache.Run.begin_of_invoke moved
      cases begun
      exact held
  | step id clock =>
      rcases step_cases moved with ⟨call, -, -, moved⟩ | ⟨task, cache, after, news, running, -, turn, rfl⟩
      · obtain ⟨_, _, -, -, rfl⟩ := Cache.Run.supplied_of_next moved
        exact held
      · apply turn.keeps_found held
        rintro _ ⟨⟩ removing
        exact calm ⟨task, running, removing⟩
  | answer id resolution =>
      obtain ⟨_, _, -, -, rfl⟩ := Cache.Run.resumed_of_next moved
      exact held

theorem Calm.found {key : Key} {entry : EntryId} (calm : Calm shardOf key first last)
    (held : first.cache.store.find? key = some entry) : last.cache.store.find? key = some entry := by
  induction calm with
  | refl => exact held
  | tail _ last ih =>
      obtain ⟨move, moved, quiet⟩ := last
      exact found_of_next moved ih quiet

theorem Calm.reaches {key : Key} (calm : Calm shardOf key first last) : first.Reaches shardOf last := by
  induction calm with
  | refl => exact .refl
  | tail _ last ih =>
      obtain ⟨move, moved, -⟩ := last
      exact ih.tail ⟨move, moved⟩

theorem log_of_next {move : Move} (moved : run.next? shardOf move = some next) :
    ∃ news, next.log = news ++ run.log := by
  have step := Cache.Run.step_of_next moved
  cases step with
  | policySet => exact ⟨[], rfl⟩
  | @turned _ _ _ _ news _ _ => exact ⟨news, rfl⟩

theorem Reaches.log (reaches : first.Reaches shardOf last) : ∃ news, last.log = news ++ first.log := by
  refine Leads.induct reaches (P := fun run => ∃ news, run.log = news ++ first.log) ⟨[], rfl⟩ ?_
  intro run move next _ earlier moved
  obtain ⟨news, log⟩ := earlier
  obtain ⟨newest, latest⟩ := log_of_next moved
  exact ⟨newest ++ news, by rw [latest, log, List.append_assoc]⟩

/-- The clock never went back from one reading to the next. -/
def Steady (run : Run) : Prop := Entry.Steady (run.log.map Prod.snd)

theorem Reaches.steady (reaches : first.Reaches shardOf last) (steady : last.Steady) : first.Steady := by
  obtain ⟨news, log⟩ := reaches.log
  rw [Steady, log, List.map_append, Entry.Steady, Entry.readings, List.filterMap_append, List.pairwise_append] at steady
  exact steady.2.1

theorem Steady.entryLog (steady : run.Steady) (entry : EntryId) : Entry.Steady (Cache.entryLog entry run.log) := by
  have fewer : (Cache.entryLog entry run.log).Sublist (run.log.map Prod.snd) := by
    induction run.log with
    | nil => exact .slnil
    | cons told log ih =>
        obtain ⟨other, event⟩ := told
        by_cases same : other = entry
        · simpa [Cache.entryLog, same] using ih
        · simpa [Cache.entryLog, same] using ih.cons event
  exact List.Pairwise.sublist (fewer.filterMap Entry.Event.reading?) steady

end Run

end ViewCache.Locator
