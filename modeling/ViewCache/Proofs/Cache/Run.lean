import ViewCache.Cache.Call
import ViewCache.Proofs.Entry.Run

/-!
Any number of threads on one cache, their steps in any order. The map clears itself shard by shard, and
other threads may come in between. Expiring the cache's entries is to call `expire` on each of them.
-/
namespace ViewCache

variable {K V C E : Type}

namespace Store

def drop (store : Store K V C) (drops : K → Bool) : Store K V C :=
  { store with index := store.index.filter fun (key, _) => !drops key }

def dropped (store : Store K V C) (drops : K → Bool) : List EntryId :=
  (store.index.filter fun (key, _) => drops key).map Prod.snd

end Store

namespace Cache

inductive Operation (K V C : Type)
  | lookup (key : K) (context : C)
  | find (key : K) (goal : Store.Goal C)
  | held (entry : EntryId) (request : Request V C)
  | invalidate (key : K)
  | clear

inductive Task (K V C E : Type)
  | call (call : Call K V C E)
  | invalidating (key : K)
  /-- the shards before `shard` are cleared, and `gone` were the entries there -/
  | clearing (shard : Nat) (gone : List EntryId)
  | removed (gone : List EntryId)

def Task.gone : Task K V C E → List EntryId
  | clearing _ gone | removed gone => gone
  | call _ | invalidating _ => []

def Task.entryId? : Task K V C E → Option EntryId
  | call inner => inner.entryId?
  | _ => none

def Call.wrap (counted : Bool) (call : Store.Call K V C E) : Call K V C E :=
  if counted then .counted call else .uncounted call

def Call.within? : Call K V C E → Option (EntryId × ViewCache.Call V C E)
  | uncounted (.within id call) | counted (.within id call) => some (id, call)
  | _ => none

@[simp]
theorem Call.within?_wrap (counted : Bool) (id : EntryId) (call : ViewCache.Call V C E) :
    (wrap counted (.within id call) : Call K V C E).within? = some (id, call) := by
  cases counted <;> rfl

@[simp]
theorem Call.entryId?_wrap (counted : Bool) (call : Store.Call K V C E) :
    (wrap counted call).entryId? = call.entryId? := by
  cases counted <;> rfl

theorem Task.wrap_injective {counted other : Bool} {call found : Store.Call K V C E}
    (same : (.call (.wrap counted call) : Task K V C E) = .call (.wrap other found)) : call = found := by
  cases counted <;> cases other <;> simp [Call.wrap] at same
  all_goals exact same

theorem Task.recorded_ne_wrap {id : EntryId} {reply : Reply V E} {counted : Bool} {call : Store.Call K V C E} :
    (.call (.recorded id reply) : Task K V C E) ≠ .call (.wrap counted call) := by
  cases counted <;> simp [Call.wrap]

@[simp]
theorem Task.entryId?_call (call : Call K V C E) : (Task.call call).entryId? = call.entryId? := rfl

inductive Move (K V C E : Type)
  | invoke (id : CallId) (operation : Operation K V C)
  | step (id : CallId) (clock : Clock)
  /-- factories make empty entries -/
  | supply (id : CallId) (policy : RefreshPolicy V C) (source : TimeSource)
  | resume (id : CallId) (outcome : Except E V)
  | setPolicy (policy : RefreshPolicy V C)

abbrev Log (V C E : Type) := List (EntryId × Entry.Event V C E)

structure Run (K V C E : Type) where
  cache : Cache K V C
  tasks : CallId → Option (Task K V C E) := fun _ => none
  log : Log V C E := []

def entryLog (entry : EntryId) (log : Log V C E) : List (Entry.Event V C E) :=
  log.filterMap fun (id, event) => if id = entry then some event else none

namespace Run

def new (config : CacheConfig) (policy : RefreshPolicy V C) (source : TimeSource) : Run K V C E :=
  { cache := { config, policy, source } }

def put (run : Run K V C E) (id : CallId) (cache : Cache K V C) (task : Task K V C E) (news : Log V C E) :
    Run K V C E :=
  ⟨cache, Function.update run.tasks id (some task), news ++ run.log⟩

def news (me : CallId) (clock : Clock) (store : Store K V C) (before after : Call K V C E) : Log V C E :=
  match before.within?, after.within? with
  | none, some (id, call) => [(id, .began me call.request)]
  | some (id, call), some (_, next) =>
    match store.entry? id with
    | some entry => [(id, .stepped me (clock.now entry.source) entry call.phase next.phase)]
    | none => []
  | _, none => []

variable [DecidableEq K]

def begin? (run : Run K V C E) (id : CallId) : Operation K V C → Option (Run K V C E)
  | .lookup key context => some (run.put id run.cache (.call (.lookup run.cache key context)) [])
  | .find key goal => some (run.put id run.cache (.call (.uncounted (.find key goal))) [])
  | .held entry request =>
    if entry < run.cache.store.entries.size then
      some (run.put id run.cache (.call (.onHeld entry request)) [(entry, .began id request)])
    else none
  | .invalidate key => some (run.put id run.cache (.invalidating key) [])
  | .clear => some (run.put id run.cache (.clearing 0 []) [])

def step? {shards : Nat} (shardOf : K → Fin shards) (run : Run K V C E) (id : CallId) (clock : Clock) :
    Task K V C E → Option (Run K V C E)
  | .call call => (call.step id clock run.cache).map fun (cache, next) =>
      run.put id cache (.call next) (news id clock run.cache.store call next)
  | .invalidating key =>
    some (run.put id (run.cache.invalidate key).1 (.removed (run.cache.store.find? key).toList) [])
  | .clearing shard gone =>
    if shard < shards then
      let drops key := (shardOf key).val == shard
      some (run.put id { run.cache with store := run.cache.store.drop drops }
        (.clearing (shard + 1) (run.cache.store.dropped drops ++ gone)) [])
    else some (run.put id { run.cache with counters := {} } (.removed gone) [])
  | .removed _ => none

def next? {shards : Nat} (shardOf : K → Fin shards) (run : Run K V C E) : Move K V C E → Option (Run K V C E)
  | .invoke id operation => if (run.tasks id).isNone then run.begin? id operation else none
  | .step id clock => (run.tasks id).bind fun task => run.step? shardOf id clock task
  | .supply id policy source =>
    match run.tasks id with
    | some (.call call) => (call.supply { policy, source }).map fun call => run.put id run.cache (.call call) []
    | _ => none
  | .resume id outcome =>
    match run.tasks id with
    | some (.call call) => (call.resume outcome).map fun next =>
        run.put id run.cache (.call next) (next.within?.toList.map fun (entry, _) => (entry, .returned id outcome))
    | _ => none
  | .setPolicy policy => some { run with cache := run.cache.withPolicy policy }

def follow? {shards : Nat} (shardOf : K → Fin shards) (run : Run K V C E) (moves : List (Move K V C E)) :
    Option (Run K V C E) :=
  moves.foldlM (next? shardOf) run

def Reaches {shards : Nat} (shardOf : K → Fin shards) (first last : Run K V C E) : Prop :=
  Leads (next? shardOf) first last

theorem Reaches.trans {shards : Nat} {shardOf : K → Fin shards} {first middle last : Run K V C E}
    (front : first.Reaches shardOf middle) (back : middle.Reaches shardOf last) :
    first.Reaches shardOf last :=
  Relation.ReflTransGen.trans front back

theorem Reaches.next {shards : Nat} {shardOf : K → Fin shards} {first run next : Run K V C E}
    {move : Move K V C E} (reaches : first.Reaches shardOf run) (moved : run.next? shardOf move = some next) :
    first.Reaches shardOf next :=
  Relation.ReflTransGen.tail reaches ⟨move, moved⟩

theorem Reaches.of_follow {shards : Nat} {shardOf : K → Fin shards} {first last : Run K V C E}
    {moves : List (Move K V C E)} (followed : first.follow? shardOf moves = some last) :
    first.Reaches shardOf last := leads_of_foldlM followed

theorem begin_of_invoke {shards : Nat} {shardOf : K → Fin shards} {run next : Run K V C E} {id : CallId}
    {operation : Operation K V C} (invoked : run.next? shardOf (.invoke id operation) = some next) :
    run.tasks id = none ∧ run.begin? id operation = some next := by
  simpa [next?] using invoked

end Run

end Cache

end ViewCache
