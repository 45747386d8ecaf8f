import ViewCache.Cache.Call
import ViewCache.Proofs.Store.Run

/-!
Any number of calls on one cache, their steps in any order, and operations on the cache as a whole in between.
A factory may make any entry that nobody else knows; factories and updaters may call on the cache themselves.
The log is what the counters are held against.
-/
namespace ViewCache.Cache

inductive Whole (K V C : Type)
  | peek (key : K)
  | invalidate (key : K)
  | expire (key : K)
  | expireAll
  | clear
  | withPolicy (policy : RefreshPolicy V C)

variable {K V C E : Type}

def Whole.on [DecidableEq K] (cache : Cache K V C) : Whole K V C → Cache K V C
  | peek _ => cache
  | invalidate key => (cache.invalidate key).1
  | expire key => (cache.expire key).1
  | expireAll => cache.expireAll
  | clear => cache.clear
  | withPolicy policy => cache.withPolicy policy

namespace Ledger

inductive Operation (K V C : Type)
  | lookup (key : K) (context : C)
  | entry (key : K)
  | held (entry : EntryId) (request : Request V C)

inductive Event (K V C E : Type)
  | asked (id : CallId)
  | stored (event : Store.Event K V C E)
  | finished (id : CallId) (reply : Reply V E)
  | cleared

inductive Move (K V C E : Type)
  | invoke (id : CallId) (operation : Operation K V C)
  | step (id : CallId) (clock : Clock)
  | supply (id : CallId) (fresh : Store.Unshared V C)
  | resume (id : CallId) (outcome : Except E V)
  | perform (whole : Whole K V C)

end Ledger

structure Ledger (K V C E : Type) where
  cache : Cache K V C
  calls : CallId → Option (Call K V C E) := fun _ => none
  log : List (Ledger.Event K V C E) := []

namespace Ledger

def new (config : CacheConfig) (policy : RefreshPolicy V C) (source : TimeSource) : Ledger K V C E :=
  { cache := { config, policy, source } }

def put (run : Ledger K V C E) (id : CallId) (cache : Cache K V C) (call : Call K V C E)
    (news : List (Event K V C E)) : Ledger K V C E :=
  ⟨cache, Function.update run.calls id (some call), news ++ run.log⟩

theorem calls_put {run : Ledger K V C E} {id other : CallId} {cache : Cache K V C} {call : Call K V C E}
    {news : List (Event K V C E)} :
    (run.put id cache call news).calls other = if other = id then some call else run.calls other := by
  simp [put, Function.update_apply]

def Whole.news : Whole K V C → List (Event K V C E)
  | .clear => [.cleared]
  | _ => []

variable [DecidableEq K]

def perform (run : Ledger K V C E) (whole : Whole K V C) : Ledger K V C E :=
  { run with cache := whole.on run.cache, log := Whole.news whole ++ run.log }

def news (me : CallId) (clock : Clock) (store : Store K V C) : Call K V C E → Call K V C E → List (Event K V C E)
  | .uncounted call, .uncounted next | .counted call, .counted next =>
    (Store.Run.acts me clock store call next ++ Store.Run.accesses me store call).map .stored
  | .counted _, .recorded _ reply => [.finished me reply]
  | _, _ => []

def made (me : CallId) (fresh : Store.Unshared V C) : Call K V C E → List (Event K V C E)
  | .uncounted (.build key _) | .counted (.build key _) => [.stored (.made me key fresh)]
  | _ => []

def begin? (run : Ledger K V C E) (id : CallId) : Operation K V C → Option (Ledger K V C E)
  | .lookup key context => some (run.put id run.cache (.lookup run.cache key context) [.asked id])
  | .entry key => some (run.put id run.cache (.entry key) [.stored (.asked id key)])
  | .held entry request =>
    if entry < run.cache.store.entries.size then
      some (run.put id run.cache (.onHeld entry request) [.stored (.acted entry (.began id request))])
    else none

def next? (run : Ledger K V C E) : Move K V C E → Option (Ledger K V C E)
  | .invoke id operation => if (run.calls id).isNone then run.begin? id operation else none
  | .step id clock => (run.calls id).bind fun call => (call.step id clock run.cache).map fun (cache, next) =>
      run.put id cache next (news id clock run.cache.store call next)
  | .supply id fresh => (run.calls id).bind fun call => (call.supply fresh.entry).map fun next =>
      run.put id run.cache next (made id fresh call)
  | .resume id outcome => (run.calls id).bind fun call => (call.resume outcome).map fun next =>
      run.put id run.cache next (next.entryId?.toList.map fun entry => .stored (.acted entry (.returned id outcome)))
  | .perform whole => some (run.perform whole)

def follow? (run : Ledger K V C E) (moves : List (Move K V C E)) : Option (Ledger K V C E) := moves.foldlM next? run

def Reaches (first last : Ledger K V C E) : Prop := Leads next? first last

theorem Reaches.of_follow {first last : Ledger K V C E} {moves : List (Move K V C E)}
    (followed : first.follow? moves = some last) : first.Reaches last := leads_of_foldlM followed

/-- What one step of a call makes of the call, of the cache and of the log: `none` is a call that has not begun,
and but for its record a step is one on the map. -/
inductive Turn (cache : Cache K V C) (id : CallId) :
    Option (Call K V C E) → Cache K V C → Call K V C E → List (Event K V C E) → Prop
  | asked {key context} : Turn cache id none cache (.lookup cache key context) [.asked id]
  | begun {store call news} (turn : Store.Run.Turn cache.store id none store (.call call) news) :
      Turn cache id none { cache with store } (.uncounted call) (news.map .stored)
  | uncounted {before store call news}
      (turn : Store.Run.Turn cache.store id (some (.call before)) store (.call call) news) :
      Turn cache id (some (.uncounted before)) { cache with store } (.uncounted call) (news.map .stored)
  | counted {before store call news}
      (turn : Store.Run.Turn cache.store id (some (.call before)) store (.call call) news) :
      Turn cache id (some (.counted before)) { cache with store } (.counted call) (news.map .stored)
  | recorded {entry request reply} :
      Turn cache id (some (.counted (.within entry ⟨request, .done reply⟩)))
        { cache with counters := cache.counters.record reply } (.recorded entry reply) [.finished id reply]

inductive Step (run : Ledger K V C E) : Ledger K V C E → Prop
  | turned {id cache call news} (turn : Turn run.cache id (run.calls id) cache call news) :
      Step run (run.put id cache call news)
  | performed (whole : Whole K V C) : Step run (run.perform whole)

theorem supply_turn {store : Store K V C} {id : CallId} {fresh : Store.Unshared V C} {call next : Store.Call K V C E}
    (supplied : call.supply fresh.entry = some next) :
    ∃ key goal, call = .build key goal ∧
      Store.Run.Turn store id (some (.call call)) store (.call next) [.made id key fresh] := by
  cases call with
  | build key goal =>
      cases supplied
      exact ⟨key, goal, rfl, .supplied⟩
  | find | insert | got | within => cases supplied

theorem resume_turn {store : Store K V C} {id : CallId} {outcome : Except E V} {call next : Store.Call K V C E}
    (resumed : call.resume outcome = some next) :
    ∃ entry, next.entryId? = some entry ∧
      Store.Run.Turn store id (some (.call call)) store (.call next) [.acted entry (.returned id outcome)] := by
  cases call with
  | within entry waiting =>
      obtain ⟨request, phase⟩ := waiting
      cases request with
      | lookup q =>
          cases phase with
          | updating =>
              cases resumed
              exact ⟨entry, rfl, .returned⟩
          | _ => cases resumed
      | store | expire | read => cases resumed
  | find | build | insert | got => cases resumed

theorem turn_of_step {cache after : Cache K V C} {id : CallId} {clock : Clock} {call next : Call K V C E}
    (advances : call.step id clock cache = some (after, next)) :
    Turn cache id (some call) after next (news id clock cache.store call next) := by
  cases call with
  | uncounted call =>
      simp only [Call.step, Option.map_eq_some_iff, Prod.mk.injEq] at advances
      obtain ⟨⟨store, moved⟩, moves, rfl, rfl⟩ := advances
      exact .uncounted (Store.Run.turn_of_advance (Store.Call.advance_cases moves))
  | counted call =>
      simp only [Call.step] at advances
      split at advances
      · next entry reply at_entry replied =>
          cases advances
          cases call with
          | within id call =>
              obtain ⟨request, phase⟩ := call
              cases phase with
              | done reply =>
                  cases at_entry
                  cases replied
                  exact .recorded
              | _ => cases replied
          | find | build | insert | got => cases replied
      · simp only [Option.map_eq_some_iff, Prod.mk.injEq] at advances
        obtain ⟨⟨store, moved⟩, moves, rfl, rfl⟩ := advances
        exact .counted (Store.Run.turn_of_advance (Store.Call.advance_cases moves))
  | recorded id reply => cases advances

theorem step_of_next {run next : Ledger K V C E} {move : Move K V C E} (moved : run.next? move = some next) :
    Step run next := by
  cases move with
  | invoke id operation =>
      simp only [next?, Option.isNone_iff_eq_none, Option.ite_none_right_eq_some] at moved
      obtain ⟨unused, begun⟩ := moved
      cases operation with
      | lookup key context =>
          cases begun
          exact .turned (unused ▸ .asked)
      | entry key =>
          cases begun
          exact .turned (unused ▸ .begun .sought)
      | held entry request =>
          simp only [begin?, Option.ite_none_right_eq_some, Option.some.injEq] at begun
          obtain ⟨known, rfl⟩ := begun
          exact .turned (unused ▸ .begun (.held known))
  | step id clock =>
      simp only [next?, Option.bind_eq_some_iff, Option.map_eq_some_iff] at moved
      obtain ⟨call, running, ⟨cache, after⟩, advances, rfl⟩ := moved
      exact .turned (running ▸ turn_of_step advances)
  | supply id fresh =>
      simp only [next?, Option.bind_eq_some_iff, Option.map_eq_some_iff] at moved
      obtain ⟨call, running, after, supplied, rfl⟩ := moved
      cases call with
      | uncounted call =>
          obtain ⟨inner, made, rfl⟩ := Option.map_eq_some_iff.mp supplied
          obtain ⟨key, goal, rfl, turn⟩ := supply_turn made
          exact .turned (running ▸ .uncounted turn)
      | counted call =>
          obtain ⟨inner, made, rfl⟩ := Option.map_eq_some_iff.mp supplied
          obtain ⟨key, goal, rfl, turn⟩ := supply_turn made
          exact .turned (running ▸ .counted turn)
      | recorded => cases supplied
  | resume id outcome =>
      simp only [next?, Option.bind_eq_some_iff, Option.map_eq_some_iff] at moved
      obtain ⟨call, running, after, resumed, rfl⟩ := moved
      cases call with
      | uncounted call =>
          obtain ⟨inner, returned, rfl⟩ := Option.map_eq_some_iff.mp resumed
          obtain ⟨entry, here, turn⟩ := resume_turn returned
          simp only [Call.entryId?, here]
          exact .turned (running ▸ .uncounted turn)
      | counted call =>
          obtain ⟨inner, returned, rfl⟩ := Option.map_eq_some_iff.mp resumed
          obtain ⟨entry, here, turn⟩ := resume_turn returned
          simp only [Call.entryId?, here]
          exact .turned (running ▸ .counted turn)
      | recorded => cases resumed
  | perform whole =>
      cases moved
      exact .performed whole

theorem Reaches.rule {first last : Ledger K V C E} {P : Ledger K V C E → Prop} (reaches : first.Reaches last)
    (holds : P first) (kept : ∀ {run next}, P run → Step run next → P next) : P last :=
  Leads.induct reaches holds fun _ holds moved => kept holds (step_of_next moved)

end Ledger

end ViewCache.Cache
