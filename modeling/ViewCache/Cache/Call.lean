import ViewCache.Cache

/-!
Calls on a cache. Lookups by key are counted once their reply is known; asking for an entry, and
whatever is done with an entry that is held, counts nowhere.
-/
namespace ViewCache.Cache

inductive Call (K V C E : Type)
  | uncounted (call : Store.Call K V C E)
  | counted (call : Store.Call K V C E)
  | recorded (id : EntryId) (reply : Reply V E)

variable {K V C E : Type} [DecidableEq K]

namespace Call

def lookup (cache : Cache K V C) (key : K) (context : C) : Call K V C E :=
  .counted (.find key (.lookup (cache.query context)))

def entry (key : K) : Call K V C E := .uncounted (.find key .entry)

def onHeld (id : EntryId) (request : Request V C) : Call K V C E :=
  .uncounted (.within id (ViewCache.Call.start request))

def step (me : CallId) (clock : Clock) (cache : Cache K V C) :
    Call K V C E → Option (Cache K V C × Call K V C E)
  | uncounted call =>
    (call.step me clock cache.store).map fun (store, call) => ({ cache with store }, uncounted call)
  | counted call =>
    match call.entryId?, call.reply? with
    | some id, some reply =>
      some ({ cache with counters := cache.counters.record reply }, recorded id reply)
    | _, _ =>
      (call.step me clock cache.store).map fun (store, call) => ({ cache with store }, counted call)
  | recorded .. => none

def supply (fresh : Entry V C) : Call K V C E → Option (Call K V C E)
  | uncounted call => (call.supply fresh).map uncounted
  | counted call => (call.supply fresh).map counted
  | recorded .. => none

def resume (outcome : Except E V) : Call K V C E → Option (Call K V C E)
  | uncounted call => (call.resume outcome).map uncounted
  | counted call => (call.resume outcome).map counted
  | recorded .. => none

def isBuilding : Call K V C E → Bool
  | uncounted call | counted call => call.isBuilding
  | recorded .. => false

def isUpdating : Call K V C E → Bool
  | uncounted call | counted call => call.isUpdating
  | recorded .. => false

def entryId? : Call K V C E → Option EntryId
  | uncounted call | counted call => call.entryId?
  | recorded id _ => some id

def reply? : Call K V C E → Option (Reply V E)
  | uncounted call => call.reply?
  | counted _ => none
  | recorded _ reply => some reply

def isDone : Call K V C E → Bool
  | uncounted call => call.isDone
  | counted _ => false
  | recorded .. => true

end Call

end ViewCache.Cache
