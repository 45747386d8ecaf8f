import ViewCache.Cache.Call
import ViewCache.Entry.Alone

/-!
Cache lookups made one after another, each running from its first step to its reply while nothing else
happens to the cache.
-/
namespace ViewCache.Cache

variable {K V C E : Type} [DecidableEq K]

/-- Steps the call on. A missing entry is `fresh`, the updater comes to `outcome`, and the clocks read
`clock` until it has and `later` from then on. -/
def Call.runAlone (fresh : Entry V C) (outcome : Except E V) (later : Clock) :
    Nat → Clock → Cache K V C → Call K V C E → Cache K V C × Call K V C E
  | 0, _, cache, call => (cache, call)
  | fuel + 1, clock, cache, call =>
    match call.step 0 clock cache with
    | some (cache, call) => runAlone fresh outcome later fuel clock cache call
    | none =>
      match call.supply fresh, call.resume outcome with
      | some call, _ => runAlone fresh outcome later fuel clock cache call
      | none, some call => runAlone fresh outcome later fuel later cache call
      | none, none => (cache, call)

def Call.manySteps : Nat := 32

def lookupOr (fresh : Entry V C) (cache : Cache K V C) (key : K) (context : C) (outcome : Except E V)
    (clock later : Clock) : Cache K V C × Reply V E :=
  let (cache, call) := Call.runAlone fresh outcome later Call.manySteps clock cache
    (Call.lookup cache key context)
  (cache, call.reply?.getD (Entry.ownReply outcome))

def lookup (cache : Cache K V C) (key : K) (context : C) (outcome : Except E V) (clock later : Clock) :
    Cache K V C × Reply V E :=
  lookupOr cache.newEntry cache key context outcome clock later

def entry (cache : Cache K V C) (key : K) : Cache K V C × EntryId :=
  let (store, id) := cache.store.insertIfAbsent key cache.newEntry
  ({ cache with store }, id)

end ViewCache.Cache
