import ViewCache.Config
import ViewCache.Store.Call

namespace ViewCache

structure Counters where
  fresh : Nat := 0
  stale : Nat := 0
  coalesced : Nat := 0
  computed : Nat := 0
  failed : Nat := 0
  deriving DecidableEq, Repr

namespace Counters

def record {V E : Type} (counters : Counters) : Reply V E → Counters
  | .answered _ .fresh => { counters with fresh := counters.fresh + 1 }
  | .answered _ .stale => { counters with stale := counters.stale + 1 }
  | .answered _ .coalesced => { counters with coalesced := counters.coalesced + 1 }
  | .answered _ .computed => { counters with computed := counters.computed + 1 }
  | .failed _ => { counters with failed := counters.failed + 1 }
  | .stored | .expired | .found _ => counters

end Counters

structure CacheStats where
  entries : Nat := 0
  initializedEntries : Nat := 0
  counters : Counters := {}
  deriving DecidableEq, Repr

namespace CacheStats

def hits (stats : CacheStats) : Nat :=
  stats.counters.fresh + stats.counters.stale + stats.counters.coalesced

def lookups (stats : CacheStats) : Nat := stats.hits + stats.counters.computed + stats.counters.failed

end CacheStats

structure Cache (K V C : Type) where
  store : Store K V C := {}
  config : CacheConfig := {}
  policy : RefreshPolicy V C := .timed
  source : TimeSource := .wall
  counters : Counters := {}

namespace Cache

variable {K V C : Type} [DecidableEq K]

def newEntry (cache : Cache K V C) : Entry V C := { policy := cache.policy, source := cache.source }

def query (cache : Cache K V C) (context : C) : Query C :=
  ⟨context, cache.config.timeout, cache.config.tolerant⟩

/-- Entries made from now on get this policy. -/
def withPolicy (cache : Cache K V C) (policy : RefreshPolicy V C) : Cache K V C := { cache with policy }

def invalidate (cache : Cache K V C) (key : K) : Cache K V C × Bool :=
  ({ cache with store := cache.store.remove key }, (cache.store.find? key).isSome)

def expire (cache : Cache K V C) (key : K) : Cache K V C × Bool :=
  let (store, found) := cache.store.expire key
  ({ cache with store }, found)

def expireAll (cache : Cache K V C) : Cache K V C := { cache with store := cache.store.expireAll }

def clear (cache : Cache K V C) : Cache K V C := { cache with store := cache.store.clear, counters := {} }

def peek (cache : Cache K V C) (key : K) : Option V := cache.store.peek key

def size (cache : Cache K V C) : Nat := cache.store.size

def stats (cache : Cache K V C) : CacheStats :=
  ⟨cache.store.size, cache.store.initializedCount, cache.counters⟩

end Cache

end ViewCache
