import ViewCache.Clock
import ViewCache.Convention

/-!
A cache entry: the memory that concurrent calls share. A value is published by writing the slot, then
the flag, then the timestamp; the lock admits one refresh at a time.
-/
namespace ViewCache

inductive RefreshPolicy (V C : Type)
  | timed
  /-- as `timed`, but a value that is pinned for the caller's context never expires -/
  | pinWhen (pins : V → C → Bool)

namespace RefreshPolicy

variable {V C : Type}

def isPinned : RefreshPolicy V C → V → C → Bool
  | timed, _, _ => false
  | pinWhen pins, v, c => pins v c

def display : RefreshPolicy V C → String
  | timed => "Timed"
  | pinWhen _ => "PinWhen(..)"

end RefreshPolicy

abbrev CallId := Nat

structure Entry (V C : Type) where
  slot : Option V := none
  initialized : Bool := false
  /-- milliseconds of the last publish; zero when there was none, or it was expired by force -/
  stamp : Int := neverPublished
  /-- the call that holds the update lock -/
  holder : Option CallId := none
  policy : RefreshPolicy V C := .timed
  source : TimeSource := .wall

namespace Entry

variable {V C : Type}

/-- A publish at `stamp` is older than `timeout`. Zero counts as older than any timeout, and a
negative timeout never elapses. -/
def expiredSince (stamp timeout now : Int) : Bool :=
  stamp == neverPublished || (0 ≤ timeout && timeout < now - stamp)

def hasExpired (entry : Entry V C) (timeout now : Int) : Bool := expiredSince entry.stamp timeout now

def value? (entry : Entry V C) : Option V := if entry.initialized then entry.slot else none

def expire (entry : Entry V C) : Entry V C := { entry with stamp := neverPublished }

def stampAt (reading : Int) : Int := max 1 reading

def display (entry : Entry V C) : String :=
  let flag := if entry.initialized then "true" else "false"
  s!"CacheEntry \x7b initialized: {flag}, created_at_millis: {entry.stamp}, policy: {entry.policy.display} \x7d"

end Entry

end ViewCache
