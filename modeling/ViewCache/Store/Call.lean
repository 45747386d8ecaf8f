import ViewCache.Entry.Call
import ViewCache.Store

/-!
Calls on a map of entries: find the key's entry, or have one made and insert it if the key is still
absent, and then use it. What the caller's factory does is not part of a call: the call waits until the
new entry is handed in.
-/
namespace ViewCache.Store

inductive Goal (C : Type)
  | entry
  | lookup (q : Query C)

inductive Call (K V C E : Type)
  | find (key : K) (goal : Goal C)
  | build (key : K) (goal : Goal C)
  | insert (key : K) (goal : Goal C) (fresh : Entry V C)
  | got (id : EntryId)
  | within (id : EntryId) (call : ViewCache.Call V C E)

variable {K V C E : Type} [DecidableEq K]

namespace Call

def arrive (id : EntryId) : Goal C → Call K V C E
  | .entry => .got id
  | .lookup q => .within id (ViewCache.Call.start (.lookup q))

def step (me : CallId) (clock : Clock) (store : Store K V C) :
    Call K V C E → Option (Store K V C × Call K V C E)
  | find key goal =>
    match store.find? key with
    | some id => some (store, arrive id goal)
    | none => some (store, build key goal)
  | build .. => none
  | insert key goal fresh =>
    let (store, id) := store.insertIfAbsent key fresh
    some (store, arrive id goal)
  | got _ => none
  | within id call => do
    let entry ← store.entry? id
    let (entry, call) ← call.step me (clock.now entry.source) entry
    return (store.set id entry, within id call)

def supply (fresh : Entry V C) : Call K V C E → Option (Call K V C E)
  | build key goal => some (insert key goal fresh)
  | _ => none

def resume (outcome : Except E V) : Call K V C E → Option (Call K V C E)
  | within id call => (call.resume outcome).map (within id)
  | _ => none

def isBuilding : Call K V C E → Bool
  | build .. => true
  | _ => false

def isUpdating : Call K V C E → Bool
  | within _ call => call.isUpdating
  | _ => false

def entryId? : Call K V C E → Option EntryId
  | got id | within id _ => some id
  | _ => none

def reply? : Call K V C E → Option (Reply V E)
  | within _ call => call.reply?
  | _ => none

def isDone : Call K V C E → Bool
  | got _ => true
  | call => call.reply?.isSome

end Call

end ViewCache.Store
