import ViewCache.Entry

/-!
A map from keys to shared entries. An entry outlives its removal from the map: whoever holds it may go
on using it.
-/
namespace ViewCache

abbrev EntryId := Nat

structure Store (K V C : Type) where
  entries : Array (Entry V C) := #[]
  index : List (K × EntryId) := []

namespace Store

variable {K V C : Type} [DecidableEq K]

def find? (store : Store K V C) (key : K) : Option EntryId := store.index.lookup key

def entry? (store : Store K V C) (id : EntryId) : Option (Entry V C) := store.entries[id]?

def size (store : Store K V C) : Nat := store.index.length

def modify (store : Store K V C) (id : EntryId) (f : Entry V C → Entry V C) : Store K V C :=
  { store with entries := store.entries.modify id f }

def set (store : Store K V C) (id : EntryId) (entry : Entry V C) : Store K V C :=
  store.modify id fun _ => entry

/-- Gives the entry that `key` holds, which is `fresh` if it held none. -/
def insertIfAbsent (store : Store K V C) (key : K) (fresh : Entry V C) : Store K V C × EntryId :=
  match store.find? key with
  | some id => (store, id)
  | none =>
    (⟨store.entries.push fresh, (key, store.entries.size) :: store.index⟩, store.entries.size)

def remove (store : Store K V C) (key : K) : Store K V C :=
  { store with index := store.index.filter (·.1 != key) }

def clear (store : Store K V C) : Store K V C := { store with index := [] }

def expire (store : Store K V C) (key : K) : Store K V C × Bool :=
  match store.find? key with
  | some id => (store.modify id Entry.expire, true)
  | none => (store, false)

def expireAll (store : Store K V C) : Store K V C :=
  store.index.foldl (fun store (_, id) => store.modify id Entry.expire) store

def peek (store : Store K V C) (key : K) : Option V :=
  (store.find? key).bind fun id => (store.entry? id).bind Entry.value?

def initializedCount (store : Store K V C) : Nat :=
  store.index.countP fun (_, id) => (store.entry? id).any (·.initialized)

end Store

end ViewCache
