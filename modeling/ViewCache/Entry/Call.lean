import ViewCache.Entry
import ViewCache.Failure

/-!
Calls on one entry, cut into the steps that other calls may come between. A step touches at most one
cell of the entry. What a caller's updater does is not part of a call: the call waits until the updater's
outcome is handed in.
-/
namespace ViewCache

structure Query (C : Type) where
  context : C
  timeout : Int
  tolerant : Bool

/-- A zero timeout recomputes on every call, and without the lock. -/
def Query.isUnlocked {C : Type} (q : Query C) : Bool := q.timeout == Timeout.never

inductive Served
  | fresh
  | stale
  | coalesced
  | computed
  deriving DecidableEq, Repr

def Served.display : Served → String
  | fresh => "Fresh"
  | stale => "Stale"
  | coalesced => "Coalesced"
  | computed => "Computed"

inductive Reply (V E : Type)
  | answered (v : V) (how : Served)
  | failed (failure : UpdateFailure E)
  | stored
  | expired
  | found (v : Option V)
  deriving DecidableEq, Repr

/-- Whether the updater was called to come to this reply. -/
def Reply.ran {V E : Type} : Reply V E → Bool
  | answered _ .computed | failed _ => true
  | _ => false

inductive Request (V C : Type)
  | lookup (q : Query C)
  | store (v : V)
  | expire
  | read

inductive Phase (V E : Type)
  | loadStamp
  | loadFlag (snapshot : Int)
  | readSlot (snapshot : Int)
  | checkAge (snapshot : Int) (v : V)
  | tryLock (snapshot : Int)
  | staleFlag (snapshot : Int)
  | staleSlot (snapshot : Int)
  | lock (snapshot : Int)
  | recheckFlag (snapshot : Int)
  | recheckStamp (snapshot : Int)
  | coalesceFlag
  | coalesceSlot
  | callUpdater
  | updating
  | tryPublish (v : V)
  | lockStore
  | writeSlot (v : V)
  | writeFlag (v : V)
  | readClock (v : V)
  | writeStamp (v : V) (stamp : Int)
  | unlock (reply : Reply V E)
  | clearStamp
  | valueFlag
  | valueSlot
  | done (reply : Reply V E)

structure Call (V C E : Type) where
  request : Request V C
  phase : Phase V E

namespace Call

variable {V C E : Type}

def start : Request V C → Call V C E
  | .lookup q => ⟨.lookup q, if q.isUnlocked then .callUpdater else .loadStamp⟩
  | .store v => ⟨.store v, .lockStore⟩
  | .expire => ⟨.expire, .clearStamp⟩
  | .read => ⟨.read, .valueFlag⟩

def reply? (call : Call V C E) : Option (Reply V E) :=
  match call.phase with
  | .done reply => some reply
  | _ => none

def isUpdating (call : Call V C E) : Bool :=
  match call.phase with
  | .updating => true
  | _ => false

def contend (q : Query C) (snapshot : Int) : Phase V E :=
  if q.tolerant then .tryLock snapshot else .lock snapshot

def take (entry : Entry V C) (me : CallId) : Entry V C := { entry with holder := some me }

def published (request : Request V C) (v : V) : Reply V E :=
  match request with
  | .lookup _ => .answered v .computed
  | _ => .stored

def advance (me : CallId) (now : Int) (request : Request V C) (entry : Entry V C) :
    Phase V E → Option (Entry V C × Phase V E)
  | .loadStamp => some (entry, .loadFlag entry.stamp)
  | .loadFlag snapshot =>
    match request with
    | .lookup q => some (entry, if entry.initialized then .readSlot snapshot else contend q snapshot)
    | _ => none
  | .readSlot snapshot =>
    match request, entry.slot with
    | .lookup q, none => some (entry, contend q snapshot)
    | .lookup q, some v =>
      if entry.policy.isPinned v q.context then some (entry, .done (.answered v .fresh))
      else if snapshot = neverPublished then some (entry, contend q snapshot)
      else if q.timeout < 0 then some (entry, .done (.answered v .fresh))
      else some (entry, .checkAge snapshot v)
    | _, _ => none
  | .checkAge snapshot v =>
    match request with
    | .lookup q =>
      some (entry, if q.timeout < now - snapshot then contend q snapshot else .done (.answered v .fresh))
    | _ => none
  | .tryLock snapshot =>
    match entry.holder with
    | none => some (take entry me, .recheckFlag snapshot)
    | some _ => some (entry, .staleFlag snapshot)
  | .staleFlag snapshot =>
    some (entry, if entry.initialized then .staleSlot snapshot else .lock snapshot)
  | .staleSlot snapshot =>
    match entry.slot with
    | some v => some (entry, .done (.answered v .stale))
    | none => some (entry, .lock snapshot)
  | .lock snapshot =>
    match entry.holder with
    | none => some (take entry me, .recheckFlag snapshot)
    | some _ => none
  | .recheckFlag snapshot =>
    some (entry, if entry.initialized then .recheckStamp snapshot else .callUpdater)
  | .recheckStamp snapshot =>
    some (entry, if snapshot = entry.stamp ∨ entry.stamp = neverPublished then .callUpdater
      else .coalesceFlag)
  | .coalesceFlag => some (entry, if entry.initialized then .coalesceSlot else .callUpdater)
  | .coalesceSlot =>
    match entry.slot with
    | some v => some (entry, .unlock (.answered v .coalesced))
    | none => some (entry, .callUpdater)
  | .callUpdater => some (entry, .updating)
  | .updating => none
  | .tryPublish v =>
    match entry.holder with
    | none => some (take entry me, .writeSlot v)
    | some _ => some (entry, .done (.answered v .computed))
  | .lockStore =>
    match request, entry.holder with
    | .store v, none => some (take entry me, .writeSlot v)
    | _, _ => none
  | .writeSlot v => some ({ entry with slot := some v }, .writeFlag v)
  | .writeFlag v => some ({ entry with initialized := true }, .readClock v)
  | .readClock v => some (entry, .writeStamp v (Entry.stampAt now))
  | .writeStamp v stamp => some ({ entry with stamp }, .unlock (published request v))
  | .unlock reply => some ({ entry with holder := none }, .done reply)
  | .clearStamp => some (entry.expire, .done .expired)
  | .valueFlag => some (entry, if entry.initialized then .valueSlot else .done (.found none))
  | .valueSlot => some (entry, .done (.found entry.slot))
  | .done _ => none

/-- One step of the call `me`, which reads `now` if it looks at the clock. There is none while the call
waits for the lock or for its updater, and after its reply. -/
def step (me : CallId) (now : Int) (entry : Entry V C) (call : Call V C E) :
    Option (Entry V C × Call V C E) :=
  (advance me now call.request entry call.phase).map fun (entry, phase) => (entry, { call with phase })

def resumed (q : Query C) : Except E V → Phase V E
  | .ok v => if q.isUnlocked then .tryPublish v else .writeSlot v
  | .error cause =>
    if q.isUnlocked then .done (.failed ⟨cause⟩) else .unlock (.failed ⟨cause⟩)

def resume (outcome : Except E V) (call : Call V C E) : Option (Call V C E) :=
  match call.request, call.phase with
  | .lookup q, .updating => some ⟨.lookup q, resumed q outcome⟩
  | _, _ => none

end Call

end ViewCache
