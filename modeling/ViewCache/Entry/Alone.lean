import ViewCache.Entry.Call

namespace ViewCache

variable {V C E : Type}

namespace Call

def runAlone (outcome : Except E V) (later : Int) : Nat → Int → Entry V C → Call V C E → Entry V C × Call V C E
  | 0, _, entry, call => (entry, call)
  | fuel + 1, now, entry, call =>
    match call.step 0 now entry with
    | some (entry, call) => runAlone outcome later fuel now entry call
    | none =>
      match call.resume outcome with
      | some call => runAlone outcome later fuel later entry call
      | none => (entry, call)

def manySteps : Nat := 24

end Call

namespace Entry

/-- The reply is missing if a call that is not running holds the lock. -/
def perform (entry : Entry V C) (request : Request V C) (outcome : Except E V) (now later : Int) :
    Entry V C × Option (Reply V E) :=
  let (entry, call) := Call.runAlone outcome later Call.manySteps now entry (Call.start request)
  (entry, call.reply?)

def ownReply : Except E V → Reply V E
  | .ok v => .answered v .computed
  | .error cause => .failed ⟨cause⟩

def lookup (entry : Entry V C) (q : Query C) (outcome : Except E V) (now later : Int) :
    Entry V C × Reply V E :=
  let (entry, reply) := entry.perform (.lookup q) outcome now later
  (entry, reply.getD (ownReply outcome))

end Entry

end ViewCache
