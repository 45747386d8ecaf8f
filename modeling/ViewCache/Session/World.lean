import ViewCache.Session.Step

namespace ViewCache.Session

structure World where
  clock : Clock := {}
  cache : Cache String Value Context := {}
  map : Store String Value Context := {}
  handles : List (String × EntryId) := []

namespace World

def held? (world : World) (handle : String) : Option (EntryId × Entry Value Context) := do
  let id ← world.handles.lookup handle
  let entry ← world.cache.store.entry? id
  return (id, entry)

def viewOf? (world : World) (id : EntryId) : Option EntryView :=
  (world.cache.store.entry? id).map EntryView.of

def view? (world : World) (handle : String) : Option EntryView :=
  (world.handles.lookup handle).bind world.viewOf?

def ofEntry (clock : Clock) (entry : Entry Value Context) (handle : String) : World :=
  { clock, cache := { store := { entries := #[entry] } }, handles := [(handle, 0)] }

def answerQuestion (clock : Clock) (entry : Entry Value Context) : Question → Answer
  | .hasExpired timeout => .flag (entry.hasExpired timeout (clock.now entry.source))
  | .initialized => .flag entry.initialized
  | .isPinned v context => .flag (entry.policy.isPinned v context)
  | .display => .text entry.display
  | .policy => .text entry.policy.display

def tend (world : World) : CacheAction → World × Answer
  | .peek key => (world, .published (world.cache.peek key))
  | .invalidate key =>
    let (cache, removed) := world.cache.invalidate key
    ({ world with cache }, .flag removed)
  | .expire key =>
    let (cache, found) := world.cache.expire key
    ({ world with cache }, .flag found)
  | .expireAll => ({ world with cache := world.cache.expireAll }, .ok)
  | .clear => ({ world with cache := world.cache.clear }, .ok)
  | .size => (world, .count world.cache.size)
  | .isEmpty => (world, .flag (world.cache.size == 0))
  | .config => (world, .settings world.cache.config)
  | .withPolicy rule => ({ world with cache := world.cache.withPolicy (policyOf rule) }, .ok)

def tendMap (world : World) : MapAction → World × Answer
  | .peek key => (world, .published (world.map.peek key))
  | .expire key =>
    let (map, found) := world.map.expire key
    ({ world with map }, .flag found)
  | .remove key =>
    ({ world with map := world.map.remove key }, .flag (world.map.find? key).isSome)

end World

inductive Pending
  | onCache (call : Cache.Call String Value Context String)
  | onMap (call : Store.Call String Value Context String)

structure InFlight where
  spec : CallSpec
  pending : Pending
  making : List Step
  during : List (Schedule.Started Step)
  built : Bool := false
  /-- the entry that is told with the answer; its handle may be given away meanwhile -/
  shownOn : Option EntryId := none

namespace InFlight

def begin? (world : World) : Target → Option Pending
  | .held handle request =>
    (world.handles.lookup handle).map fun id => .onCache (Cache.Call.onHeld id request)
  | .cacheLookup key context => some (.onCache (Cache.Call.lookup world.cache key context))
  | .cacheEntry key => some (.onCache (Cache.Call.entry key))
  | .mapLookup key q => some (.onMap (.find key (.lookup q)))
  | .mapEntry key => some (.onMap (.find key .entry))

def progress (flight : InFlight) : Schedule.Progress :=
  match flight.pending with
  | .onCache call =>
    if call.isDone then .finished
    else if call.isBuilding || call.isUpdating then .callingOut
    else .going
  | .onMap call =>
    if call.isDone then .finished
    else if call.isBuilding || call.isUpdating then .callingOut
    else .going

def step (me : CallId) (flight : InFlight) (world : World) : Option (World × InFlight) :=
  match flight.pending with
  | .onCache call =>
    (call.step me world.clock world.cache).map fun (cache, call) =>
      ({ world with cache }, { flight with pending := .onCache call })
  | .onMap call =>
    (call.step me world.clock world.map).map fun (map, call) =>
      ({ world with map }, { flight with pending := .onMap call })

/-- The entry a factory makes. A bare map makes entries on the machine's clock; its own factories use
the clock that is moved by hand. -/
def made (world : World) (pending : Pending) : Maker → Entry Value Context
  | .standard =>
    match pending with
    | .onCache _ => world.cache.newEntry
    | .onMap _ => {}
  | .own rule =>
    match pending with
    | .onCache _ => { policy := policyOf rule, source := world.cache.source }
    | .onMap _ => { policy := policyOf rule, source := .manual }

def callOut (flight : InFlight) (world : World) :
    World × List (Schedule.Started Step) × InFlight :=
  let fresh := made world flight.pending flight.spec.maker
  let supplied := match flight.pending with
    | .onCache call => (call.supply fresh).map Pending.onCache
    | .onMap call => (call.supply fresh).map Pending.onMap
  let resumed := match flight.pending with
    | .onCache call => (call.resume flight.spec.outcome).map Pending.onCache
    | .onMap call => (call.resume flight.spec.outcome).map Pending.onMap
  match supplied, resumed with
  | some pending, _ =>
    (world, flight.making.map ({ step := · }), { flight with pending, built := true })
  | none, some pending => (world, flight.during, { flight with pending })
  | none, none => (world, [], flight)

def entry? (flight : InFlight) (world : World) : Option (EntryId × Entry Value Context) :=
  match flight.pending with
  | .onCache call => do
    let id ← call.entryId?
    return (id, ← world.cache.store.entry? id)
  | .onMap call => do
    let id ← call.entryId?
    return (id, ← world.map.entry? id)

def reply? (flight : InFlight) : Option (Reply Value String) :=
  match flight.pending with
  | .onCache call => call.reply?
  | .onMap call => call.reply?

def ofReply (flight : InFlight) (how built factory : Bool) (answers : List (List Answer)) :
    Reply Value String → Answer
  | .stored | .expired => .ok
  | .found v => .published v
  | reply =>
    let (making, during) := if flight.built then (answers.head?.getD [], answers[1]?.getD [])
      else ([], answers.head?.getD [])
    let (outcome, served) : Except (UpdateFailure String) Value × Option Served := match reply with
      | .answered v served => (.ok v, some served)
      | .failed failure => (.error failure, none)
      | _ => (.ok none, none)
    .looked outcome reply.ran (if how then served else none)
      (if built then some flight.built else none) (if factory then making else []) during

def conclude (flight : InFlight) (answers : List (List Answer)) (world : World) : World × Answer :=
  let (world, answer) : World × Answer :=
    match flight.spec.report, flight.entry? world with
    | _, none => (world, .unknownHandle)
    | .state, some (_, entry) => (world, .state (.of entry))
    | .hold handle, some (id, _) => ({ world with handles := (handle, id) :: world.handles }, .ok)
    | .same handle, some (id, _) => (world, .flag (world.handles.lookup handle == some id))
    | .entryFound, some (_, entry) => (world, .entryFound flight.built (.of entry))
    | .reply how built factory, some _ =>
      match flight.reply? with
      | some reply => (world, flight.ofReply how built factory answers reply)
      | none => (world, .unknownHandle)
  match flight.shownOn.bind world.viewOf? with
  | some view => (world, .shown answer view)
  | none => (world, answer)

end InFlight

def enter : Step → World → (World × Answer) ⊕ InFlight
  | .clock move, world =>
    let clock := world.clock.move move
    .inl ({ world with clock }, .reading clock.manual)
  | .ask handle question, world =>
    match world.held? handle with
    | some (_, entry) => .inl (world, World.answerQuestion world.clock entry question)
    | none => .inl (world, .unknownHandle)
  | .tend action, world => .inl (world.tend action)
  | .tendMap action, world => .inl (world.tendMap action)
  | .call spec making during, world =>
    match InFlight.begin? world spec.target with
    | some pending => .inr { spec, pending, making, during }
    | none => .inl (world, .unknownHandle)
  | .shown handle step, world =>
    let shownOn := world.handles.lookup handle
    match enter step world with
    | .inl (world, answer) =>
      match shownOn.bind world.viewOf? with
      | some view => .inl (world, .shown answer view)
      | none => .inl (world, answer)
    | .inr flight => .inr { flight with shownOn }

def script : Schedule.Script World Step InFlight Answer where
  enter := enter
  progress := InFlight.progress
  step := InFlight.step
  callOut := InFlight.callOut
  gathers := true
  answer := InFlight.conclude

/-- Runs a step with everything it starts; there is no answer if the threads wait for each other. -/
def World.run? (world : World) (step : Step) : Option (World × Answer) :=
  (script.run? step.weight world step).map fun (world, answer, _) => (world, answer)

end ViewCache.Session
