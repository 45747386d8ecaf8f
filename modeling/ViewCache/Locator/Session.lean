import ViewCache.FileTree
import ViewCache.Locator
import ViewCache.Resolver
import ViewCache.Schedule.Script

/-!
Scripted sessions on a view locator and its resolver. The resolver is the one by convention, over a file
tree, or it answers from a script and may run further steps while it does.
-/
namespace ViewCache.Locator.Session

inductive Scripted
  | missing
  | precompiled (typeName : String)
  | resource (path : String) (modified : Int)
  | fail (failure : Failure)

def Scripted.resolution (key : Key) : Scripted → Resolution
  | .missing => .ok none
  | .precompiled typeName => .ok (some (.precompiled (key.path.getD "") typeName))
  | .resource path modified => .ok (some (.resource (key.path.getD "") path modified))
  | .fail failure => .error failure

inductive Step
  | clock (move : Clock.Move)
  | change (change : FileTree.Change)
  | register (path : String) (qualifier : Option String) (typeName : String)
  | unregister (path : String) (qualifier : Option String)
  | count
  | roots
  | candidates (uri : String) (qualifier : Option String)
  | resolve (key : Key)
  | lookup (key : Key)
  | direct (key : Key)
  | invalidate (key : Key)
  | clear
  | config
  | script (answers : List (String × List (Scripted × List (Schedule.Started Step))))

/-- Answers by the path of a key, each with the steps run before it is given; an answer is used up when
it is given, but the last one stays. -/
abbrev Answers := List (String × List (Scripted × List (Schedule.Started Step)))

inductive Answer
  | ok
  | reading (millis : Int)
  | flag (b : Bool)
  | count (n : Nat)
  | paths (paths : List String)
  | settings (config : LocatorConfig)
  | page (resolution : Resolution)
  | registered (count : Except Failure Nat)
  | unregistered (found : Except Failure Bool)

structure World where
  clock : Clock := {}
  files : FileTree := {}
  resolver : Resolver := {}
  locator : Locator := Locator.new {} .manual
  script : Option Answers := none
  asked : List Key := []

namespace World

def anyPath : String := "*"

def takeAnswer (answers : Answers) (path : String) :
    Answers × Scripted × List (Schedule.Started Step) :=
  let name := if (answers.lookup path).isSome then path else anyPath
  match answers.lookup name with
  | none | some [] => (answers, .missing, [])
  | some [(answer, during)] => (answers, answer, during)
  | some ((answer, during) :: rest) =>
    (answers.map fun (n, old) => if n = name then (n, rest) else (n, old), answer, during)

def ask (world : World) (key : Key) : World × List (Schedule.Started Step) × Resolution :=
  match world.script with
  | none => (world, [], world.resolver.resolve world.files.probe key)
  | some answers =>
    let (answers, answer, during) := takeAnswer answers (key.path.getD "")
    ({ world with script := some answers, asked := world.asked ++ [key] }, during,
      Scripted.resolution key answer)

end World

inductive Flight
  | lookup (key : Key) (call : Cache.Call Key (Option Page) Unit Failure)
  | direct (key : Key)
  | told (resolution : Resolution)

namespace Flight

def progress : Flight → Schedule.Progress
  | lookup _ call =>
    if call.isDone then .finished else if call.isUpdating then .callingOut else .going
  | direct _ => .callingOut
  | told _ => .finished

def step (me : CallId) (flight : Flight) (world : World) : Option (World × Flight) :=
  match flight with
  | lookup key call =>
    let cache := world.locator.cache
    if call.isBuilding then
      (call.supply cache.newEntry).map fun call => (world, lookup key call)
    else
      (call.step me world.clock cache).map fun (cache, call) =>
        ({ world with locator := { world.locator with cache } }, lookup key call)
  | direct _ | told _ => none

def callOut (flight : Flight) (world : World) : World × List (Schedule.Started Step) × Flight :=
  match flight with
  | lookup key call =>
    let (world, during, resolution) := world.ask key
    (world, during, lookup key ((call.resume resolution).getD call))
  | direct key =>
    let (world, during, resolution) := world.ask key
    (world, during, told resolution)
  | told resolution => (world, [], told resolution)

def conclude (flight : Flight) (world : World) : World × Answer :=
  (world, match flight with
    | lookup _ call => .page ((call.reply?.map resolutionOf).getD (.ok none))
    | direct _ => .page (.ok none)
    | told resolution => .page resolution)

end Flight

def enter (step : Step) (world : World) : (World × Answer) ⊕ Flight :=
  match step with
  | .clock move =>
    let clock := world.clock.move move
    .inl ({ world with clock }, .reading clock.manual)
  | .change change => .inl ({ world with files := world.files.apply change }, .ok)
  | .register path qualifier typeName =>
    match world.resolver.registry.register path qualifier typeName with
    | .ok registry =>
      .inl ({ world with resolver := { world.resolver with registry } }, .registered (.ok registry.size))
    | .error fault => .inl (world, .registered (.error (.invalidPath fault)))
  | .unregister path qualifier =>
    match world.resolver.registry.unregister path qualifier with
    | .ok (registry, found) =>
      .inl ({ world with resolver := { world.resolver with registry } }, .unregistered (.ok found))
    | .error fault => .inl (world, .unregistered (.error (.invalidPath fault)))
  | .count => .inl (world, .count world.resolver.registry.size)
  | .roots => .inl (world, .paths world.resolver.roots)
  | .candidates uri qualifier =>
    .inl (world, .paths (Resolver.candidates world.resolver.roots uri qualifier))
  | .resolve key => .inl (world, .page (world.resolver.resolve world.files.probe key))
  | .lookup key => .inr (.lookup key (Cache.Call.lookup world.locator.cache key ()))
  | .direct key => .inr (.direct key)
  | .invalidate key =>
    let (locator, removed) := world.locator.invalidate key
    .inl ({ world with locator }, .flag removed)
  | .clear => .inl ({ world with locator := world.locator.clear }, .ok)
  | .config => .inl (world, .settings world.locator.config)
  | .script answers => .inl ({ world with script := world.script.map fun _ => answers }, .ok)

def program : Schedule.Script World Step Flight Answer where
  enter := enter
  progress := Flight.progress
  step := Flight.step
  callOut := Flight.callOut
  gathers := false
  answer flight _ world := flight.conclude world

def maxMoves : Nat := 1000000

/-- Runs a step and everything it starts: its answer, those of the steps that scripted answers started,
and the keys that the scripted resolver was asked for meanwhile. -/
def World.run? (world : World) (step : Step) : Option (World × Answer × List Answer × List Key) :=
  (program.run? maxMoves { world with asked := [] } step).map fun (world, answer, during) =>
    (world, answer, during, world.asked)

end ViewCache.Locator.Session
