import ViewCache.Command.Complaint
import ViewCache.Command.Invocation
import ViewCache.JsonForm
import ViewCache.Locator
import ViewCache.Resolver
import ViewCache.Text.Utf8

namespace ViewCache.Command

structure Surroundings where
  files : String → Probe
  readText : ByteArray → Except FileFault String
  environment : String → Option ByteArray
  /-- what the clocks show when they are read for the first time, the second time, and so on -/
  clock : Nat → Clock

def Surroundings.envText? (around : Surroundings) (name : String) : Option String :=
  (around.environment name).bind String.fromUTF8?

def baseConfig (around : Surroundings) : Option ByteArray → Except Complaint LocatorConfig
  | none => .ok {}
  | some path =>
    let shown := Text.decodeLossy path
    (LocatorConfig.ofFile shown (around.readText path)).mapError
      (Complaint.ofFailure s!"Failed to load config from {shown}")

def withFlags (options : LocateOptions) (config : LocatorConfig) : LocatorConfig :=
  { config with
    timeout := options.timeout.getD config.timeout
    reload := config.reload && !options.noReload }

/-- The file or the defaults, then the environment, then the flags. -/
def loadConfig (around : Surroundings) (options : LocateOptions) : Except Complaint LocatorConfig := do
  let base ← baseConfig around options.config
  let config ← (base.withEnvironment around.envText?).mapError fun fault =>
    Complaint.ofFailure "Invalid environment configuration" (.config fault)
  return withFlags options config

def registerAll (qualifier : Option String) : List String → Registry → Except Complaint Registry
  | [], registry => .ok registry
  | spec :: rest, registry =>
    match Text.cutOnce '=' spec.toList with
    | none => .error ⟨s!"Invalid --precompiled '{spec}': expected URI=TYPE", []⟩
    | some (uri, typeName) =>
      let uri := String.ofList uri
      match registry.register uri qualifier (String.ofList typeName) with
      | .ok registry => registerAll qualifier rest registry
      | .error fault =>
        .error (Complaint.ofFailure s!"Invalid precompiled page '{uri}'" (.invalidPath fault))

def keyOf (options : LocateOptions) (view : String) : Key :=
  if options.template then Key.ofTemplate options.controller view options.qualifier
  else Key.ofView options.controller view options.qualifier

structure Search where
  locator : Locator
  readings : Nat := 0

/-- One lookup; the clocks are read when it begins, and when the resolver has answered. -/
def Search.look (search : Search) (resolve : Key → Resolution) (clock : Nat → Clock) (key : Key) :
    Search × Resolution :=
  let (locator, page, _) := search.locator.lookup key (resolve key) (clock search.readings)
    (clock (search.readings + 1))
  (⟨locator, search.readings + 2⟩, page)

def Search.lookRepeatedly (resolve : Key → Resolution) (clock : Nat → Clock) (key : Key) :
    Nat → Search → Option Page → Except Failure (Search × Option Page)
  | 0, search, page => .ok (search, page)
  | n + 1, search, _ =>
    match search.look resolve clock key with
    | (search, .ok page) => lookRepeatedly resolve clock key n search page
    | (_, .error failure) => .error failure

def Search.lookAll (resolve : Key → Resolution) (clock : Nat → Clock) (options : LocateOptions) :
    List String → Search → Except Complaint (Search × List (String × Option Page))
  | [], search => .ok (search, [])
  | view :: rest, search => do
    let (search, page) ←
      (search.lookRepeatedly resolve clock (keyOf options view) (max 1 options.repetitions) none).mapError
        (Complaint.ofFailure s!"Failed to locate '{view}'")
    let (search, found) ← lookAll resolve clock options rest search
    return (search, (view, page) :: found)

structure Located where
  results : List (String × Option Page)
  stats : CacheStats

def locate (around : Surroundings) (options : LocateOptions) (config : LocatorConfig) :
    Except Complaint Located := do
  let registry ← registerAll options.qualifier options.precompiled {}
  let resolver : Resolver := ⟨options.roots, registry⟩
  let (search, results) ← Search.lookAll (resolver.resolve around.files) around.clock options options.views
    ⟨Locator.new config .wall, 0⟩
  return ⟨results, search.locator.stats⟩

def inspected (options : LocateOptions) : List String :=
  options.views.flatMap fun view =>
    match Resolver.target (keyOf options view) with
    | .ok (uri, qualifier) => Resolver.candidates options.roots uri qualifier
    | .error _ => []

def statsJson (stats : CacheStats) : Json :=
  .obj [("entries", .int stats.entries), ("initialized_entries", .int stats.initializedEntries),
    ("fresh_hits", .int stats.counters.fresh), ("stale_hits", .int stats.counters.stale),
    ("coalesced", .int stats.counters.coalesced), ("computations", .int stats.counters.computed),
    ("failures", .int stats.counters.failed)]

def Located.json (located : Located) : Json :=
  .obj [("results", .arr (located.results.map fun (view, page) =>
      .obj [("view", .str view), ("page", page.elim .null Page.toJson)])),
    ("stats", statsJson located.stats)]

def resultLine (view : String) : Option Page → String
  | some (.precompiled uri typeName) => s!"✓ {view} -> {uri} [{typeName}]\n"
  | some (.resource _ path _) => s!"✓ {view} -> {path}\n"
  | none => s!"✗ {view} not found\n"

def Located.report (located : Located) : String :=
  let stats := located.stats
  String.join (located.results.map fun (view, page) => resultLine view page) ++
    s!"\nCache:\n   Entries: {stats.entries}\n   Resolutions: {stats.counters.computed}\n" ++
    s!"   Hits: {stats.hits}\n" ++
    (if stats.counters.failed = 0 then "" else s!"   Failures: {stats.counters.failed}\n")

def runLocate (around : Surroundings) (options : LocateOptions) : Except Complaint String := do
  let config ← loadConfig around options
  let located ← locate around options config
  return if options.json then located.json.sorted.indented ++ "\n" else located.report

end ViewCache.Command
