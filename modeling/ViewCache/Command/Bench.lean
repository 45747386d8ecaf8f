import ViewCache.Command.Complaint
import ViewCache.Command.Invocation
import ViewCache.Locator

namespace ViewCache.Command

def benchLookups (threads rounds : Nat) : Except Complaint Nat :=
  if threads = 0 ∨ rounds = 0 then .error ⟨"--threads and --rounds must be positive", []⟩
  else if Text.inUnsigned64 (threads * rounds) then .ok (threads * rounds)
  else .error ⟨s!"--threads x --rounds overflows ({threads} x {rounds})", []⟩

def benchPage (key : Key) : Page :=
  let uri := key.path.getD ""
  .resource uri ("/bench/views" ++ uri) 1

structure BenchState where
  locator : Locator
  clock : Clock
  calls : Nat := 0

def BenchState.look (state : BenchState) (delay : Nat) (view : Nat) : BenchState :=
  let key := Key.ofPage s!"/bench/view{view}" none
  let later := { state.clock with wall := state.clock.wall + delay }
  let (locator, _, asked) := state.locator.lookup key (.ok (some (benchPage key))) state.clock later
  if asked then ⟨locator, later, state.calls + 1⟩ else ⟨locator, state.clock, state.calls⟩

def benchRounds (options : BenchOptions) (thread : Nat) : Nat → Nat → BenchState → BenchState
  | 0, _, state => state
  | n + 1, i, state =>
    benchRounds options thread n (i + 1) (state.look options.delay ((thread + i) % options.keys))

def benchThreads (options : BenchOptions) : Nat → Nat → BenchState → BenchState
  | 0, _, state => state
  | n + 1, thread, state =>
    benchThreads options n (thread + 1) (benchRounds options thread options.rounds 0 state)

def runBench (clock : Clock) (options : BenchOptions) : Except Complaint String := do
  if options.keys = 0 then throw ⟨"--keys must be positive", []⟩
  let lookups ← benchLookups options.threads options.rounds
  let config : LocatorConfig := ⟨true, options.timeout, options.stale⟩
  let state := benchThreads options options.threads 0 ⟨Locator.new config .wall, clock, 0⟩
  let counters := state.locator.stats.counters
  return s!"📊 Benchmarking {options.threads} threads x {options.rounds} lookups over {options.keys} views\n" ++
    s!"\n📈 Results:\n   Lookups: {lookups}\n   Resolver calls: {state.calls}\n" ++
    s!"   Fresh: {counters.fresh}  Stale: {counters.stale}  Coalesced: {counters.coalesced}\n"

end ViewCache.Command
