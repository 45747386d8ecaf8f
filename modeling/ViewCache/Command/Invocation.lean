import ViewCache.Command.Arguments
import ViewCache.Text.Integer

namespace ViewCache.Command

structure LocateOptions where
  views : List String
  roots : List String
  qualifier : Option String := none
  controller : Option String := none
  template : Bool := false
  precompiled : List String := []
  config : Option ByteArray := none
  timeout : Option Int := none
  noReload : Bool := false
  repetitions : Nat := 1
  json : Bool := false

structure BenchOptions where
  threads : Nat := 8
  rounds : Nat := 200
  keys : Nat := 16
  delay : Nat := 20
  timeout : Int := 50
  stale : Bool := false
  deriving DecidableEq

inductive Invocation
  | locate (options : LocateOptions)
  | bench (options : BenchOptions)

def isNonEmpty (text : String) : Bool := text ≠ ""

def isSigned (text : String) : Bool := (Text.signed? text.toList).isSome

def isUnsigned (text : String) : Bool := (Text.unsigned? text.toList).isSome

def commonOptions : List OptionSpec :=
  [{ long := "verbose", short := some 'v', arity := .flag },
    { long := "help", short := some 'h', arity := .asks .help }]

def globalOptions : List OptionSpec :=
  commonOptions ++ [{ long := "version", short := some 'V', arity := .asks .version }]

def locateOptions : List OptionSpec :=
  commonOptions ++ [
    { long := "root", short := some 'r', arity := .repeated, accepts := isNonEmpty },
    { long := "namespace", short := some 'n', arity := .single },
    { long := "controller", short := some 'c', arity := .single },
    { long := "template", short := some 't', arity := .flag },
    { long := "precompiled", arity := .repeated },
    { long := "config", arity := .single, accepts := isNonEmpty },
    { long := "timeout-ms", arity := .single, accepts := isSigned },
    { long := "no-reload", arity := .flag },
    { long := "repeat", arity := .single, accepts := isUnsigned },
    { long := "json", arity := .flag }]

def benchOptions : List OptionSpec :=
  commonOptions ++ [
    { long := "threads", short := some 't', arity := .single, accepts := isUnsigned },
    { long := "rounds", short := some 'r', arity := .single, accepts := isUnsigned },
    { long := "keys", short := some 'k', arity := .single, accepts := isUnsigned },
    { long := "delay-ms", short := some 'd', arity := .single, accepts := isUnsigned },
    { long := "timeout-ms", arity := .single, accepts := isSigned },
    { long := "stale", arity := .flag }]

def signed? (found : Matches) (long : String) : Option Int :=
  (found.first? long).bind fun text => Text.signed? text.toList

def unsigned? (found : Matches) (long : String) : Option Nat :=
  (found.first? long).bind fun text => Text.unsigned? text.toList

/-- `configVariable` is the value of the environment variable that stands in for `--config`. -/
def readLocate (configVariable : Option ByteArray) (args : List String) : Except Refusal LocateOptions := do
  let found ← readArguments locateOptions true args none {}
  let roots := found.all "root"
  let config := ((found.first? "config").map String.toUTF8).or configVariable
  if found.positionals = [] ∨ roots = [] ∨ config.any ByteArray.isEmpty then throw .usage
  return {
    views := found.positionals, roots, qualifier := found.first? "namespace",
    controller := found.first? "controller", template := found.hasFlag "template",
    precompiled := found.all "precompiled", config, timeout := signed? found "timeout-ms",
    noReload := found.hasFlag "no-reload", repetitions := (unsigned? found "repeat").getD 1,
    json := found.hasFlag "json" }

def readBench (args : List String) : Except Refusal BenchOptions := do
  let found ← readArguments benchOptions false args none {}
  let base : BenchOptions := {}
  return {
    threads := (unsigned? found "threads").getD base.threads
    rounds := (unsigned? found "rounds").getD base.rounds
    keys := (unsigned? found "keys").getD base.keys
    delay := (unsigned? found "delay-ms").getD base.delay
    timeout := (signed? found "timeout-ms").getD base.timeout
    stale := found.hasFlag "stale" }

def readHelp : List String → Refusal
  | [] | ["locate"] | ["bench"] | ["help"] => .help
  | _ => .usage

def readCommand (configVariable : Option ByteArray) : List String → Matches → Except Refusal Invocation
  | [], _ => .error .usage
  | arg :: rest, found =>
    match Token.of arg with
    | .plain "locate" => (readLocate configVariable rest).map .locate
    | .plain "bench" => (readBench rest).map .bench
    | .plain "help" => .error (readHelp rest)
    | .plain _ | .endOfOptions => .error .usage
    | .long name value => do
      let (found, _) ← readLong globalOptions name value found
      readCommand configVariable rest found
    | .cluster letters => do
      let (found, _) ← readCluster globalOptions letters found
      readCommand configVariable rest found

end ViewCache.Command
