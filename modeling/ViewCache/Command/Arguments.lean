/-!
The grammar of command-line arguments: long and short options, clusters of short ones, values attached
or following, and two dashes before arguments that are taken as they are.
-/
namespace ViewCache.Command

inductive Refusal
  | usage
  | help
  | version
  deriving DecidableEq, Repr

inductive Arity
  | flag
  | asks (refusal : Refusal)
  | single
  | repeated
  deriving DecidableEq, Repr

structure OptionSpec where
  long : String
  short : Option Char := none
  arity : Arity
  accepts : String → Bool := fun _ => true

structure Matches where
  flags : List String := []
  values : List (String × String) := []
  positionals : List String := []
  deriving Repr

namespace Matches

def hasFlag (found : Matches) (long : String) : Bool := found.flags.contains long

def all (found : Matches) (long : String) : List String :=
  (found.values.filter (·.1 == long)).map Prod.snd

def first? (found : Matches) (long : String) : Option String := found.values.lookup long

def addFlag (found : Matches) (spec : OptionSpec) : Except Refusal Matches :=
  if found.hasFlag spec.long then .error .usage
  else .ok { found with flags := found.flags ++ [spec.long] }

def addBare (found : Matches) (spec : OptionSpec) : Except Refusal (Matches × Option OptionSpec) :=
  match spec.arity with
  | .flag => (found.addFlag spec).map (·, none)
  | .asks refusal => .error refusal
  | .single | .repeated => .ok (found, some spec)

def addValue (found : Matches) (spec : OptionSpec) (value : String) : Except Refusal Matches :=
  if spec.arity = .single ∧ (found.first? spec.long).isSome then .error .usage
  else if !spec.accepts value then .error .usage
  else .ok { found with values := found.values ++ [(spec.long, value)] }

end Matches

def OptionSpec.takesValue (spec : OptionSpec) : Bool := spec.arity = .single || spec.arity = .repeated

/-- A value may not look like an option; a single dash does not. -/
def isValue (arg : String) : Bool := !(arg.startsWith "-") || arg == "-"

def splitLong (body : List Char) : String × Option String :=
  let name := body.takeWhile (· ≠ '=')
  match body.drop name.length with
  | [] => (String.ofList name, none)
  | _ :: value => (String.ofList name, some (String.ofList value))

inductive Token
  | endOfOptions
  | long (name : String) (value : Option String)
  | cluster (letters : List Char)
  | plain (text : String)

def Token.of (arg : String) : Token :=
  match arg.toList with
  | ['-', '-'] => .endOfOptions
  | '-' :: '-' :: body => let (name, value) := splitLong body; .long name value
  | ['-'] => .plain arg
  | '-' :: letters => .cluster letters
  | _ => .plain arg

def readCluster (specs : List OptionSpec) : List Char → Matches → Except Refusal (Matches × Option OptionSpec)
  | [], found => .ok (found, none)
  | c :: letters, found =>
    match specs.find? (·.short == some c) with
    | none => .error .usage
    | some spec =>
      if !spec.takesValue then do
        let (found, _) ← found.addBare spec
        readCluster specs letters found
      else
        match letters with
        | [] => .ok (found, some spec)
        | '=' :: value => (found.addValue spec (String.ofList value)).map (·, none)
        | value => (found.addValue spec (String.ofList value)).map (·, none)

def readLong (specs : List OptionSpec) (name : String) (value : Option String) (found : Matches) :
    Except Refusal (Matches × Option OptionSpec) :=
  match specs.find? (·.long == name), value with
  | none, _ => .error .usage
  | some spec, some value =>
    if spec.takesValue then (found.addValue spec value).map (·, none) else .error .usage
  | some spec, none => found.addBare spec

/-- Reads arguments; `pending` is an option that wants the next one as its value. Arguments that are
not options are refused unless the command takes them. -/
def readArguments (specs : List OptionSpec) (takesPlain : Bool) :
    List String → Option OptionSpec → Matches → Except Refusal Matches
  | [], none, found => .ok found
  | [], some _, _ => .error .usage
  | arg :: rest, some spec, found =>
    if isValue arg then do readArguments specs takesPlain rest none (← found.addValue spec arg)
    else .error .usage
  | arg :: rest, none, found =>
    match Token.of arg with
    | .endOfOptions =>
      if takesPlain || rest.isEmpty then .ok { found with positionals := found.positionals ++ rest }
      else .error .usage
    | .plain text =>
      if takesPlain then
        readArguments specs takesPlain rest none { found with positionals := found.positionals ++ [text] }
      else .error .usage
    | .long name value => do
      let (found, pending) ← readLong specs name value found
      readArguments specs takesPlain rest pending found
    | .cluster letters => do
      let (found, pending) ← readCluster specs letters found
      readArguments specs takesPlain rest pending found

end ViewCache.Command
