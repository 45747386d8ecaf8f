import ViewCache.Command

open ViewCache

namespace ViewCache.Main

def codeOf : IO.Error → Option UInt32
  | .noFileOrDirectory _ code _ | .invalidArgument _ code _ | .permissionDenied _ code _
  | .resourceExhausted _ code _ | .inappropriateType _ code _ | .noSuchThing _ code _
  | .illegalOperation code _ | .unsatisfiedConstraints code _ | .otherError code _ => some code
  | _ => none

def faultOf (e : IO.Error) : FileFault :=
  match (codeOf e).map fun code => min code (0 - code) with
  | some 2 => .notFound
  | some 20 => .notDirectory
  | some 21 => .isDirectory
  | some 36 => .nameTooLong
  | some 40 => .tooManyLinks
  | _ => .other (toString e)

def probe (path : String) : IO Probe := do
  try
    let info ← ((← IO.currentDir) / path).metadata
    if info.type == .file then
      return .file (info.modified.sec * 1000 + (info.modified.nsec.toNat / 1000000 : Nat))
    else return .other
  catch e => return .fault (faultOf e)

def readText (path : ByteArray) : IO (Except FileFault String) := do
  let some path := String.fromUTF8? path | return .error .notFound
  try
    match String.fromUTF8? (← IO.FS.readBinFile path) with
    | some text => return .ok text
    | none => return .error .notUtf8
  catch e => return .error (faultOf e)

def variableNames : List String :=
  [Convention.reloadVariable, Convention.timeoutVariable, Convention.configVariable]

/-- Inspects beforehand every path that the command may ask about. -/
def surroundings (args : List String) : IO Command.Surroundings := do
  let environment ← variableNames.filterMapM fun name => do
    return (← IO.getEnv name).map fun value => (name, value.toUTF8)
  let now : Clock := { wall := (← IO.monoMsNow) + 1 }
  let blank : Command.Surroundings := {
    files := fun _ => .fault .notFound, readText := fun _ => .error .notFound
    environment := fun name => environment.lookup name, clock := fun _ => now }
  match Command.invocation blank args with
  | .ok (.locate options) =>
    let probes ← (Command.inspected options).mapM fun path => return (path, ← probe path)
    let texts ← options.config.toList.mapM fun path => return (path, ← readText path)
    return { blank with
      files := fun path => (probes.lookup path).getD (.fault .notFound)
      readText := fun path => (texts.lookup path).getD (.error .notFound) }
  | _ => return blank

end ViewCache.Main

def main (args : List String) : IO UInt32 := do
  let outcome := Command.run (← Main.surroundings args) args
  IO.print outcome.output
  IO.eprint outcome.errors
  return outcome.code.toUInt32
