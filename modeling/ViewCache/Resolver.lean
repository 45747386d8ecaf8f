import ViewCache.Key
import ViewCache.Page
import ViewCache.Path
import ViewCache.Probe
import ViewCache.Registry

/-!
Resolution by convention: precompiled pages first, then the view directories of a plugin below every
root, then the view directories of the application below every root.
-/
namespace ViewCache

structure Resolver where
  roots : List String := []
  registry : Registry := {}

namespace Resolver

def candidates (roots : List String) (uri : String) (qualifier : Option String) : List String :=
  let relative := String.ofList (uri.toList.dropWhile (· = '/'))
  let inPlugin (name : String) := roots.map fun root =>
    Path.join (Path.join (Path.join (Path.join root Convention.pluginsDir) name) Convention.viewsDir) relative
  let inViews := roots.map fun root => Path.join (Path.join root Convention.viewsDir) relative
  (qualifier.map inPlugin).getD [] ++ inViews

/-- The first regular file decides, or the first fault other than a missing file. -/
def firstFile (files : String → Probe) (uri : String) : List String → Except Failure (Option Page)
  | [] => .ok none
  | path :: rest =>
    match files path with
    | .file modified => .ok (some (.resource uri path modified))
    | .other | .fault .notFound => firstFile files uri rest
    | .fault fault => .error (.file fault)

def target (key : Key) : Except PathFault (String × Option String) :=
  match key.path with
  | none => .error .missing
  | some path => do
    let uri ← Uri.normalize path key.context
    let qualifier ← key.qualifier.mapM Uri.checkNamespace
    return (uri, qualifier)

def resolve (resolver : Resolver) (files : String → Probe) (key : Key) : Except Failure (Option Page) :=
  match target key with
  | .error fault => .error (.invalidPath fault)
  | .ok (uri, qualifier) =>
    match resolver.registry.typeOf? uri qualifier with
    | some typeName => .ok (some (.precompiled uri typeName))
    | none => firstFile files uri (candidates resolver.roots uri qualifier)

end Resolver

end ViewCache
