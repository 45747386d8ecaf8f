import ViewCache.Config
import ViewCache.Json.Printer
import ViewCache.Json.Record
import ViewCache.Key
import ViewCache.Page

namespace ViewCache

open Json

namespace Key

def toJson (key : Key) : Json :=
  .obj [("path", .ofOption key.path), ("namespace", .ofOption key.qualifier),
    ("context", .ofOption key.context)]

structure Draft where
  path : Option (Option String) := none
  qualifier : Option (Option String) := none
  context : Option (Option String) := none

def shape : Shape Draft where
  empty := {}
  mayStop := false
  fields := [
    ⟨"path", (·.path.isSome), fun d text =>
      (readOptional readString text).map fun (v, rest) => ({ d with path := some v }, rest)⟩,
    ⟨"namespace", (·.qualifier.isSome), fun d text =>
      (readOptional readString text).map fun (v, rest) => ({ d with qualifier := some v }, rest)⟩,
    ⟨"context", (·.context.isSome), fun d text =>
      (readOptional readString text).map fun (v, rest) => ({ d with context := some v }, rest)⟩]

def Draft.finish (d : Draft) : Key := ⟨d.path.join, d.qualifier.join, d.context.join⟩

def ofText (text : String) : Except Fault Key := (document shape.read text).map Draft.finish

end Key

namespace CacheConfig

def toJson (config : CacheConfig) : Json :=
  .obj [("timeout_millis", .int config.timeout), ("tolerate_stale", .bool config.tolerant)]

structure Draft where
  timeout : Option Int := none
  tolerant : Option Bool := none

def shape : Shape Draft where
  empty := {}
  mayStop := true
  fields := [
    ⟨"timeout_millis", (·.timeout.isSome), fun d text =>
      (readInteger text).map fun (v, rest) => ({ d with timeout := some v }, rest)⟩,
    ⟨"tolerate_stale", (·.tolerant.isSome), fun d text =>
      (readBool text).map fun (v, rest) => ({ d with tolerant := some v }, rest)⟩]

def Draft.finish (d : Draft) : CacheConfig :=
  let base : CacheConfig := {}
  ⟨d.timeout.getD base.timeout, d.tolerant.getD base.tolerant⟩

def ofText (text : String) : Except Fault CacheConfig := (document shape.read text).map Draft.finish

end CacheConfig

namespace LocatorConfig

def toJson (config : LocatorConfig) : Json :=
  .obj [("reload_enabled", .bool config.reload), ("cache_timeout_millis", .int config.timeout),
    ("tolerate_stale", .bool config.tolerant)]

structure Draft where
  reload : Option Bool := none
  timeout : Option Int := none
  tolerant : Option Bool := none

def shape : Shape Draft where
  empty := {}
  mayStop := true
  fields := [
    ⟨"reload_enabled", (·.reload.isSome), fun d text =>
      (readBool text).map fun (v, rest) => ({ d with reload := some v }, rest)⟩,
    ⟨"cache_timeout_millis", (·.timeout.isSome), fun d text =>
      (readInteger text).map fun (v, rest) => ({ d with timeout := some v }, rest)⟩,
    ⟨"tolerate_stale", (·.tolerant.isSome), fun d text =>
      (readBool text).map fun (v, rest) => ({ d with tolerant := some v }, rest)⟩]

def Draft.finish (d : Draft) : LocatorConfig :=
  let base : LocatorConfig := {}
  ⟨d.reload.getD base.reload, d.timeout.getD base.timeout, d.tolerant.getD base.tolerant⟩

def ofText (text : String) : Except Fault LocatorConfig := (document shape.read text).map Draft.finish

def ofFile (path : String) (content : Except FileFault String) : Except Failure LocatorConfig :=
  match content with
  | .error fault => .error (.config (.unreadable path fault))
  | .ok text => (ofText text).mapError .json

end LocatorConfig

namespace Page

def toJson : Page → Json
  | precompiled uri typeName =>
    .obj [("kind", .str "precompiled"), ("uri", .str uri), ("type_name", .str typeName)]
  | resource uri path modified =>
    .obj [("kind", .str "resource"), ("uri", .str uri), ("path", .str path),
      ("last_modified_millis", .int modified)]

inductive Kind
  | precompiled
  | resource
  deriving DecidableEq, Repr

def Kind.ofName? : String → Option Kind
  | "precompiled" => some .precompiled
  | "resource" => some .resource
  | _ => none

def readKind (text : List Char) : Except Fault (Kind × List Char) := do
  let (name, rest) ← readString text
  match Kind.ofName? name with
  | some kind => return (kind, rest)
  | none => throw .mismatched

/-- A page whose kind may come after its other members, which are kept as values until then, the last
one first. -/
structure Draft where
  kind : Option Kind := none
  members : List (String × Json) := []

def member (fuel : Nat) (d : Draft) (name : String) : Except Fault (List Char → Reading Draft) :=
  if name = "kind" then
    if d.kind.isSome then .error .mismatched
    else .ok fun text => (readKind text).map fun (kind, rest) => ({ d with kind := some kind }, rest)
  else .ok fun text =>
    (readValue fuel (maxDepth - 1) text).map fun (v, rest) =>
      ({ d with members := (name, v) :: d.members }, rest)

def asString : Json → Except Fault String
  | .str s => .ok s
  | _ => .error .mismatched

def only (members : List (String × Json)) (name : String) : Except Fault Json :=
  match members.filter (·.1 == name) with
  | [(_, v)] => .ok v
  | _ => .error .mismatched

def ofMembers (members : List (String × Json)) : Kind → Except Fault Page
  | .precompiled => do
    let uri ← asString (← only members "uri")
    let typeName ← asString (← only members "type_name")
    return .precompiled uri typeName
  | .resource => do
    let uri ← asString (← only members "uri")
    let path ← asString (← only members "path")
    let modified ← asInteger (← only members "last_modified_millis")
    return .resource uri path modified

def ofItems : Kind → List Json → Except Fault Page
  | .precompiled, [uri, typeName] => return .precompiled (← asString uri) (← asString typeName)
  | .resource, [uri, path, modified] =>
    return .resource (← asString uri) (← asString path) (← asInteger modified)
  | _, _ => throw .mismatched

def read (text : List Char) : Except Fault (Page × List Char) := do
  match skipSpace text with
  | '[' :: text =>
    match ← next ']' true text with
    | .closed _ => throw .mismatched
    | .item text =>
      let (kind, text) ← readKind text
      let (items, rest) ← readItems (enoughFuel text) (maxDepth - 1) false text
      return (← ofItems kind items, rest)
  | '\x7b' :: text =>
    let (d, rest) ← readMembersWith member (enoughFuel text) true {} text
    match d.kind with
    | some kind => return (← ofMembers d.members kind, rest)
    | none => throw .mismatched
  | text => throw (typeFault text)

def ofText (text : String) : Except Fault Page := document read text

end Page

end ViewCache
