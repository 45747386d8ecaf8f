import ViewCache.Uri

namespace ViewCache

structure Registry where
  pages : List (String × String) := []

namespace Registry

def keyOf (uri : String) : Option String → String
  | none => uri
  | some name => name ++ String.singleton Convention.namespaceSeparator ++ uri

/-- The URI and namespace that a registration is about. -/
def address (path : String) (qualifier : Option String) : Except PathFault (String × Option String) := do
  let uri ← Uri.normalize path none
  let qualifier ← qualifier.mapM Uri.checkNamespace
  return (uri, qualifier)

def find? (registry : Registry) (uri : String) (qualifier : Option String) : Option String :=
  registry.pages.lookup (keyOf uri qualifier)

def size (registry : Registry) : Nat := registry.pages.length

def insert (registry : Registry) (key typeName : String) : Registry :=
  ⟨(key, typeName) :: registry.pages.filter (·.1 != key)⟩

def erase (registry : Registry) (key : String) : Registry := ⟨registry.pages.filter (·.1 != key)⟩

def register (registry : Registry) (path : String) (qualifier : Option String) (typeName : String) :
    Except PathFault Registry := do
  let (uri, qualifier) ← address path qualifier
  return registry.insert (keyOf uri qualifier) typeName

def unregister (registry : Registry) (path : String) (qualifier : Option String) :
    Except PathFault (Registry × Bool) := do
  let (uri, qualifier) ← address path qualifier
  return (registry.erase (keyOf uri qualifier), (registry.find? uri qualifier).isSome)

/-- The type registered for the namespace, else the one registered without a namespace. -/
def typeOf? (registry : Registry) (uri : String) (qualifier : Option String) : Option String :=
  (qualifier.bind fun name => registry.find? uri (some name)).or (registry.find? uri none)

end Registry

end ViewCache
