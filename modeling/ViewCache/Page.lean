namespace ViewCache

inductive Page
  /-- compiled ahead of time and registered by URI; it never changes once found -/
  | precompiled (uri typeName : String)
  | resource (uri path : String) (modified : Int)
  deriving DecidableEq, Repr

namespace Page

def uri : Page → String
  | precompiled uri _ | resource uri _ _ => uri

def isPrecompiled : Page → Bool
  | precompiled .. => true
  | resource .. => false

def path? : Page → Option String
  | precompiled .. => none
  | resource _ path _ => some path

end Page

end ViewCache
