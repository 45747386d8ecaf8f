import ViewCache.Failure

namespace ViewCache

inductive Probe
  | file (modified : Int)
  | other
  | fault (fault : FileFault)
  deriving DecidableEq, Repr

end ViewCache
