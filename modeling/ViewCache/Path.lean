namespace ViewCache.Path

def isAbsolute (path : String) : Bool := path.toList.head? == some '/'

/-- An absolute part replaces the base; otherwise one slash stands between the two. -/
def join (base part : String) : String :=
  if isAbsolute part then part
  else if base.toList.getLast?.all (· == '/') then base ++ part
  else base ++ "/" ++ part

theorem join_of_relative {part : String} (relative : isAbsolute part = false) (base : String) :
    join base part = if base.toList.getLast?.all (· == '/') then base ++ part else base ++ "/" ++ part := by
  simp [join, relative]

end ViewCache.Path
