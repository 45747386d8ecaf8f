namespace ViewCache.Json

inductive Fault
  /-- the text is not JSON, or a number is beyond the range of a double -/
  | malformed
  | truncated
  | mismatched
  deriving DecidableEq, Repr

def Fault.message : Fault → String
  | malformed => "malformed text"
  | truncated => "the text ends too early"
  | mismatched => "a value of another type was expected"

end ViewCache.Json
