import ViewCache.Failure
import ViewCache.Text.Split

namespace ViewCache.Command

structure Complaint where
  about : String
  causes : List String := []
  deriving DecidableEq, Repr

namespace Complaint

def ofFailure (about : String) (failure : Failure) : Complaint :=
  ⟨about, failure.message :: failure.source?.toList⟩

/-- The lines of a cause after its first are moved in as far as the first one is. -/
def indent (lead rest : String) (cause : String) : String :=
  match (Text.splitOn '\n' cause.toList).map String.ofList with
  | [] => lead
  | line :: lines => lead ++ line ++ String.join (lines.map fun line => "\n" ++ rest ++ line)

def showCauses : List String → List String
  | [cause] => [indent "    " "    " cause]
  | causes => causes.zipIdx.map fun (cause, n) =>
      indent (String.ofList (List.replicate (5 - (toString n).length) ' ') ++ toString n ++ ": ")
        "       " cause

def text (complaint : Complaint) : String :=
  let head := "Error: " ++ complaint.about ++ "\n"
  if complaint.causes = [] then head
  else head ++ "\nCaused by:\n" ++ String.join ((showCauses complaint.causes).map (· ++ "\n"))

end Complaint

end ViewCache.Command
