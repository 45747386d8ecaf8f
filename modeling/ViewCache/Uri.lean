import ViewCache.Failure
import ViewCache.Text.Blank
import ViewCache.Text.Split

namespace ViewCache.Uri

open Text

def extension : List Char := Convention.pageExtension.toList

def withExtension (s : List Char) : List Char :=
  if extension.isSuffixOf s then s else s ++ extension

def segments (path : List Char) : List (List Char) :=
  (splitOn '/' path).filter fun s => s ≠ [] && s ≠ ['.']

def below (context : Option (List Char)) (path : List Char) : List Char :=
  match context.map trim with
  | none | some [] => path
  | some context => if path.head? = some '/' then path else context ++ '/' :: path

def ofSegments (parts : List (List Char)) : List Char := withExtension ('/' :: joinWith '/' parts)

/-- A trimmed path is refused if it is empty, climbs with two dots, or has no segment that counts. -/
def canonical (path : List Char) (context : Option (List Char)) : Except PathFault (List Char) :=
  let path := trim path
  if path = [] then .error .empty
  else
    let parts := segments (below context path)
    if parts = [] ∨ ['.', '.'] ∈ parts then .error (.rejected (String.ofList path))
    else .ok (ofSegments parts)

def normalize (path : String) (context : Option String) : Except PathFault String :=
  (canonical path.toList (context.map String.toList)).map String.ofList

def isPlainName (name : String) : Bool :=
  let s := name.toList
  s ≠ [] && s ≠ ['.'] && s ≠ ['.', '.'] && !s.contains '/' && !s.contains '\\'

def checkNamespace (name : String) : Except PathFault String :=
  if isPlainName name then .ok name else .error (.badNamespace name)

end ViewCache.Uri
