import ViewCache.Json.Number

namespace ViewCache.Json

def readScalar : List Char → Reading Json
  | [] => .error .truncated
  | c :: rest =>
    if c = 'n' then (expect "ull".toList rest).map (null, ·)
    else if c = 't' then (expect "rue".toList rest).map (bool true, ·)
    else if c = 'f' then (expect "alse".toList rest).map (bool false, ·)
    else if c = '"' then (readQuoted rest).map fun (s, rest) => (str s, rest)
    else if c = '-' then readNumber true rest
    else if isDigit c then readNumber false (c :: rest)
    else .error .malformed

mutual

/-- Each bracket takes one off `depth`, and the last one is refused. -/
def readValue : Nat → Nat → List Char → Reading Json
  | 0, _, _ => .error .malformed
  | fuel + 1, depth, text =>
    match skipSpace text with
    | '[' :: rest =>
      if depth ≤ 1 then .error .malformed
      else (readItems fuel (depth - 1) true rest).map fun (items, rest) => (arr items, rest)
    | '\x7b' :: rest =>
      if depth ≤ 1 then .error .malformed
      else (readMembers fuel (depth - 1) true rest).map fun (members, rest) => (obj members, rest)
    | text => readScalar text

def readItems : Nat → Nat → Bool → List Char → Except Fault (List Json × List Char)
  | 0, _, _, _ => .error .malformed
  | fuel + 1, depth, first, text => do
    match ← next ']' first text with
    | .closed rest => return ([], rest)
    | .item text =>
      let (v, text) ← readValue fuel depth text
      let (items, rest) ← readItems fuel depth false text
      return (v :: items, rest)

def readMembers : Nat → Nat → Bool → List Char → Except Fault (List (String × Json) × List Char)
  | 0, _, _, _ => .error .malformed
  | fuel + 1, depth, first, text => do
    match ← next '\x7d' first text with
    | .closed rest => return ([], rest)
    | .item ('"' :: text) =>
      let (name, text) ← readQuoted text
      let text ← readColon text
      let (v, text) ← readValue fuel depth text
      let (members, rest) ← readMembers fuel depth false text
      return ((name, v) :: members, rest)
    | .item _ => throw .malformed

end

def maxDepth : Nat := 128

/-- No call but the first of an item leaves the text as long as it was. -/
def enoughFuel (text : List Char) : Nat := 2 * text.length + 2

def document {α : Type} (read : List Char → Reading α) (text : String) : Except Fault α := do
  let (value, rest) ← read text.toList
  if skipSpace rest = [] then return value else throw .malformed

def readAny (text : List Char) : Reading Json := readValue (enoughFuel text) maxDepth text

def ofText (text : String) : Except Fault Json := document readAny text

end ViewCache.Json
