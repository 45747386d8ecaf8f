import ViewCache.Json.Value

namespace ViewCache.Json

def hexDigit (n : Nat) : Char := (Nat.digitChar n)

def escape (c : Char) : List Char :=
  if c = '"' then ['\\', '"']
  else if c = '\\' then ['\\', '\\']
  else if c = '\x08' then ['\\', 'b']
  else if c = '\t' then ['\\', 't']
  else if c = '\n' then ['\\', 'n']
  else if c = '\x0c' then ['\\', 'f']
  else if c = '\r' then ['\\', 'r']
  else if c.toNat < 0x20 then
    ['\\', 'u', '0', '0', hexDigit (c.toNat / 16), hexDigit (c.toNat % 16)]
  else [c]

def quote (s : String) : List Char := '"' :: (s.toList.flatMap escape ++ ['"'])

def printInt (n : Int) : List Char := (toString n).toList

def newline (depth : Nat) : List Char := '\n' :: List.replicate (2 * depth) ' '

mutual

def print : Json → List Char
  | null => "null".toList
  | bool true => "true".toList
  | bool false => "false".toList
  | int n => printInt n
  | real literal => literal.toList
  | str s => quote s
  | arr items => '[' :: (printItems items ++ [']'])
  | obj members => '\x7b' :: (printMembers members ++ ['\x7d'])

def printItems : List Json → List Char
  | [] => []
  | [v] => print v
  | v :: rest => print v ++ ',' :: printItems rest

def printMembers : List (String × Json) → List Char
  | [] => []
  | [(name, v)] => quote name ++ ':' :: print v
  | (name, v) :: rest => quote name ++ ':' :: (print v ++ ',' :: printMembers rest)

end

mutual

def pretty (depth : Nat) : Json → List Char
  | arr [] => ['[', ']']
  | arr (v :: rest) => '[' :: (prettyItems (depth + 1) (v :: rest) ++ newline depth ++ [']'])
  | obj [] => ['\x7b', '\x7d']
  | obj (m :: rest) => '\x7b' :: (prettyMembers (depth + 1) (m :: rest) ++ newline depth ++ ['\x7d'])
  | v => print v

def prettyItems (depth : Nat) : List Json → List Char
  | [] => []
  | [v] => newline depth ++ pretty depth v
  | v :: rest => newline depth ++ pretty depth v ++ ',' :: prettyItems depth rest

def prettyMembers (depth : Nat) : List (String × Json) → List Char
  | [] => []
  | [(name, v)] => newline depth ++ quote name ++ [':', ' '] ++ pretty depth v
  | (name, v) :: rest =>
    newline depth ++ quote name ++ [':', ' '] ++ pretty depth v ++ ',' :: prettyMembers depth rest

end

def compact (v : Json) : String := String.ofList (print v)

def indented (v : Json) : String := String.ofList (pretty 0 v)

end ViewCache.Json
