import ViewCache.Json.Reader

/-!
Passing over a value that nobody asks for. Only its grammar is checked, and nesting has no limit: the
brackets that are open are kept on a stack.
-/
namespace ViewCache.Json

inductive Bracket
  | array
  | object
  deriving DecidableEq

def Bracket.close : Bracket → Char
  | array => ']'
  | object => '\x7d'

def skipScalar : List Char → Except Fault (List Char)
  | [] => .error .truncated
  | c :: rest =>
    if c = 'n' then expect "ull".toList rest
    else if c = 't' then expect "rue".toList rest
    else if c = 'f' then expect "alse".toList rest
    else if c = '"' then skipQuoted rest
    else if c = '-' then skipNumber rest
    else if isDigit c then skipNumber (c :: rest)
    else .error .malformed

def skipName (text : List Char) : Except Fault (List Char) := do
  match skipSpace text with
  | [] => throw .truncated
  | '"' :: rest => readColon (← skipQuoted rest)
  | _ => throw .malformed

inductive Expecting
  | value
  | first
  | more

def skipFrom : Nat → Expecting → List Bracket → List Char → Except Fault (List Char)
  | 0, _, _, _ => .error .malformed
  | _ + 1, .first, [], text | _ + 1, .more, [], text => .ok text
  | fuel + 1, .value, open_, text =>
    match skipSpace text with
    | '[' :: rest => skipFrom fuel .first (.array :: open_) rest
    | '\x7b' :: rest => skipFrom fuel .first (.object :: open_) rest
    | text => do skipFrom fuel .more open_ (← skipScalar text)
  | fuel + 1, .first, bracket :: open_, text =>
    match skipSpace text with
    | [] => .error .truncated
    | c :: rest =>
      if c = bracket.close then skipFrom fuel .more open_ rest
      else if bracket = .object then do skipFrom fuel .value (bracket :: open_) (← skipName (c :: rest))
      else skipFrom fuel .value (bracket :: open_) (c :: rest)
  | fuel + 1, .more, bracket :: open_, text =>
    match skipSpace text with
    | [] => .error .truncated
    | c :: rest =>
      if c = ',' then
        if bracket = .object then do skipFrom fuel .value (bracket :: open_) (← skipName rest)
        else skipFrom fuel .value (bracket :: open_) rest
      else if c = bracket.close then skipFrom fuel .more open_ rest
      else .error .malformed

def skipValue (fuel : Nat) (text : List Char) : Except Fault (List Char) :=
  skipFrom fuel .value [] text

end ViewCache.Json
