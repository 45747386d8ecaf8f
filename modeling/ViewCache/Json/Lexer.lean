import ViewCache.Json.Fault

namespace ViewCache.Json

abbrev Reading (α : Type) := Except Fault (α × List Char)

def isSpace (c : Char) : Bool := c = ' ' || c = '\n' || c = '\t' || c = '\r'

def skipSpace (text : List Char) : List Char := text.dropWhile isSpace

def expect : List Char → List Char → Except Fault (List Char)
  | [], text => .ok text
  | _ :: _, [] => .error .truncated
  | w :: word, c :: text => if c = w then expect word text else .error .malformed

def hexValue? (c : Char) : Option Nat :=
  if '0' ≤ c ∧ c ≤ '9' then some (c.toNat - '0'.toNat)
  else if 'a' ≤ c ∧ c ≤ 'f' then some (c.toNat - 'a'.toNat + 10)
  else if 'A' ≤ c ∧ c ≤ 'F' then some (c.toNat - 'A'.toNat + 10)
  else none

def shortEscape? : Char → Option Char
  | '"' => some '"'
  | '\\' => some '\\'
  | '/' => some '/'
  | 'b' => some '\x08'
  | 'f' => some '\x0c'
  | 'n' => some '\n'
  | 'r' => some '\r'
  | 't' => some '\t'
  | _ => none

def isLeadingSurrogate (unit : Nat) : Bool := 0xD800 ≤ unit && unit ≤ 0xDBFF

def isTrailingSurrogate (unit : Nat) : Bool := 0xDC00 ≤ unit && unit ≤ 0xDFFF

def surrogatePair (leading trailing : Nat) : Char :=
  Char.ofNat (0x10000 + (leading - 0xD800) * 0x400 + (trailing - 0xDC00))

/-- How far an escape inside a string has come. -/
inductive Escape
  | none
  | begun
  /-- `bytes` of the four hexadecimal digits are there, with their value while they are digits; a
  leading surrogate may have come before -/
  | digits (leading : Option Nat) (value : Option Nat) (bytes : Nat)
  | paired (leading : Nat)
  | pairedBegun (leading : Nat)

inductive Scanned
  | close
  | emit (c : Char)
  | more (escape : Escape)
  | refuse

/-- Four digits are there. In a strict string surrogates must come in pairs. -/
def scanUnit (strict : Bool) (leading : Option Nat) (unit : Nat) : Scanned :=
  if strict then
    match leading with
    | none =>
      if isLeadingSurrogate unit then .more (.paired unit)
      else if isTrailingSurrogate unit then .refuse
      else .emit (Char.ofNat unit)
    | some first => if isTrailingSurrogate unit then .emit (surrogatePair first unit) else .refuse
  else .emit (Char.ofNat unit)

def scan (strict : Bool) : Escape → Char → Scanned
  | .none, c =>
    if c = '"' then .close
    else if c = '\\' then .more .begun
    else if c.toNat < 0x20 then .refuse
    else .emit c
  | .begun, c =>
    if c = 'u' then .more (.digits none (some 0) 0)
    else match shortEscape? c with
      | some c => .emit c
      | none => .refuse
  | .digits leading value bytes, c =>
    let value := value.bind fun v => (hexValue? c).map (v * 16 + ·)
    if bytes + c.utf8Size < 4 then .more (.digits leading value (bytes + c.utf8Size))
    else match value with
      | some unit => scanUnit strict leading unit
      | none => .refuse
  | .paired leading, c => if c = '\\' then .more (.pairedBegun leading) else .refuse
  | .pairedBegun leading, c => if c = 'u' then .more (.digits (some leading) (some 0) 0) else .refuse

def readChars (strict : Bool) (escape : Escape) : List Char → Reading (List Char)
  | [] => .error .truncated
  | c :: text =>
    match scan strict escape c with
    | .close => .ok ([], text)
    | .refuse => .error .malformed
    | .more escape => readChars strict escape text
    | .emit c => (readChars strict .none text).map fun (cs, rest) => (c :: cs, rest)

def readQuoted (text : List Char) : Reading String :=
  (readChars true .none text).map fun (cs, rest) => (String.ofList cs, rest)

def skipQuoted (text : List Char) : Except Fault (List Char) :=
  (readChars false .none text).map Prod.snd

def readColon (text : List Char) : Except Fault (List Char) :=
  match skipSpace text with
  | [] => .error .truncated
  | ':' :: rest => .ok rest
  | _ => .error .malformed

inductive Next
  | closed (rest : List Char)
  | item (text : List Char)

def next (close : Char) (first : Bool) (text : List Char) : Except Fault Next :=
  match skipSpace text with
  | [] => .error .truncated
  | c :: rest =>
    if c = close then .ok (.closed rest)
    else if first then .ok (.item (c :: rest))
    else if c = ',' then
      match skipSpace rest with
      | [] => .error .truncated
      | d :: rest => if d = close then .error .malformed else .ok (.item (d :: rest))
    else .error .malformed

end ViewCache.Json
