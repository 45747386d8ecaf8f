import ViewCache.Json.Skip

/-!
Reading JSON as a record, as the text comes: an object with the fields in any order, where unknown
members are passed over, or an array with the fields in the order of their declaration.
-/
namespace ViewCache.Json

/-- The fault of finding here a value of another type: a scalar is read to its end first. -/
def typeFault (text : List Char) : Fault :=
  match text with
  | '[' :: _ | '\x7b' :: _ => .mismatched
  | text =>
    match readScalar text with
    | .ok _ => .mismatched
    | .error fault => fault

def readBool (text : List Char) : Reading Bool :=
  match skipSpace text with
  | 't' :: rest => (expect "rue".toList rest).map (true, ·)
  | 'f' :: rest => (expect "alse".toList rest).map (false, ·)
  | text => .error (typeFault text)

def asInteger : Json → Except Fault Int
  | int n => if Text.inSigned64 n then .ok n else .error .mismatched
  | _ => .error .mismatched

def readInteger (text : List Char) : Except Fault (Int × List Char) := do
  match skipSpace text with
  | '-' :: rest =>
    let (v, rest) ← readNumber true rest
    return (← asInteger v, rest)
  | [] => throw .truncated
  | c :: rest =>
    if isDigit c then
      let (v, rest) ← readNumber false (c :: rest)
      return (← asInteger v, rest)
    else throw (typeFault (c :: rest))

def readString (text : List Char) : Reading String :=
  match skipSpace text with
  | '"' :: rest => readQuoted rest
  | text => .error (typeFault text)

def readOptional {α : Type} (read : List Char → Reading α) (text : List Char) : Reading (Option α) :=
  match skipSpace text with
  | 'n' :: rest => (expect "ull".toList rest).map (none, ·)
  | text => (read text).map fun (v, rest) => (some v, rest)

def readMembersWith {σ : Type} (member : Nat → σ → String → Except Fault (List Char → Reading σ)) :
    Nat → Bool → σ → List Char → Except Fault (σ × List Char)
  | 0, _, _, _ => .error .malformed
  | fuel + 1, first, state, text => do
    match ← next '\x7d' first text with
    | .closed rest => return (state, rest)
    | .item ('"' :: text) =>
      let (name, text) ← readQuoted text
      let read ← member fuel state name
      let text ← readColon text
      let (state, text) ← read text
      readMembersWith member fuel false state text
    | .item _ => throw .malformed

structure Field (σ : Type) where
  name : String
  isFilled : σ → Bool
  fill : σ → List Char → Reading σ

structure Shape (σ : Type) where
  empty : σ
  fields : List (Field σ)
  /-- the array form may leave fields out at its end -/
  mayStop : Bool

namespace Shape

variable {σ : Type}

def member (shape : Shape σ) (fuel : Nat) (state : σ) (name : String) :
    Except Fault (List Char → Reading σ) :=
  match shape.fields.find? (·.name == name) with
  | some field => if field.isFilled state then .error .mismatched else .ok (field.fill state)
  | none => .ok fun text => (skipValue fuel text).map (state, ·)

def readArray (mayStop : Bool) : List (Field σ) → Bool → σ → List Char → Except Fault (σ × List Char)
  | [], _, state, text =>
    match skipSpace text with
    | [] => .error .truncated
    | ']' :: rest => .ok (state, rest)
    | _ => .error .malformed
  | field :: fields, first, state, text => do
    match ← next ']' first text with
    | .closed rest => if mayStop then return (state, rest) else throw .mismatched
    | .item text =>
      let (state, text) ← field.fill state text
      readArray mayStop fields false state text

def read (shape : Shape σ) (text : List Char) : Reading σ :=
  match skipSpace text with
  | '[' :: rest => readArray shape.mayStop shape.fields true shape.empty rest
  | '\x7b' :: rest => readMembersWith shape.member (enoughFuel rest) true shape.empty rest
  | text => .error (typeFault text)

end Shape

end ViewCache.Json
