import ViewCache.Json.Lexer
import ViewCache.Json.Value
import ViewCache.Text.Integer

namespace ViewCache.Json

open Text (digit?)

def isDigit (c : Char) : Bool := (digit? c).isSome

structure Exponent where
  mark : List Char
  negative : Bool
  digits : List Char

structure Numeral where
  whole : List Char
  fraction : List Char := []
  exponent : Option Exponent := none

def Exponent.literal (e : Exponent) : List Char := e.mark ++ e.digits

def Numeral.literal (n : Numeral) : List Char :=
  n.whole ++ (if n.fraction = [] then [] else '.' :: n.fraction) ++ n.exponent.elim [] Exponent.literal

def someDigits (atEnd : Fault) (text : List Char) : Reading (List Char) :=
  match text.takeWhile isDigit, text.dropWhile isDigit with
  | [], [] => .error atEnd
  | [], _ => .error .malformed
  | digits, rest => .ok (digits, rest)

def readWhole (atEnd : Fault) : List Char → Reading (List Char)
  | [] => .error atEnd
  | '0' :: rest => if rest.head?.any isDigit then .error .malformed else .ok (['0'], rest)
  | text => someDigits .malformed text

def readFraction (atEnd : Fault) : List Char → Reading (List Char)
  | '.' :: rest => someDigits atEnd rest
  | text => .ok ([], text)

def readExponent (atEnd : Fault) : List Char → Reading (Option Exponent)
  | c :: rest =>
    if c = 'e' ∨ c = 'E' then
      match rest with
      | '-' :: rest => (someDigits atEnd rest).map fun (digits, rest) => (some ⟨[c, '-'], true, digits⟩, rest)
      | '+' :: rest => (someDigits atEnd rest).map fun (digits, rest) => (some ⟨[c, '+'], false, digits⟩, rest)
      | rest => (someDigits atEnd rest).map fun (digits, rest) => (some ⟨[c], false, digits⟩, rest)
    else .ok (none, c :: rest)
  | [] => .ok (none, [])

def readNumeral (atEnd : Fault) (text : List Char) : Except Fault (Numeral × List Char) := do
  let (whole, text) ← readWhole atEnd text
  let (fraction, text) ← readFraction atEnd text
  let (exponent, text) ← readExponent atEnd text
  return (⟨whole, fraction, exponent⟩, text)

def valueOf (digits : List Char) : Nat :=
  digits.foldl (fun n c => n * 10 + (digit? c).getD 0) 0

def Exponent.value (e : Exponent) : Int :=
  if e.negative then -(valueOf e.digits : Int) else valueOf e.digits

/-- A significand of 64 bits and the power of ten to scale it by; `full` once a digit did not fit. -/
structure Significand where
  value : Nat := 0
  scale : Int := 0
  full : Bool := false

def Significand.push (s : Significand) (step : Int) (whenFull : Int) (c : Char) : Significand :=
  let value := s.value * 10 + (digit? c).getD 0
  if s.full || 18446744073709551616 ≤ value then { s with scale := s.scale + whenFull, full := true }
  else { s with value, scale := s.scale + step }

def significand (n : Numeral) : Significand :=
  let whole := n.whole.foldl (fun s c => s.push 0 1 c) ({} : Significand)
  n.fraction.foldl (fun s c => s.push (-1) 0 c) { whole with full := false }

def roundTo53 (n : Nat) : Nat :=
  let extra := n.log2 + 1 - 53
  let q := n >>> extra
  let unit := 1 <<< extra
  let r := n % unit
  let up := unit < 2 * r || (unit = 2 * r && q % 2 = 1)
  if extra = 0 then n else (if up then q + 1 else q) <<< extra

/-- The least magnitude that rounds beyond the finite doubles. -/
def overflowBound : Nat := 1 <<< 1024 - 1 <<< 970

/-- The significand and the power of ten are rounded to doubles before they are multiplied. -/
def Numeral.overflows (n : Numeral) : Bool :=
  let s := significand n
  let scale := s.scale + n.exponent.elim 0 Exponent.value
  s.value ≠ 0 && 0 ≤ scale &&
    (308 < scale || overflowBound ≤ roundTo53 s.value * roundTo53 (Nat.pow 10 scale.toNat))

/-- An integer where the text is one of 64 bits (zero has no sign), else the number as written. -/
def Numeral.toJson? (n : Numeral) (negative : Bool) : Option Json :=
  let plain := n.fraction = [] && n.exponent.isNone
  let value := valueOf n.whole
  if plain && !negative && value < 18446744073709551616 then some (.int value)
  else if plain && negative && value ≠ 0 && value ≤ 9223372036854775808 then some (.int (-value))
  else if n.overflows then none
  else some (.real (String.ofList (if negative then '-' :: n.literal else n.literal)))

def readNumber (negative : Bool) (text : List Char) : Except Fault (Json × List Char) := do
  let (numeral, rest) ← readNumeral .truncated text
  match numeral.toJson? negative with
  | some v => return (v, rest)
  | none => throw .malformed

/-- Only the grammar is checked; a number that breaks off is malformed. -/
def skipNumber (text : List Char) : Except Fault (List Char) :=
  (readNumeral .malformed text).map Prod.snd

end ViewCache.Json
