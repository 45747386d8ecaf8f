/-!
Bytes read as UTF-8 where not all of them need to be valid: every longest start of a character that is
not completed becomes one replacement character.
-/
namespace ViewCache.Text

def replacement : Char := '\ufffd'

def continuations (first : UInt8) : Option (List (UInt8 × UInt8)) :=
  let tail : UInt8 × UInt8 := (0x80, 0xBF)
  if first < 0x80 then some []
  else if first < 0xC2 then none
  else if first < 0xE0 then some [tail]
  else if first = 0xE0 then some [(0xA0, 0xBF), tail]
  else if first = 0xED then some [(0x80, 0x9F), tail]
  else if first < 0xF0 then some [tail, tail]
  else if first = 0xF0 then some [(0x90, 0xBF), tail, tail]
  else if first < 0xF4 then some [tail, tail, tail]
  else if first = 0xF4 then some [(0x80, 0x8F), tail, tail]
  else none

def leadBits (first : UInt8) : Nat :=
  if first < 0x80 then first.toNat
  else if first < 0xE0 then first.toNat % 0x20
  else if first < 0xF0 then first.toNat % 0x10
  else first.toNat % 0x8

structure Begun where
  bits : Nat
  wanted : List (UInt8 × UInt8)

def begin (first : UInt8) : List Char × Option Begun :=
  match continuations first with
  | none => ([replacement], none)
  | some [] => ([Char.ofNat first.toNat], none)
  | some wanted => ([], some ⟨leadBits first, wanted⟩)

def decodeFrom : Option Begun → List UInt8 → List Char
  | none, [] => []
  | some _, [] => [replacement]
  | none, b :: rest =>
    let (out, begun) := begin b
    out ++ decodeFrom begun rest
  | some ⟨_, []⟩, b :: rest =>
    let (out, begun) := begin b
    out ++ decodeFrom begun rest
  | some ⟨bits, (low, high) :: wanted⟩, b :: rest =>
    if low ≤ b && b ≤ high then
      let bits := bits * 64 + b.toNat % 64
      if wanted.isEmpty then Char.ofNat bits :: decodeFrom none rest
      else decodeFrom (some ⟨bits, wanted⟩) rest
    else
      let (out, begun) := begin b
      replacement :: (out ++ decodeFrom begun rest)

def decodeLossy (bytes : ByteArray) : String := String.ofList (decodeFrom none bytes.toList)

end ViewCache.Text
