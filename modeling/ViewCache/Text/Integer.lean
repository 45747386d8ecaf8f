/-!
Decimal integers of 64 bits: an optional sign and at least one ASCII digit, nothing else.
-/
namespace ViewCache.Text

def digit? (c : Char) : Option Nat :=
  if '0' ≤ c ∧ c ≤ '9' then some (c.toNat - '0'.toNat) else none

def digits? (acc : Nat) : List Char → Option Nat
  | [] => some acc
  | c :: rest => (digit? c).bind fun d => digits? (acc * 10 + d) rest

def natural? : List Char → Option Nat
  | [] => none
  | c :: rest => digits? 0 (c :: rest)

def inSigned64 (n : Int) : Bool := -9223372036854775808 ≤ n && n < 9223372036854775808

def inUnsigned64 (n : Nat) : Bool := n < 18446744073709551616

def signed? : List Char → Option Int
  | '-' :: rest => (natural? rest).bind fun n => if inSigned64 (-n) then some (-n) else none
  | '+' :: rest => (natural? rest).bind fun n => if inSigned64 n then some n else none
  | rest => (natural? rest).bind fun n => if inSigned64 n then some n else none

def unsigned? : List Char → Option Nat
  | '+' :: rest => (natural? rest).bind fun n => if inUnsigned64 n then some n else none
  | rest => (natural? rest).bind fun n => if inUnsigned64 n then some n else none

end ViewCache.Text
