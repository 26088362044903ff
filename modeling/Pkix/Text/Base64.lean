import Pkix.Octets

/-!
# Base64

Three octets become four characters. The last group is filled with zero bits and padded with `=`;
reading accepts exactly what writing produces, so padding is required and the filling bits must be
zero.
-/

namespace Pkix.Base64

def digit (n : Nat) : Char :=
  if n < 26 then Char.ofNat (65 + n)
  else if n < 52 then Char.ofNat (71 + n)
  else if n < 62 then Char.ofNat (n - 4)
  else if n = 62 then '+'
  else '/'

def value? (c : Char) : Option Nat :=
  if 'A' ≤ c ∧ c ≤ 'Z' then some (c.toNat - 65)
  else if 'a' ≤ c ∧ c ≤ 'z' then some (c.toNat - 71)
  else if '0' ≤ c ∧ c ≤ '9' then some (c.toNat + 4)
  else if c = '+' then some 62
  else if c = '/' then some 63
  else none

def encodeChars : Octets → List Char
  | [] => []
  | [a] => [digit (a.toNat / 4), digit (a.toNat % 4 * 16), '=', '=']
  | [a, b] =>
    [digit (a.toNat / 4), digit (a.toNat % 4 * 16 + b.toNat / 16), digit (b.toNat % 16 * 4), '=']
  | a :: b :: c :: rest =>
    digit (a.toNat / 4) :: digit (a.toNat % 4 * 16 + b.toNat / 16) ::
      digit (b.toNat % 16 * 4 + c.toNat / 64) :: digit (c.toNat % 64) :: encodeChars rest

/-- The single octet of a group that ends in two padding characters. -/
def lastOne? (p q : Nat) : Option Octets :=
  if q % 16 = 0 then some [UInt8.ofNat (p * 4 + q / 16)] else none

/-- The two octets of a group that ends in one padding character. -/
def lastTwo? (p q r : Nat) : Option Octets :=
  if r % 4 = 0 then some [UInt8.ofNat (p * 4 + q / 16), UInt8.ofNat (q % 16 * 16 + r / 4)] else none

/-- The octets that a character list stands for; `none` when it is not a written form. -/
def decodeChars? : List Char → Option Octets
  | [] => some []
  | [p, q, '=', '='] => do lastOne? (← value? p) (← value? q)
  | [p, q, r, '='] => do lastTwo? (← value? p) (← value? q) (← value? r)
  | p :: q :: r :: s :: rest => do
    let p ← value? p
    let q ← value? q
    let r ← value? r
    let s ← value? s
    let octets ← decodeChars? rest
    return UInt8.ofNat (p * 4 + q / 16) :: UInt8.ofNat (q % 16 * 16 + r / 4) ::
      UInt8.ofNat (r % 4 * 64 + s) :: octets
  | _ => none

def encode (octets : Octets) : String :=
  String.ofList (encodeChars octets)

end Pkix.Base64
