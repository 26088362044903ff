import Pkix.Der.Element

/-!
# Booleans, integers and octet strings

An integer is written in two's complement with as few octets as keep its sign, and read only in
that form. `ofContent?` therefore has `content` as its only inverse.
-/

namespace Pkix.Der

/-! ## Integers -/

namespace Integer

/-- The content of a natural number: its octets after a zero octet where the first one would
otherwise look like a sign. -/
def natContent (n : Nat) : Octets :=
  match Octets.ofNat n with
  | [] => [0]
  | b :: rest => if b < 0x80 then b :: rest else 0 :: b :: rest

/-- The content of an integer. The content of `-(n + 1)` is that of `n` with every bit turned. -/
def content : Int → Octets
  | .ofNat n => natContent n
  | .negSucc n => (natContent n).map (255 - ·)

/-- Whether no octet of an integer's content can be left out. -/
def isMinimal : Octets → Bool
  | [] => false
  | [_] => true
  | b :: c :: _ => !(b == 0 && c < 0x80) && !(b == 0xff && 0x80 ≤ c)

/-- The integer that two's complement octets denote. -/
def value (octets : Octets) : Int :=
  match octets with
  | [] => 0
  | b :: _ =>
    if b < 0x80 then .ofNat (Octets.toNat octets)
    else .negSucc (Octets.toNat (octets.map (255 - ·)))

def ofContent? (octets : Octets) : Option Int :=
  if isMinimal octets then some (value octets) else none

end Integer

namespace Element

def integer (z : Int) : Element :=
  ⟨.universal .integer, Integer.content z⟩

def integer? (e : Element) : Option Int :=
  if e.tag = .universal .integer then Integer.ofContent? e.content else none

/-- The value of an integer that is not negative. -/
def natural? (e : Element) : Option Nat := do
  match ← e.integer? with
  | .ofNat n => some n
  | .negSucc _ => none

/-! ## Booleans and octet strings -/

/-- A boolean; true has every bit set. -/
def boolean (b : Bool) : Element :=
  ⟨.universal .boolean, [if b then 0xff else 0x00]⟩

def boolean? (e : Element) : Option Bool :=
  if e.tag = .universal .boolean then
    match e.content with
    | [0x00] => some false
    | [0xff] => some true
    | _ => none
  else none

def octetString (octets : Octets) : Element :=
  ⟨.universal .octetString, octets⟩

def octetString? (e : Element) : Option Octets :=
  if e.tag = .universal .octetString then some e.content else none

end Element

end Pkix.Der
