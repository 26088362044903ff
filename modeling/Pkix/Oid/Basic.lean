import Pkix.Der.Element

/-!
# Object identifiers

An identifier is held as its content octets, which are what two identifiers are compared by. Three
readings lead to and from it:

* `parse?` reads the dotted form and writes the octets of its arcs;
* `ofContent?` accepts octets that come from elsewhere;
* `dotted` prints the arcs that the octets hold.

The octets of an arc are its base-128 digits, with a mark on all but the last, and two families of
arcs differ from that rule (`arcOctets?`). An identifier with such an arc prints another dotted form
than it was read from.

Arcs have thirty-two bits. The three readings are total: a text with a larger arc is refused, not
read modulo `2 ^ 32`, and the octets of an identifier that `ofContent?` would refuse are printed all
the same. Only a text with an arc from `2 ^ 29` on, whose last seven bits are at least 16, leads to
such an identifier with at least three octets; a printer that checks arcs would stop at it.
-/

namespace Pkix

structure Oid where
  octets : Octets
  deriving DecidableEq

namespace Oid

/-! ## Arcs to octets -/

/-- The base-128 digits of a number, most significant first; none for zero. -/
def base128 (n : Nat) : List Nat :=
  if n = 0 then [] else base128 (n / 128) ++ [n % 128]
termination_by n
decreasing_by omega

/-- Digits as octets, with the high bit set on all but the last. -/
def markDigits : List Nat → Octets
  | [] => []
  | [d] => [UInt8.ofNat d]
  | d :: e :: rest => UInt8.ofNat (128 + d) :: markDigits (e :: rest)

/-- The octets of an arc after the second. Of an arc whose two leading digits are 1 and 0, these two
are written as a digit zero that ends, and the others follow as a number of their own. From `2 ^ 28`
on, an arc with these leading digits loses them to a single marked zero, any other arc below
`2 ^ 29` has no octets, and larger arcs below `2 ^ 32` follow the rule again. -/
def arcOctets? (arc : Nat) : Option Octets :=
  if arc = 0 then some [0]
  else if arc < 0x10000000 then
    match base128 arc with
    | 1 :: 0 :: rest => some (0x80 :: 0x00 :: markDigits rest)
    | digits => some (markDigits digits)
  else if arc < 0x10200000 then some (0x80 :: markDigits ((base128 arc).drop 2))
  else if arc < 0x20000000 then none
  else if arc < 0x100000000 then some (markDigits (base128 arc))
  else none

/-- The identifier with the given arcs, of which there are at least three. The first is at most 2,
the second at most 39, and at most 38 octets are written. -/
def ofArcs? : List Nat → Option Oid
  | first :: second :: third :: rest => do
    let octets ← (third :: rest).mapM arcOctets?
    let octets := UInt8.ofNat (40 * first + second) :: octets.flatten
    if first ≤ 2 ∧ second ≤ 39 ∧ octets.length ≤ 38 then some ⟨octets⟩ else none
  | _ => none

/-! ## Dotted text -/

/-- The arc that decimal digits denote; no digits stand for zero. -/
def arcOfDigits? (digits : List Char) : Option Nat :=
  digits.foldlM (fun n c => if c.isDigit then some (10 * n + (c.toNat - 48)) else none) 0

/-- The arcs of a dotted text. Every arc but the first and the last may be empty. -/
def arcsOfText? (text : String) : Option (List Nat) :=
  let arcs := text.toList.splitOn '.'
  if arcs.head? = some [] ∨ arcs.getLast? = some [] then none else arcs.mapM arcOfDigits?

/-- The identifier that a dotted text names; none if an arc does not fit thirty-two bits. -/
def parse? (text : String) : Option Oid := do
  ofArcs? (← arcsOfText? text)

/-! ## Octets to arcs -/

/-- The arcs after the second, modulo `2 ^ 32`, where `arc` has been read so far. -/
def arcsFrom (arc : Nat) : Octets → List Nat
  | [] => []
  | b :: rest =>
    let arc := (128 * arc + b.toNat % 128) % 0x100000000
    if b < 0x80 then arc :: arcsFrom 0 rest else arcsFrom arc rest

def arcs (oid : Oid) : List Nat :=
  match oid.octets with
  | [] => []
  | b :: rest => b.toNat / 40 :: b.toNat % 40 :: arcsFrom 0 rest

/-- The dotted form of the arcs, whether or not `isReadable` holds of the octets. -/
def dotted (oid : Oid) : String :=
  ".".intercalate (oid.arcs.map toString)

/-- Whether octets after the first are complete arcs, where `count` octets of the present arc came
before. An arc has at most five octets, and the fifth ends it and is below 16. -/
def isArcSeries (count : Nat) : Octets → Bool
  | [] => count == 0
  | b :: rest =>
    if 4 ≤ count && 0x10 ≤ b then false
    else if b < 0x80 then isArcSeries 0 rest
    else isArcSeries (count + 1) rest

/-- Whether octets from elsewhere are taken for an identifier. -/
def isReadable (octets : Octets) : Bool :=
  3 ≤ octets.length && octets.length ≤ 39 &&
    match octets with
    | [] => false
    | b :: rest => b ≤ 119 && isArcSeries 0 rest

/-- The identifier with the given content octets. -/
def ofContent? (octets : Octets) : Option Oid :=
  if isReadable octets then some ⟨octets⟩ else none

def toElement (oid : Oid) : Der.Element :=
  ⟨.universal .objectIdentifier, oid.octets⟩

def ofElement? (e : Der.Element) : Option Oid :=
  if e.tag = .universal .objectIdentifier then ofContent? e.content else none

end Oid

end Pkix
