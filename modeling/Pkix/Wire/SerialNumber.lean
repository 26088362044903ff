import Pkix.Der.Scalar

/-!
# Serial numbers on the wire

A serial number is an integer that is kept as its content octets. It is read with one octet more
than it may be written with, so that twenty octets and a sign octet can be read.
-/

namespace Pkix.Wire

open Der

/-- The content octets of a serial number. -/
abbrev SerialNumber := Octets

namespace SerialNumber

def toElement (serial : SerialNumber) : Element :=
  ⟨.universal .integer, serial⟩

def ofElement? (e : Element) : Option SerialNumber :=
  if e.tag = .universal .integer ∧ Integer.isMinimal e.content ∧ e.content.length ≤ 21 then
    some e.content
  else none

/-- The serial number of a number's octets, where it is short enough to be written. -/
def ofUnsigned? (octets : Octets) : Option SerialNumber :=
  let content :=
    match Octets.stripZeros octets with
    | [] => []
    | b :: rest => if b < 0x80 then b :: rest else 0 :: b :: rest
  if content.length ≤ 20 then some content else none

end SerialNumber

end Pkix.Wire
