import Pkix.Der.BitString
import Pkix.Xml

/-!
# Key usage

The purposes of a key as named bits. All nine are shown, set or not.
-/

namespace Pkix

inductive KeyUsageFlag where
  | digitalSignature
  | nonRepudiation
  | keyEncipherment
  | dataEncipherment
  | keyAgreement
  | keyCertSign
  | crlSign
  | encipherOnly
  | decipherOnly
  deriving DecidableEq

namespace KeyUsageFlag

/-- Every purpose, in the order of their bits. -/
def all : List KeyUsageFlag :=
  [digitalSignature, nonRepudiation, keyEncipherment, dataEncipherment, keyAgreement, keyCertSign,
   crlSign, encipherOnly, decipherOnly]

def bit : KeyUsageFlag → Nat
  | digitalSignature => 0
  | nonRepudiation => 1
  | keyEncipherment => 2
  | dataEncipherment => 3
  | keyAgreement => 4
  | keyCertSign => 5
  | crlSign => 6
  | encipherOnly => 7
  | decipherOnly => 8

def name : KeyUsageFlag → String
  | digitalSignature => "digitalSignature"
  | nonRepudiation => "nonRepudiation"
  | keyEncipherment => "keyEncipherment"
  | dataEncipherment => "dataEncipherment"
  | keyAgreement => "keyAgreement"
  | keyCertSign => "keyCertSign"
  | crlSign => "crlSign"
  | encipherOnly => "encipherOnly"
  | decipherOnly => "decipherOnly"

end KeyUsageFlag

/-- A set of purposes of a key. -/
structure KeyUsage where
  bits : Der.NamedBits
  deriving DecidableEq

namespace KeyUsage

def empty : KeyUsage := ⟨0⟩

/-- Whether a purpose is in the set. -/
def has (usage : KeyUsage) (flag : KeyUsageFlag) : Bool :=
  usage.bits.contains flag.bit

/-- The set with a purpose put in or taken out. -/
def set (usage : KeyUsage) (flag : KeyUsageFlag) (present : Bool) : KeyUsage :=
  ⟨usage.bits.assign flag.bit present⟩

def markup (usage : KeyUsage) (tab : String) : String :=
  String.join <| KeyUsageFlag.all.map fun flag =>
    Xml.element tab flag.name (Xml.flag (usage.has flag))

end KeyUsage

end Pkix
