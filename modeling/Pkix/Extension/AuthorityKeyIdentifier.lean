import Pkix.Name.GeneralName
import Pkix.Text.Base64
import Pkix.Wire.AuthorityKeyIdentifier

/-!
# Authority key identifiers

The issuer's key as its identifier, or as the issuer and serial number of its certificate. The
serial number is an unsigned number in octets; it is read without leading zeros.
-/

namespace Pkix

/-- What identifies the key of an issuer. -/
structure AuthorityKeyIdentifier where
  keyIdentifier : Option Octets
  issuer : GeneralNames
  serial : Option Octets
  deriving DecidableEq

namespace AuthorityKeyIdentifier

def empty : AuthorityKeyIdentifier := ⟨none, [], none⟩

/-- The value with a serial number, without the leading zeros of the given octets. -/
def setSerial (a : AuthorityKeyIdentifier) (octets : Octets) : AuthorityKeyIdentifier :=
  { a with serial := some (Octets.stripZeros octets) }

/-- The markup of the parts that are there. -/
def markup (a : AuthorityKeyIdentifier) (tab : String) : String :=
  let key := a.keyIdentifier.map fun octets =>
    Xml.element tab "keyIdentifier" (Base64.encode octets)
  let issuer :=
    if a.issuer.isEmpty then ""
    else Xml.wrap tab "authorityCertIssuer" (GeneralNames.markup a.issuer (Xml.indent tab))
  let serial := a.serial.map fun octets =>
    Xml.element tab "authorityCertSerialNumber" (Hex.upper octets)
  key.getD "" ++ issuer ++ serial.getD ""

def toWire (a : AuthorityKeyIdentifier) : Except Error Wire.AuthorityKeyIdentifier := do
  let issuer ← if a.issuer.isEmpty then pure none else some <$> GeneralNames.toWire a.issuer
  let serial ← a.serial.mapM fun octets =>
    Error.encoding.ifNone (Wire.SerialNumber.ofUnsigned? octets)
  return ⟨a.keyIdentifier, issuer, serial⟩

def ofWire (reg : Registry) (a : Wire.AuthorityKeyIdentifier) :
    Except Error AuthorityKeyIdentifier := do
  let issuer ← a.issuer.mapM (GeneralNames.ofWire reg)
  return ⟨a.keyIdentifier, issuer.getD [], a.serial.map Octets.stripZeros⟩

end AuthorityKeyIdentifier

end Pkix
