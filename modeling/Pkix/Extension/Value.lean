import Pkix.AccessDescription
import Pkix.DistributionPoint
import Pkix.Extension.AuthorityKeyIdentifier
import Pkix.Extension.BasicConstraints
import Pkix.Extension.KeyUsage
import Pkix.Extension.Kind
import Pkix.Policy.Information

/-!
# Values of extensions

The content of an extension of each kind, how it is written and read, and what it shows. Most values
stand in an `extnValue` element; three kinds have a layout of their own.
-/

namespace Pkix

open Der

/-! ## Numbers of revocation lists -/

namespace CrlNumber

def toElement (n : UInt64) : Element :=
  .integer n.toNat

/-- The list number that a natural number is, if it has at most eight octets. -/
def ofNat (n : Nat) : Except Error UInt64 :=
  let length := (Octets.ofNat n).length
  if length ≤ 8 then .ok (UInt64.ofNat n) else .error (.unsupportedCrlNumber length)

end CrlNumber

/-! ## Values of every kind -/

inductive ExtensionValue where
  | basicConstraints (constraints : BasicConstraints)
  | keyUsage (usage : KeyUsage)
  | extendedKeyUsage (purposes : List Identifier)
  | subjectKeyIdentifier (key : Octets)
  | authorityKeyIdentifier (key : AuthorityKeyIdentifier)
  | subjectAlternativeName (names : GeneralNames)
  | issuerAlternativeName (names : GeneralNames)
  | crlDistributionPoints (points : List DistributionPoint)
  | certificatePolicies (policies : List PolicyInformation)
  | deltaCrlIndicator (baseNumber : UInt64)
  | crlNumber (number : UInt64)
  | authorityInformationAccess (descriptions : List AccessDescription)
  deriving DecidableEq

namespace ExtensionValue

def kind : ExtensionValue → ExtensionKind
  | basicConstraints _ => .basicConstraints
  | keyUsage _ => .keyUsage
  | extendedKeyUsage _ => .extendedKeyUsage
  | subjectKeyIdentifier _ => .subjectKeyIdentifier
  | authorityKeyIdentifier _ => .authorityKeyIdentifier
  | subjectAlternativeName _ => .subjectAlternativeName
  | issuerAlternativeName _ => .issuerAlternativeName
  | crlDistributionPoints _ => .crlDistributionPoints
  | certificatePolicies _ => .certificatePolicies
  | deltaCrlIndicator _ => .deltaCrlIndicator
  | crlNumber _ => .crlNumber
  | authorityInformationAccess _ => .authorityInformationAccess

/-- The value of a kind that holds nothing yet. -/
def empty : ExtensionKind → ExtensionValue
  | .basicConstraints => basicConstraints .empty
  | .keyUsage => keyUsage .empty
  | .extendedKeyUsage => extendedKeyUsage []
  | .subjectKeyIdentifier => subjectKeyIdentifier []
  | .authorityKeyIdentifier => authorityKeyIdentifier .empty
  | .subjectAlternativeName => subjectAlternativeName []
  | .issuerAlternativeName => issuerAlternativeName []
  | .crlDistributionPoints => crlDistributionPoints []
  | .certificatePolicies => certificatePolicies []
  | .deltaCrlIndicator => deltaCrlIndicator 0
  | .crlNumber => crlNumber 0
  | .authorityInformationAccess => authorityInformationAccess []

/-! ## Writing -/

def toElement : ExtensionValue → Except Error Element
  | basicConstraints constraints => constraints.toElement
  | keyUsage usage => .ok (.namedBits usage.bits)
  | extendedKeyUsage purposes => do
    return .sequenceOf Oid.toElement (← purposes.mapM Identifier.toOid)
  | subjectKeyIdentifier key => .ok (.octetString key)
  | authorityKeyIdentifier key => do return (← key.toWire).toElement
  | subjectAlternativeName names | issuerAlternativeName names => do
    return Wire.GeneralNames.toElement (← GeneralNames.toWire names)
  | crlDistributionPoints points => do
    return .sequenceOf Wire.DistributionPoint.toElement (← points.mapM DistributionPoint.toWire)
  | certificatePolicies policies => do
    return .sequenceOf Wire.PolicyInformation.toElement (← policies.mapM PolicyInformation.toWire)
  | deltaCrlIndicator number | crlNumber number => .ok (CrlNumber.toElement number)
  | authorityInformationAccess descriptions => do
    return .sequenceOf Wire.AccessDescription.toElement
      (← descriptions.mapM AccessDescription.toWire)

def encode (value : ExtensionValue) : Except Error Octets := do
  Message.write (← value.toElement)

/-! ## Reading -/

/-- The value of a kind that the octets hold. -/
def decode (reg : Registry) (kind : ExtensionKind) (octets : Octets) :
    Except Error ExtensionValue :=
  match kind with
  | .basicConstraints => do
    return basicConstraints (← Message.read BasicConstraints.ofElement? octets)
  | .keyUsage => do return keyUsage ⟨← Message.read Element.namedBits? octets⟩
  | .extendedKeyUsage => do
    let oids ← Message.read (Element.sequenceOf? Oid.ofElement?) octets
    return extendedKeyUsage (oids.map reg.resolve)
  | .subjectKeyIdentifier => do
    return subjectKeyIdentifier (← Message.read Element.octetString? octets)
  | .authorityKeyIdentifier => do
    let key ← Message.read Wire.AuthorityKeyIdentifier.ofElement? octets
    return authorityKeyIdentifier (← AuthorityKeyIdentifier.ofWire reg key)
  | .subjectAlternativeName => do
    let names ← Message.read Wire.GeneralNames.ofElement? octets
    return subjectAlternativeName (← GeneralNames.ofWire reg names)
  | .issuerAlternativeName => do
    let names ← Message.read Wire.GeneralNames.ofElement? octets
    return issuerAlternativeName (← GeneralNames.ofWire reg names)
  | .crlDistributionPoints => do
    let points ← Message.read (Element.sequenceOf? Wire.DistributionPoint.ofElement?) octets
    return crlDistributionPoints (← points.mapM (DistributionPoint.ofWire reg))
  | .certificatePolicies => do
    let policies ← Message.read (Element.sequenceOf? Wire.PolicyInformation.ofElement?) octets
    return certificatePolicies (← policies.mapM (PolicyInformation.ofWire reg))
  | .deltaCrlIndicator => do
    return deltaCrlIndicator (← CrlNumber.ofNat (← Message.read Element.natural? octets))
  | .crlNumber => do
    return crlNumber (← CrlNumber.ofNat (← Message.read Element.natural? octets))
  | .authorityInformationAccess => do
    let descriptions ← Message.read (Element.sequenceOf? Wire.AccessDescription.ofElement?) octets
    return authorityInformationAccess (← descriptions.mapM (AccessDescription.ofWire reg))

/-! ## Markup -/

/-- The markup of a value by itself. A base number is written one level deeper than asked for. -/
def markup (value : ExtensionValue) (tab : String) : String :=
  let inner := Xml.indent tab
  match value with
  | basicConstraints constraints => constraints.markup tab
  | keyUsage usage => usage.markup tab
  | extendedKeyUsage purposes =>
    String.join (purposes.map fun purpose => Xml.element tab "usage" purpose.displayName)
  | subjectKeyIdentifier key => Xml.element tab "keyIdentifier" (Base64.encode key)
  | authorityKeyIdentifier key => key.markup tab
  | subjectAlternativeName names | issuerAlternativeName names => GeneralNames.markup names tab
  | crlDistributionPoints points =>
    Xml.wrap tab "distributionPoints" (String.join (points.map fun point => point.markup inner))
  | certificatePolicies policies =>
    String.join (policies.map fun policy => policy.markup tab)
  | deltaCrlIndicator number => Xml.element inner "baseCRLNumber" (toString number.toNat)
  | crlNumber number => Xml.element tab "cRLNumber" (toString number.toNat)
  | authorityInformationAccess descriptions =>
    Xml.wrap tab "accessDescriptions"
      (String.join (descriptions.map fun description => description.markup inner))

end ExtensionValue

end Pkix
