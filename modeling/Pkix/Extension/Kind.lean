import Pkix.Registry

/-!
# Kinds of extensions

The extensions whose values are understood. Each kind has an identifier of its own, by which its
records are recognised, and an element name.
-/

namespace Pkix

/-- A kind of extension whose value is understood. -/
inductive ExtensionKind where
  | basicConstraints
  | keyUsage
  | extendedKeyUsage
  | subjectKeyIdentifier
  | authorityKeyIdentifier
  | subjectAlternativeName
  | issuerAlternativeName
  | crlDistributionPoints
  | certificatePolicies
  | deltaCrlIndicator
  | crlNumber
  | authorityInformationAccess
  deriving DecidableEq

namespace ExtensionKind

def oid : ExtensionKind → Oid
  | basicConstraints => Oid.basicConstraints
  | keyUsage => Oid.keyUsage
  | extendedKeyUsage => Oid.extKeyUsage
  | subjectKeyIdentifier => Oid.subjectKeyIdentifier
  | authorityKeyIdentifier => Oid.authorityKeyIdentifier
  | subjectAlternativeName => Oid.subjectAltName
  | issuerAlternativeName => Oid.issuerAltName
  | crlDistributionPoints => Oid.crlDistributionPoints
  | certificatePolicies => Oid.certificatePolicies
  | deltaCrlIndicator => Oid.deltaCrlIndicator
  | crlNumber => Oid.crlNumber
  | authorityInformationAccess => Oid.authorityInfoAccess

/-- The kind that is recognised by an identifier. -/
def ofOid? (oid : Oid) : Option ExtensionKind :=
  if oid = Oid.basicConstraints then some basicConstraints
  else if oid = Oid.keyUsage then some keyUsage
  else if oid = Oid.extKeyUsage then some extendedKeyUsage
  else if oid = Oid.subjectKeyIdentifier then some subjectKeyIdentifier
  else if oid = Oid.authorityKeyIdentifier then some authorityKeyIdentifier
  else if oid = Oid.subjectAltName then some subjectAlternativeName
  else if oid = Oid.issuerAltName then some issuerAlternativeName
  else if oid = Oid.crlDistributionPoints then some crlDistributionPoints
  else if oid = Oid.certificatePolicies then some certificatePolicies
  else if oid = Oid.deltaCrlIndicator then some deltaCrlIndicator
  else if oid = Oid.crlNumber then some crlNumber
  else if oid = Oid.authorityInfoAccess then some authorityInformationAccess
  else none

/-- The identifier of a kind with its name, which is registered from the start. -/
def identifier (kind : ExtensionKind) : Identifier :=
  Registry.builtin.resolve kind.oid

def xmlName : ExtensionKind → String
  | basicConstraints => "basicConstraints"
  | keyUsage => "keyUsage"
  | extendedKeyUsage => "extendedKeyUsage"
  | subjectKeyIdentifier => "subjectKeyIdentifier"
  | authorityKeyIdentifier => "authorityKeyIdentifier"
  | subjectAlternativeName => "subjectAlternativeName"
  | issuerAlternativeName => "issuerAlternativeName"
  | crlDistributionPoints => "CRLDistributionPoints"
  | certificatePolicies => "certificatePolicies"
  | deltaCrlIndicator => "deltaCRLIndicator"
  | crlNumber => "cRLNumber"
  | authorityInformationAccess => "authorityInformationAccess"

theorem ofOid?_oid (kind : ExtensionKind) : ofOid? kind.oid = some kind := by
  cases kind <;> decide

end ExtensionKind

end Pkix
