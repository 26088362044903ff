import Pkix.Oid.Basic

/-!
# Assigned identifiers

The identifiers of attribute types, extensions, policy qualifiers, key purposes, access methods and
algorithms that this library has names for.
-/

namespace Pkix.Oid

/-! ## Arcs that others stand under -/

/-- An attribute type of X.520, `2.5.4.n`. -/
def attributeType (n : UInt8) : Oid := ⟨[0x55, 0x04, n]⟩

/-- A certificate or list extension, `2.5.29.n`. -/
def certificateExtension (n : UInt8) : Oid := ⟨[0x55, 0x1d, n]⟩

def pkix (arcs : Octets) : Oid := ⟨[0x2b, 0x06, 0x01, 0x05, 0x05, 0x07] ++ arcs⟩

/-- A key purpose, `1.3.6.1.5.5.7.3.n`. -/
def keyPurpose (n : UInt8) : Oid := pkix [3, n]

/-- An access method, `1.3.6.1.5.5.7.48.n`. -/
def accessMethod (n : UInt8) : Oid := pkix [48, n]

/-! ## Attribute types -/

def commonName : Oid := attributeType 3
def surname : Oid := attributeType 4
def serialNumber : Oid := attributeType 5
def countryName : Oid := attributeType 6
def localityName : Oid := attributeType 7
def stateOrProvinceName : Oid := attributeType 8
def organizationName : Oid := attributeType 10
def organizationalUnitName : Oid := attributeType 11
def title : Oid := attributeType 12
def givenName : Oid := attributeType 42
def initials : Oid := attributeType 43
def generationQualifier : Oid := attributeType 44
def dnQualifier : Oid := attributeType 46
def pseudonym : Oid := attributeType 65

/-- `1.2.840.113549.1.9.1` -/
def emailAddress : Oid := ⟨[0x2a, 0x86, 0x48, 0x86, 0xf7, 0x0d, 0x01, 0x09, 0x01]⟩

/-- `0.9.2342.19200300.100.1.25` -/
def domainComponent : Oid := ⟨[0x09, 0x92, 0x26, 0x89, 0x93, 0xf2, 0x2c, 0x64, 0x01, 0x19]⟩

/-! ## Extensions -/

def subjectKeyIdentifier : Oid := certificateExtension 14
def keyUsage : Oid := certificateExtension 15
def subjectAltName : Oid := certificateExtension 17
def issuerAltName : Oid := certificateExtension 18
def basicConstraints : Oid := certificateExtension 19
def crlNumber : Oid := certificateExtension 20
def deltaCrlIndicator : Oid := certificateExtension 27
def crlDistributionPoints : Oid := certificateExtension 31
def certificatePolicies : Oid := certificateExtension 32
def authorityKeyIdentifier : Oid := certificateExtension 35
def extKeyUsage : Oid := certificateExtension 37
def authorityInfoAccess : Oid := pkix [1, 1]
def subjectInfoAccess : Oid := pkix [1, 11]

/-! ## Policies and their qualifiers -/

/-- `2.5.29.32.0` -/
def anyPolicy : Oid := ⟨[0x55, 0x1d, 0x20, 0x00]⟩
def qualifierCps : Oid := pkix [2, 1]
def qualifierUserNotice : Oid := pkix [2, 2]

/-! ## Key purposes and access methods -/

def serverAuth : Oid := keyPurpose 1
def clientAuth : Oid := keyPurpose 2
def codeSigning : Oid := keyPurpose 3
def emailProtection : Oid := keyPurpose 4
def timeStamping : Oid := keyPurpose 8
def ocspSigning : Oid := keyPurpose 9
def ocsp : Oid := accessMethod 1
def caIssuers : Oid := accessMethod 2

/-! ## Algorithms -/

/-- `1.2.840.113549.1.1.1` -/
def rsaEncryption : Oid := ⟨[0x2a, 0x86, 0x48, 0x86, 0xf7, 0x0d, 0x01, 0x01, 0x01]⟩

/-- `1.2.840.113549.1.1.11` -/
def sha256WithRsaEncryption : Oid := ⟨[0x2a, 0x86, 0x48, 0x86, 0xf7, 0x0d, 0x01, 0x01, 0x0b]⟩

/-- `1.2.840.10045.2.1` -/
def ecPublicKey : Oid := ⟨[0x2a, 0x86, 0x48, 0xce, 0x3d, 0x02, 0x01]⟩

/-- `1.2.840.10045.4.3.2` -/
def ecdsaWithSha256 : Oid := ⟨[0x2a, 0x86, 0x48, 0xce, 0x3d, 0x04, 0x03, 0x02]⟩

/-- `1.3.101.112` -/
def ed25519 : Oid := ⟨[0x2b, 0x65, 0x70]⟩

/-- `1.3.14.3.2.26` -/
def sha1 : Oid := ⟨[0x2b, 0x0e, 0x03, 0x02, 0x1a]⟩

/-- `2.16.840.1.101.3.4.2.1` -/
def sha256 : Oid := ⟨[0x60, 0x86, 0x48, 0x01, 0x65, 0x03, 0x04, 0x02, 0x01]⟩

end Pkix.Oid
