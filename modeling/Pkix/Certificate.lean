import Pkix.Extension.Basic
import Pkix.Pem
import Pkix.Sha1
import Pkix.Wire.Certificate

/-!
# Certificates

What can be asked of a certificate: its two names, its extensions, all of them or one of a kind, and
the identifier of its key.
-/

namespace Pkix

/-- The key identifier of a public key: the hash of its octets. -/
def Wire.PublicKeyInfo.keyIdentifier (k : Wire.PublicKeyInfo) : Octets :=
  Sha1.hash k.key.octets

abbrev Certificate := Wire.Certificate

namespace Certificate

def toDer (c : Certificate) : Except Error Octets :=
  Message.write c.toElement

def ofDer (octets : Octets) : Except Error Certificate :=
  Message.read Wire.Certificate.ofElement? octets

def toPem (c : Certificate) : Except Error String := do
  return Pem.encode Pem.certificateLabel (← c.toDer)

def ofPem (text : String) : Except Error Certificate := do
  ofDer (← Pem.decode Pem.certificateLabel text)

def subject (c : Certificate) : Except Error DirectoryName :=
  DirectoryName.ofWire c.tbs.subject

def issuer (c : Certificate) : Except Error DirectoryName :=
  DirectoryName.ofWire c.tbs.issuer

def serialNumber (c : Certificate) : Octets :=
  c.tbs.serial

def records (c : Certificate) : List Wire.Extension :=
  c.tbs.extensions.getD []

/-- All extensions, in order. -/
def extensions (reg : Registry) (c : Certificate) : Except Error (List Extension) :=
  Extension.ofRecords reg c.records

/-- The extension of a kind, if there is one. -/
def extension (reg : Registry) (c : Certificate) (kind : ExtensionKind) :
    Except Error (Option TypedExtension) :=
  Extension.find reg kind c.records

def keyIdentifier (c : Certificate) : Octets :=
  c.tbs.publicKey.keyIdentifier

def markup (reg : Registry) (c : Certificate) (tab : String) : Except Error String := do
  return Extension.listMarkup (← c.extensions reg) tab

end Certificate

end Pkix
