import Pkix.Extension.Basic
import Pkix.Pem
import Pkix.Wire.RevocationList

/-!
# Revocation lists

What can be asked of a revocation list: its issuer, the serial numbers it revokes, and its
extensions, all of them or one of a kind.
-/

namespace Pkix

/-- A revocation list in its written form. -/
abbrev RevocationList := Wire.RevocationList

namespace RevocationList

def toDer (l : RevocationList) : Except Error Octets :=
  Message.write l.toElement

/-- The revocation list that the octets hold. -/
def ofDer (octets : Octets) : Except Error RevocationList :=
  Message.read Wire.RevocationList.ofElement? octets

/-- The armoured text of a revocation list. -/
def toPem (l : RevocationList) : Except Error String := do
  return Pem.encode Pem.crlLabel (← l.toDer)

/-- The revocation list of an armoured text. -/
def ofPem (text : String) : Except Error RevocationList := do
  ofDer (← Pem.decode Pem.crlLabel text)

def issuer (l : RevocationList) : Except Error DirectoryName :=
  DirectoryName.ofWire l.tbs.issuer

/-- The serial numbers of the revoked certificates, in order. -/
def revokedSerialNumbers (l : RevocationList) : List Octets :=
  (l.tbs.revoked.getD []).map (·.serial)

def records (l : RevocationList) : List Wire.Extension :=
  l.tbs.extensions.getD []

/-- All extensions, in order. -/
def extensions (reg : Registry) (l : RevocationList) : Except Error (List Extension) :=
  Extension.ofRecords reg l.records

/-- The extension of a kind, if there is one. -/
def extension (reg : Registry) (l : RevocationList) (kind : ExtensionKind) :
    Except Error (Option TypedExtension) :=
  Extension.find reg kind l.records

/-- Whether the list only updates another one. -/
def isDelta (l : RevocationList) : Bool :=
  l.records.any (·.id = Oid.deltaCrlIndicator)

def markup (reg : Registry) (l : RevocationList) (tab : String) : Except Error String := do
  return Extension.listMarkup (← l.extensions reg) tab

end RevocationList

end Pkix
