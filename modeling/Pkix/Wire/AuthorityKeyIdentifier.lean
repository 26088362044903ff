import Pkix.Wire.GeneralName
import Pkix.Wire.SerialNumber

/-!
# Authority key identifiers on the wire

A key is identified by octets or by the issuer and the serial number of a certificate; each of the
three parts is optional and has a context-specific tag.
-/

namespace Pkix.Wire

open Der

/-- What identifies the key of an issuer. -/
structure AuthorityKeyIdentifier where
  keyIdentifier : Option Octets
  issuer : Option GeneralNames
  serial : Option SerialNumber
  deriving DecidableEq

namespace AuthorityKeyIdentifier

def toElement (a : AuthorityKeyIdentifier) : Element :=
  .sequence
    ((a.keyIdentifier.map fun octets => Element.implicit 0 (.octetString octets)).toList ++
      (a.issuer.map fun names => Element.implicit 1 (GeneralNames.toElement names)).toList ++
      (a.serial.map fun serial => Element.implicit 2 (SerialNumber.toElement serial)).toList)

def ofElement? (e : Element) : Option AuthorityKeyIdentifier := do
  let (keyIdentifier, fields) := Element.takeContext 0 (← e.sequence?)
  let (issuer, fields) := Element.takeContext 1 fields
  let (serial, fields) := Element.takeContext 2 fields
  if fields.isEmpty then
    let keyIdentifier ← keyIdentifier.mapM fun e => do (← e.implicit? 0 .octetString).octetString?
    let issuer ← issuer.mapM fun e => do GeneralNames.ofElement? (← e.implicit? 1 .sequence)
    let serial ← serial.mapM fun e => do SerialNumber.ofElement? (← e.implicit? 2 .integer)
    return ⟨keyIdentifier, issuer, serial⟩
  else none

end AuthorityKeyIdentifier

end Pkix.Wire
