import Pkix.Der.BitString
import Pkix.Wire.GeneralName

/-!
# Distribution points on the wire

A distribution point has three optional fields with context-specific tags. Its name is either a list
of general names or a relative name, again told apart by a tag.
-/

namespace Pkix.Wire

open Der

inductive PointName where
  | full (names : GeneralNames)
  | relative (rdn : Rdn)
  deriving DecidableEq

namespace PointName

def toElement : PointName → Element
  | full names => .implicit 0 (GeneralNames.toElement names)
  | relative rdn => .implicit 1 rdn.toElement

def ofElement? (e : Element) : Option PointName := do
  match e.implicit? 0 .sequence with
  | some names => return full (← GeneralNames.ofElement? names)
  | none => return relative (← Rdn.ofElement? (← e.implicit? 1 .set))

end PointName

structure DistributionPoint where
  name : Option PointName
  reasons : Option NamedBits
  crlIssuer : Option GeneralNames
  deriving DecidableEq

namespace DistributionPoint

def toElement (p : DistributionPoint) : Element :=
  .sequence
    ((p.name.map fun name => Element.explicit 0 name.toElement).toList ++
      (p.reasons.map fun reasons => Element.implicit 1 (.namedBits reasons)).toList ++
      (p.crlIssuer.map fun names => Element.implicit 2 (GeneralNames.toElement names)).toList)

def ofElement? (e : Element) : Option DistributionPoint := do
  let (name, fields) := Element.takeContext 0 (← e.sequence?)
  let (reasons, fields) := Element.takeContext 1 fields
  let (crlIssuer, fields) := Element.takeContext 2 fields
  if fields.isEmpty then
    let name ← name.mapM fun e => do PointName.ofElement? (← e.explicit? 0)
    let reasons ← reasons.mapM fun e => do (← e.implicit? 1 .bitString).namedBits?
    let crlIssuer ← crlIssuer.mapM fun e => do GeneralNames.ofElement? (← e.implicit? 2 .sequence)
    return ⟨name, reasons, crlIssuer⟩
  else none

end DistributionPoint

end Pkix.Wire
