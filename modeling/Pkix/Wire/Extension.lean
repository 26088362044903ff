import Pkix.Der.Scalar
import Pkix.Oid.Basic

/-!
# Extension records

An extension on the wire is an identifier, a flag and an octet string that holds the encoded value.
The flag is left out when it is false, and accepted when it is not.
-/

namespace Pkix.Wire

open Der

/-- An extension whose value is not looked into. -/
structure Extension where
  id : Oid
  critical : Bool
  value : Octets
  deriving DecidableEq

namespace Extension

def toElement (r : Extension) : Element :=
  .sequence
    (r.id.toElement :: (if r.critical then [.boolean true] else []) ++ [.octetString r.value])

def ofElement? (e : Element) : Option Extension := do
  match ← e.sequence? with
  | [id, value] => return ⟨← Oid.ofElement? id, false, ← value.octetString?⟩
  | [id, critical, value] =>
    return ⟨← Oid.ofElement? id, ← critical.boolean?, ← value.octetString?⟩
  | _ => none

end Extension

end Pkix.Wire
