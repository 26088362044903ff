import Pkix.Der.Scalar
import Pkix.Error
import Pkix.Xml

/-!
# Basic constraints

Whether the subject is an authority, and how many authorities may follow it. Written, the length has
to fit one octet.
-/

namespace Pkix

open Der

/-- The content of a basic constraints extension. -/
structure BasicConstraints where
  ca : Bool
  pathLength : Option UInt32
  deriving DecidableEq

namespace BasicConstraints

/-- The constraints of a subject that is no authority. -/
def empty : BasicConstraints := ⟨false, none⟩

/-- The markup of the content; a missing length is shown as `-1`. -/
def markup (c : BasicConstraints) (tab : String) : String :=
  let length := (c.pathLength.map fun n => toString n.toNat).getD "-1"
  Xml.element tab "ca" (if c.ca then "true" else "false") ++
    Xml.element tab "pathLenConstraint" length

/-- The element of the content. A flag that is false is left out. -/
def toElement (c : BasicConstraints) : Except Error Element := do
  let pathLength ← c.pathLength.mapM fun n =>
    if n < 256 then .ok (Element.integer n.toNat) else .error (.invalidPathLength n)
  return .sequence ((if c.ca then [.boolean true] else []) ++ pathLength.toList)

/-- The length of an element: a natural number that fits one octet. -/
def pathLengthOfElement? (e : Element) : Option UInt32 := do
  let n ← e.natural?
  if n < 256 then some (UInt32.ofNat n) else none

def ofElement? (e : Element) : Option BasicConstraints := do
  let (ca, rest) := Element.takeTagged [.universal .boolean] (← e.sequence?)
  let ca ← ca.mapM Element.boolean?
  match rest with
  | [] => return ⟨ca.getD false, none⟩
  | [length] => return ⟨ca.getD false, some (← pathLengthOfElement? length)⟩
  | _ => none

end BasicConstraints

end Pkix
