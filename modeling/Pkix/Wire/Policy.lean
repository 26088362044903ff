import Pkix.Der.Scalar
import Pkix.Oid.Basic

/-!
# Policies on the wire

A policy is an identifier with an optional list of qualifiers, and a qualifier an identifier with an
optional value. The value of a user notice qualifier is a structure of its own, whose parts are told
apart by their tags.
-/

namespace Pkix.Wire

open Der

structure PolicyQualifier where
  id : Oid
  value : Option Element
  deriving DecidableEq

namespace PolicyQualifier

def toElement (q : PolicyQualifier) : Element :=
  .sequence (q.id.toElement :: q.value.toList)

def ofElement? (e : Element) : Option PolicyQualifier := do
  match ← e.sequence? with
  | [id] => return ⟨← Oid.ofElement? id, none⟩
  | [id, value] => return ⟨← Oid.ofElement? id, some value⟩
  | _ => none

end PolicyQualifier

structure PolicyInformation where
  id : Oid
  qualifiers : Option (List PolicyQualifier)
  deriving DecidableEq

namespace PolicyInformation

def toElement (p : PolicyInformation) : Element :=
  .sequence (p.id.toElement ::
    (p.qualifiers.map (Element.sequenceOf PolicyQualifier.toElement)).toList)

def ofElement? (e : Element) : Option PolicyInformation := do
  match ← e.sequence? with
  | [id] => return ⟨← Oid.ofElement? id, none⟩
  | [id, qualifiers] =>
    return ⟨← Oid.ofElement? id, some (← qualifiers.sequenceOf? PolicyQualifier.ofElement?)⟩
  | _ => none

end PolicyInformation

/-! ## User notices -/

def int64Element (n : Int64) : Element :=
  .integer n.toInt

def int64OfElement? (e : Element) : Option Int64 := do
  let z ← e.integer?
  let n := Int64.ofInt z
  if n.toInt = z then some n else none

/-- The notices of an organization that a user notice refers to. -/
structure NoticeReference where
  organization : Element
  numbers : List Int64
  deriving DecidableEq

namespace NoticeReference

def toElement (r : NoticeReference) : Element :=
  .sequence [r.organization, .sequenceOf int64Element r.numbers]

def ofElement? (e : Element) : Option NoticeReference := do
  match ← e.sequence? with
  | [organization, numbers] => return ⟨organization, ← numbers.sequenceOf? int64OfElement?⟩
  | _ => none

end NoticeReference

structure UserNotice where
  reference : Option NoticeReference
  text : Option Element
  deriving DecidableEq

namespace UserNotice

def toElement (n : UserNotice) : Element :=
  .sequence ((n.reference.map NoticeReference.toElement).toList ++ n.text.toList)

/-- The user notice of an element. The first part is the reference exactly if it is a sequence. -/
def ofElement? (e : Element) : Option UserNotice := do
  let (reference, rest) := Element.takeTagged [.universal .sequence] (← e.sequence?)
  let reference ← reference.mapM NoticeReference.ofElement?
  match rest with
  | [] => return ⟨reference, none⟩
  | [text] => return ⟨reference, some text⟩
  | _ => none

end UserNotice

end Pkix.Wire
