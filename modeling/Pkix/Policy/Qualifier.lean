import Pkix.Policy.UserNotice
import Pkix.Registry

/-!
# Policy qualifiers

A qualifier points to a certification practice statement or holds a user notice.
-/

namespace Pkix

inductive PolicyQualifier where
  | undefined
  | cpsUri (uri : String)
  | userNotice (notice : UserNotice)
  deriving DecidableEq

namespace PolicyQualifier

/-- The URI of a statement pointer, empty for other qualifiers. -/
def uri : PolicyQualifier → String
  | cpsUri uri => uri
  | _ => ""

/-- The notice of a qualifier, empty for other qualifiers. -/
def notice : PolicyQualifier → UserNotice
  | userNotice notice => notice
  | _ => UserNotice.empty

/-- The identifier of a form of qualifiers, which is registered from the start. -/
def identifier : PolicyQualifier → Identifier
  | undefined => .undefined
  | cpsUri _ => Registry.builtin.resolve Oid.qualifierCps
  | userNotice _ => Registry.builtin.resolve Oid.qualifierUserNotice

def markup (q : PolicyQualifier) (tab : String) : String :=
  let inner := Xml.indent tab
  Xml.wrap tab "policyQualifierInfo" <|
    match q with
    | undefined => ""
    | cpsUri uri => q.identifier.markup inner ++ Xml.element inner "cPSuri" uri
    | userNotice notice => q.identifier.markup inner ++ notice.markup inner

def toWire : PolicyQualifier → Except Error Wire.PolicyQualifier
  | undefined => .error .undefinedQualifier
  | cpsUri uri =>
    if Der.StringType.ia5.admits uri then .ok ⟨Oid.qualifierCps, some (.text .ia5 uri)⟩
    else .error (.invalidCpsUri uri)
  | userNotice notice => .ok ⟨Oid.qualifierUserNotice, some notice.toWire.toElement⟩

/-- The qualifier of a written form. A statement pointer without a value has the empty URI. -/
def ofWire (q : Wire.PolicyQualifier) : Except Error PolicyQualifier :=
  if q.id = Oid.qualifierCps then
    match q.value with
    | none => .ok (cpsUri "")
    | some value => do return cpsUri (← DirectoryText.decode value)
  else if q.id = Oid.qualifierUserNotice then do
    return userNotice (← UserNotice.ofQualifierValue q.value)
  else .error (.unsupportedQualifier q.id)

/-- The qualifier that may be there: none is read as the undefined one. -/
def ofWire? : Option Wire.PolicyQualifier → Except Error PolicyQualifier
  | none => .ok undefined
  | some q => ofWire q

end PolicyQualifier

end Pkix
