import Pkix.Der.Scalar
import Pkix.Der.Text
import Pkix.Wire.Name

/-!
# General names on the wire

A general name is one of eight forms, told apart by a context-specific tag. The forms keep the
constructed bit of the type they stand for; directory names and the strings of EDI party names have
their own tag inside. A description of an access is a general name with a method.
-/

namespace Pkix.Wire

open Der

/-- A text in one of the string types of directories. -/
structure DirectoryString where
  type : StringType
  text : String
  deriving DecidableEq

namespace DirectoryString

def toElement (s : DirectoryString) : Element :=
  .text s.type s.text

def ofElement? (e : Element) : Option DirectoryString := do
  let type ← [.printable, .teletex, .utf8].find? (Tag.universal ·.universal = e.tag)
  return ⟨type, ← e.text? type⟩

end DirectoryString

/-- A name in one of its forms. -/
inductive GeneralName where
  | otherName (type : Oid) (value : Element)
  | rfc822Name (address : String)
  | dnsName (domain : String)
  | directoryName (name : Name)
  | ediPartyName (assigner : Option DirectoryString) (party : DirectoryString)
  | uri (text : String)
  | ipAddress (octets : Octets)
  | registeredId (oid : Oid)
  deriving DecidableEq

abbrev GeneralNames := List GeneralName

namespace GeneralName

def toElement : GeneralName → Element
  | otherName type value => .implicit 0 (.sequence [type.toElement, .explicit 0 value])
  | rfc822Name address => .implicit 1 (.text .ia5 address)
  | dnsName domain => .implicit 2 (.text .ia5 domain)
  | directoryName name => .explicit 4 name.toElement
  | ediPartyName assigner party =>
    .implicit 5 (.sequence
      ((assigner.map fun s => Element.explicit 0 s.toElement).toList ++
        [.explicit 1 party.toElement]))
  | uri text => .implicit 6 (.text .ia5 text)
  | ipAddress octets => .implicit 7 (.octetString octets)
  | registeredId oid => .implicit 8 oid.toElement

/-- The other name of a sequence of an identifier and a tagged value. -/
def otherName? (e : Element) : Option GeneralName := do
  match ← e.sequence? with
  | [type, value] => return otherName (← Oid.ofElement? type) (← value.explicit? 0)
  | _ => none

/-- The EDI party name of a sequence of its two tagged strings, of which the first may be missing.
No field is passed over: the party is required, so its tag has to be the next one. -/
def ediPartyName? (e : Element) : Option GeneralName := do
  match ← e.sequence? with
  | [party] => return ediPartyName none (← DirectoryString.ofElement? (← party.explicit? 1))
  | [assigner, party] =>
    return ediPartyName (← DirectoryString.ofElement? (← assigner.explicit? 0))
      (← DirectoryString.ofElement? (← party.explicit? 1))
  | _ => none

def ofElement? (e : Element) : Option GeneralName := do
  match e.tag with
  | .other .contextSpecific _ n =>
    match n.val with
    | 0 => otherName? (← e.implicit? 0 .sequence)
    | 1 => return rfc822Name (← (← e.implicit? 1 .ia5String).text? .ia5)
    | 2 => return dnsName (← (← e.implicit? 2 .ia5String).text? .ia5)
    | 4 => return directoryName (← Name.ofElement? (← e.explicit? 4))
    | 5 => ediPartyName? (← e.implicit? 5 .sequence)
    | 6 => return uri (← (← e.implicit? 6 .ia5String).text? .ia5)
    | 7 => return ipAddress (← (← e.implicit? 7 .octetString).octetString?)
    | 8 => return registeredId (← Oid.ofElement? (← e.implicit? 8 .objectIdentifier))
    | _ => none
  | _ => none

end GeneralName

namespace GeneralNames

def toElement (names : GeneralNames) : Element :=
  .sequenceOf GeneralName.toElement names

def ofElement? (e : Element) : Option GeneralNames :=
  e.sequenceOf? GeneralName.ofElement?

end GeneralNames

/-- A method of access with the place it leads to. -/
structure AccessDescription where
  method : Oid
  location : GeneralName
  deriving DecidableEq

namespace AccessDescription

def toElement (d : AccessDescription) : Element :=
  .sequence [d.method.toElement, d.location.toElement]

def ofElement? (e : Element) : Option AccessDescription := do
  match ← e.sequence? with
  | [method, location] => return ⟨← Oid.ofElement? method, ← GeneralName.ofElement? location⟩
  | _ => none

end AccessDescription

end Pkix.Wire
