import Pkix.IpAddress
import Pkix.Name.DirectoryName
import Pkix.Registry
import Pkix.Wire.GeneralName

/-!
# General names

A general name has one of seven forms, or none until one is chosen. Another name is an identifier
text with a data text; its data is written as an octet string and read from any value, as text
where the value holds text and in hexadecimal otherwise.
-/

namespace Pkix

/-- A name in one of its forms. -/
inductive GeneralName where
  | undefined
  | otherName (oid data : String)
  | rfc822Name (address : String)
  | dnsName (domain : String)
  | directoryName (name : DirectoryName)
  | uri (text : String)
  | ipAddress (address : IpAddress)
  | registeredId (oid : Identifier)
  deriving DecidableEq

abbrev GeneralNames := List GeneralName

namespace GeneralName

/-- The name of a form, which is also its element name. -/
def typeName : GeneralName → String
  | undefined => "undefined"
  | otherName _ _ => "otherName"
  | rfc822Name _ => "rfc822Name"
  | dnsName _ => "dnsName"
  | directoryName _ => "directoryName"
  | uri _ => "uniformResourceIdentifier"
  | ipAddress _ => "iPAddress"
  | registeredId _ => "registeredID"

/-! ## Addresses as texts -/

/-- The address that a text denotes, in place of whatever form a name had. -/
def setIpAddress (_ : GeneralName) (text : String) : Except Error GeneralName := do
  return ipAddress (← IpAddress.parse text)

/-- The text of the address that a name holds. -/
def ipAddressText? : GeneralName → Option String
  | ipAddress address => some address.text
  | _ => none

/-! ## Markup -/

/-- The name of the form around what it holds, which is one level deeper. -/
def markup (name : GeneralName) (tab : String) : String :=
  let inner := Xml.indent tab
  Xml.wrap tab name.typeName <|
    match name with
    | undefined => ""
    | otherName oid data => Xml.line inner (oid ++ " : " ++ data)
    | rfc822Name text | dnsName text | uri text => Xml.line inner text
    | directoryName name => name.markup inner
    | ipAddress address => Xml.line inner address.text
    | registeredId oid => Xml.line inner oid.displayName

/-! ## Writing -/

/-- A text for the forms that are written in ASCII. -/
def ia5 (text : String) : Except Error String :=
  if Der.StringType.ia5.admits text then .ok text else .error (.invalidGeneralName text)

def toWire : GeneralName → Except Error Wire.GeneralName
  | undefined => .error .undefinedGeneralName
  | otherName oid data => do
    let type ← (Error.unknownIdentifier oid).ifNone (Oid.parse? oid)
    return .otherName type (.octetString (Utf8.encode data))
  | rfc822Name address => do return .rfc822Name (← ia5 address)
  | dnsName domain => do return .dnsName (← ia5 domain)
  | directoryName name => do return .directoryName (← name.toWire)
  | uri text => do return .uri (← ia5 text)
  | ipAddress address => .ok (.ipAddress address.octets)
  | registeredId oid => do return .registeredId (← oid.toOid)

/-! ## Reading -/

/-- Whether the content of an element with the given tag is taken for text. -/
def isTextTag (tag : Der.Tag) : Bool :=
  [.octetString, .utf8String, .printableString, .ia5String, .visibleString].any
    (Der.Tag.universal · = tag)

def otherNameData (value : Der.Element) : String :=
  match isTextTag value.tag, Utf8.decode? value.content with
  | true, some text => text
  | _, _ => Hex.lower value.content

def ofWire (reg : Registry) : Wire.GeneralName → Except Error GeneralName
  | .otherName type value => .ok (otherName type.dotted (otherNameData value))
  | .rfc822Name address => .ok (rfc822Name address)
  | .dnsName domain => .ok (dnsName domain)
  | .directoryName name => do return directoryName (← DirectoryName.ofWire name)
  | .ediPartyName _ _ => .error .unsupportedEdiPartyName
  | .uri text => .ok (uri text)
  | .ipAddress octets => do return ipAddress (← IpAddress.ofOctets octets)
  | .registeredId oid => .ok (registeredId (reg.resolve oid))

end GeneralName

namespace GeneralNames

def markup (names : GeneralNames) (tab : String) : String :=
  let inner := Xml.indent tab
  Xml.wrap tab "generalNames" (String.join (names.map fun name => name.markup inner))

def toWire (names : GeneralNames) : Except Error Wire.GeneralNames :=
  names.mapM GeneralName.toWire

def ofWire (reg : Registry) (names : Wire.GeneralNames) : Except Error GeneralNames :=
  names.mapM (GeneralName.ofWire reg)

end GeneralNames

end Pkix
