import Pkix.Name.AttributeType
import Pkix.Text.Quoted

/-!
# Errors

An error is the cause of a refusal, with the values that its message shows. `kind` groups the causes
and `message` words them; what does not follow the DER rules is a decoding error without further
detail, and what cannot be written is an encoding error. Whole messages are written and read with
these two.
-/

namespace Pkix

inductive Error where
  /-- A text is neither a dotted identifier nor a registered name. -/
  | unknownIdentifier (text : String)
  /-- The octets of the undefined identifier were asked for. -/
  | undefinedIdentifier
  /-- No registered identifier has this number. -/
  | unknownNid (nid : Int32)
  /-- An identifier or a name is registered already. -/
  | alreadyRegistered (text : String)
  /-- An identifier was to be registered under the empty name. -/
  | emptyIdentifierName (dotted : String)
  /-- An extension record carries another identifier than expected. -/
  | extensionMismatch (expected found : Oid)
  /-- A general name without a form was to be written. -/
  | undefinedGeneralName
  /-- A policy qualifier without a form was to be written. -/
  | undefinedQualifier
  /-- A distribution point name without a form was to be written. -/
  | undefinedPointName
  /-- A text stands under a tag that is no string type. -/
  | unsupportedText (tag : Der.Tag)
  /-- A general name names an EDI party. -/
  | unsupportedEdiPartyName
  /-- A policy qualifier has an unknown identifier. -/
  | unsupportedQualifier (oid : Oid)
  /-- A list number has more than eight octets. -/
  | unsupportedCrlNumber (length : Nat)
  /-- A name entry does not fit the string type of its attribute. -/
  | invalidAttributeValue (type : AttributeType) (value : String)
  /-- A general name does not fit its string type. -/
  | invalidGeneralName (value : String)
  /-- A statement URI does not fit its string type. -/
  | invalidCpsUri (uri : String)
  /-- A text is not an IP address. -/
  | invalidIpText (text : String)
  /-- A string of octets is not an IP address. -/
  | invalidIpLength (length : Nat)
  /-- A path length does not fit one octet. -/
  | invalidPathLength (length : UInt32)
  /-- An armoured block has another label than expected. -/
  | unexpectedLabel (expected found : String)
  /-- A value cannot be written. -/
  | encoding
  /-- Octets or armour are malformed. -/
  | decoding
  deriving DecidableEq

inductive ErrorKind where
  | invalidObjectIdentifier
  | undefinedObjectIdentifier
  | unknownNid
  | alreadyRegistered
  | extensionMismatch
  | undefinedValue
  | unsupportedValue
  | invalidInput
  | encodingError
  | decodingError
  deriving DecidableEq

namespace Error

def kind : Error → ErrorKind
  | unknownIdentifier _ => .invalidObjectIdentifier
  | undefinedIdentifier => .undefinedObjectIdentifier
  | unknownNid _ => .unknownNid
  | alreadyRegistered _ => .alreadyRegistered
  | extensionMismatch _ _ => .extensionMismatch
  | undefinedGeneralName | undefinedQualifier | undefinedPointName => .undefinedValue
  | unsupportedText _ | unsupportedEdiPartyName | unsupportedQualifier _
  | unsupportedCrlNumber _ => .unsupportedValue
  | emptyIdentifierName _ | invalidAttributeValue _ _ | invalidGeneralName _ | invalidCpsUri _
  | invalidIpText _ | invalidIpLength _ | invalidPathLength _
  | unexpectedLabel _ _ => .invalidInput
  | encoding => .encodingError
  | decoding => .decodingError

/-- What a message says about a value that its string type does not admit. -/
def malformedText (type : Der.StringType) : String :=
  "malformed ASN.1 DER value for " ++ type.universal.name

/-- What an error is about, without the words for its kind. -/
def detail : Error → String
  | unknownIdentifier text => text
  | undefinedIdentifier => ""
  | unknownNid nid => toString nid
  | alreadyRegistered text => text
  | emptyIdentifierName dotted => "empty name for object identifier " ++ dotted
  | extensionMismatch expected found => "expected " ++ expected.dotted ++ ", found " ++ found.dotted
  | undefinedGeneralName => "general name type"
  | undefinedQualifier => "policy qualifier type"
  | undefinedPointName => "distribution point name"
  | unsupportedText tag => "text value tagged " ++ tag.describe
  | unsupportedEdiPartyName => "EDI party general name"
  | unsupportedQualifier oid => "policy qualifier " ++ oid.dotted
  | unsupportedCrlNumber length => "CRL number of " ++ toString length ++ " bytes"
  | invalidAttributeValue type value =>
    type.shortName ++ " value " ++ Quoted.encode value ++ ": " ++ malformedText type.stringType
  | invalidGeneralName value => Quoted.encode value ++ " is not IA5: " ++ malformedText .ia5
  | invalidCpsUri uri => "CPS URI " ++ Quoted.encode uri ++ ": " ++ malformedText .ia5
  | invalidIpText text => text ++ ": invalid IP address syntax"
  | invalidIpLength length => "IP address of " ++ toString length ++ " bytes"
  | invalidPathLength length =>
    "path length " ++ toString length.toNat ++ " does not fit the encoding"
  | unexpectedLabel expected found =>
    "expected a " ++ expected ++ " PEM block, found " ++ found
  | encoding => ""
  | decoding => ""

def message (e : Error) : String :=
  match e.kind with
  | .invalidObjectIdentifier => "Invalid object identifier: " ++ e.detail
  | .undefinedObjectIdentifier => "Object identifier is undefined"
  | .unknownNid => "Unknown object identifier id: " ++ e.detail
  | .alreadyRegistered => "Object identifier already registered: " ++ e.detail
  | .extensionMismatch => "Extension mismatch: " ++ e.detail
  | .undefinedValue => "Undefined value: " ++ e.detail
  | .unsupportedValue => "Unsupported value: " ++ e.detail
  | .invalidInput => "Invalid input: " ++ e.detail
  | .encodingError => "Failed to encode data"
  | .decodingError => "Failed to decode data"

/-- The value of an option, or the error where there is none. -/
def ifNone (e : Error) : Option α → Except Error α
  | some a => .ok a
  | none => .error e

end Error

/-! ## Whole messages -/

namespace Message

/-- The octets of a message; one that is too long cannot be written. -/
def write (e : Der.Element) : Except Error Octets :=
  Error.encoding.ifNone (Der.encode? e)

/-- The value of octets that are one element of the expected structure. -/
def read (ofElement? : Der.Element → Option α) (octets : Octets) : Except Error α :=
  Error.decoding.ifNone (Der.decode? ofElement? octets)

end Message

end Pkix
