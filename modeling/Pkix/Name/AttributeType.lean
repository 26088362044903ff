import Pkix.Der.Text
import Pkix.Oid.Known

/-!
# Attribute types of a name

Each type has its identifier, a short name for display, an element name for markup and the string
type that its values are written in.
-/

namespace Pkix

/-- The attribute types that a name can be built from. -/
inductive AttributeType where
  | country
  | stateOrProvince
  | locality
  | organization
  | organizationUnit
  | commonName
  | email
  | dnQualifier
  | serialNumber
  | title
  | surname
  | givenName
  | initials
  | pseudonym
  | generationQualifier
  | domainComponent
  deriving DecidableEq

namespace AttributeType

def all : List AttributeType :=
  [country, stateOrProvince, locality, organization, organizationUnit, commonName, email,
   dnQualifier, serialNumber, title, surname, givenName, initials, pseudonym,
   generationQualifier, domainComponent]

def oid : AttributeType → Oid
  | country => Oid.countryName
  | stateOrProvince => Oid.stateOrProvinceName
  | locality => Oid.localityName
  | organization => Oid.organizationName
  | organizationUnit => Oid.organizationalUnitName
  | commonName => Oid.commonName
  | email => Oid.emailAddress
  | dnQualifier => Oid.dnQualifier
  | serialNumber => Oid.serialNumber
  | title => Oid.title
  | surname => Oid.surname
  | givenName => Oid.givenName
  | initials => Oid.initials
  | pseudonym => Oid.pseudonym
  | generationQualifier => Oid.generationQualifier
  | domainComponent => Oid.domainComponent

def ofOid? (oid : Oid) : Option AttributeType :=
  all.find? (·.oid = oid)

def shortName : AttributeType → String
  | country => "C"
  | stateOrProvince => "ST"
  | locality => "L"
  | organization => "O"
  | organizationUnit => "OU"
  | commonName => "CN"
  | email => "emailAddress"
  | dnQualifier => "dnQualifier"
  | serialNumber => "serialNumber"
  | title => "title"
  | surname => "SN"
  | givenName => "GN"
  | initials => "initials"
  | pseudonym => "pseudonym"
  | generationQualifier => "generationQualifier"
  | domainComponent => "DC"

def xmlName : AttributeType → String
  | country => "countryName"
  | stateOrProvince => "stateOrProvinceName"
  | locality => "localityName"
  | organization => "organizationName"
  | organizationUnit => "organizationalUnitName"
  | commonName => "commonName"
  | email => "e-mail"
  | dnQualifier => "dnQualifier"
  | serialNumber => "serialNumber"
  | title => "title"
  | surname => "surname"
  | givenName => "givenName"
  | initials => "initials"
  | pseudonym => "pseudonym"
  | generationQualifier => "generationQualifier"
  | domainComponent => "domainComponent"

/-- The string type that values of a type are written in. -/
def stringType : AttributeType → Der.StringType
  | country | dnQualifier | serialNumber => .printable
  | email | domainComponent => .ia5
  | _ => .utf8

theorem ofOid?_oid (t : AttributeType) : ofOid? t.oid = some t := by
  cases t <;> decide

end AttributeType

end Pkix
