import Pkix.Identifier

/-!
# The registry of identifiers

A registry is a list of entries with three indexes into it, by octets, by number and by name. An
entry is found under its short and its long name. New entries are added under the next free number
and never replace what is there: `register` refuses octets and names that are registered already.
-/

namespace Pkix

structure Entry where
  oid : Oid
  nid : Int32
  shortName : String
  longName : String
  deriving DecidableEq

/-- The identifier that an entry stands for. -/
def Entry.identifier (e : Entry) : Identifier :=
  .defined e.oid (some ⟨e.nid, e.shortName⟩)

abbrev Index (κ : Type) := List (κ × Nat)

namespace Index

variable {κ : Type} [DecidableEq κ]

def find? (index : Index κ) (key : κ) : Option Nat :=
  index.lookup key

/-- The index with a position stored under a key in place of any other. -/
def assign (index : Index κ) (key : κ) (position : Nat) : Index κ :=
  (key, position) :: index.filter (·.1 ≠ key)

/-- The index with a position stored under a key unless there is one. -/
def assignNew (index : Index κ) (key : κ) (position : Nat) : Index κ :=
  if (find? index key).isSome then index else (key, position) :: index

end Index

structure Registry where
  entries : List Entry
  byOid : Index Oid
  byNid : Index Int32
  byName : Index String
  nextNid : Int32

namespace Registry

/-- The number of the first identifier that is registered. -/
def firstNid : Int32 := 10000

def empty : Registry := ⟨[], [], [], [], firstNid⟩

/-- The registry with one more entry. The entry takes over its octets and its number, and those of
its names that are free. -/
def add (r : Registry) (e : Entry) : Registry :=
  let position := r.entries.length
  { r with
    entries := r.entries ++ [e]
    byOid := Index.assign r.byOid e.oid position
    byNid := Index.assign r.byNid e.nid position
    byName := Index.assignNew (Index.assignNew r.byName e.shortName position) e.longName position }

/-- The entries that are there from the start. -/
def builtinEntries : List Entry :=
  [⟨Oid.countryName, 14, "C", "countryName"⟩,
   ⟨Oid.commonName, 13, "CN", "commonName"⟩,
   ⟨Oid.localityName, 15, "L", "localityName"⟩,
   ⟨Oid.stateOrProvinceName, 16, "ST", "stateOrProvinceName"⟩,
   ⟨Oid.organizationName, 17, "O", "organizationName"⟩,
   ⟨Oid.organizationalUnitName, 18, "OU", "organizationalUnitName"⟩,
   ⟨Oid.emailAddress, 48, "emailAddress", "emailAddress"⟩,
   ⟨Oid.dnQualifier, 174, "dnQualifier", "dnQualifier"⟩,
   ⟨Oid.serialNumber, 105, "serialNumber", "serialNumber"⟩,
   ⟨Oid.title, 106, "title", "title"⟩,
   ⟨Oid.surname, 100, "SN", "surname"⟩,
   ⟨Oid.givenName, 99, "GN", "givenName"⟩,
   ⟨Oid.initials, 101, "initials", "initials"⟩,
   ⟨Oid.pseudonym, 510, "pseudonym", "pseudonym"⟩,
   ⟨Oid.generationQualifier, 509, "generationQualifier", "generationQualifier"⟩,
   ⟨Oid.domainComponent, 391, "DC", "domainComponent"⟩,
   ⟨Oid.subjectKeyIdentifier, 82, "subjectKeyIdentifier", "X509v3 Subject Key Identifier"⟩,
   ⟨Oid.keyUsage, 83, "keyUsage", "X509v3 Key Usage"⟩,
   ⟨Oid.subjectAltName, 85, "subjectAltName", "X509v3 Subject Alternative Name"⟩,
   ⟨Oid.issuerAltName, 86, "issuerAltName", "X509v3 Issuer Alternative Name"⟩,
   ⟨Oid.basicConstraints, 87, "basicConstraints", "X509v3 Basic Constraints"⟩,
   ⟨Oid.crlNumber, 88, "crlNumber", "X509v3 CRL Number"⟩,
   ⟨Oid.deltaCrlIndicator, 140, "deltaCRL", "X509v3 Delta CRL Indicator"⟩,
   ⟨Oid.crlDistributionPoints, 103, "crlDistributionPoints", "X509v3 CRL Distribution Points"⟩,
   ⟨Oid.certificatePolicies, 89, "certificatePolicies", "X509v3 Certificate Policies"⟩,
   ⟨Oid.authorityKeyIdentifier, 90, "authorityKeyIdentifier",
     "X509v3 Authority Key Identifier"⟩,
   ⟨Oid.extKeyUsage, 126, "extendedKeyUsage", "X509v3 Extended Key Usage"⟩,
   ⟨Oid.authorityInfoAccess, 177, "authorityInfoAccess", "Authority Information Access"⟩,
   ⟨Oid.subjectInfoAccess, 398, "subjectInfoAccess", "Subject Information Access"⟩,
   ⟨Oid.anyPolicy, 746, "anyPolicy", "X509v3 Any Policy"⟩,
   ⟨Oid.qualifierCps, 164, "id-qt-cps", "Policy Qualifier CPS"⟩,
   ⟨Oid.qualifierUserNotice, 165, "id-qt-unotice", "Policy Qualifier User Notice"⟩,
   ⟨Oid.serverAuth, 129, "serverAuth", "TLS Web Server Authentication"⟩,
   ⟨Oid.clientAuth, 130, "clientAuth", "TLS Web Client Authentication"⟩,
   ⟨Oid.codeSigning, 131, "codeSigning", "Code Signing"⟩,
   ⟨Oid.emailProtection, 132, "emailProtection", "E-mail Protection"⟩,
   ⟨Oid.timeStamping, 133, "timeStamping", "Time Stamping"⟩,
   ⟨Oid.ocspSigning, 180, "OCSPSigning", "OCSP Signing"⟩,
   ⟨Oid.ocsp, 178, "OCSP", "OCSP"⟩,
   ⟨Oid.caIssuers, 179, "caIssuers", "CA Issuers"⟩,
   ⟨Oid.rsaEncryption, 6, "rsaEncryption", "rsaEncryption"⟩,
   ⟨Oid.sha256WithRsaEncryption, 668, "RSA-SHA256", "sha256WithRSAEncryption"⟩,
   ⟨Oid.ecPublicKey, 408, "id-ecPublicKey", "id-ecPublicKey"⟩,
   ⟨Oid.ecdsaWithSha256, 794, "ecdsa-with-SHA256", "ecdsa-with-SHA256"⟩,
   ⟨Oid.ed25519, 1087, "ED25519", "ED25519"⟩,
   ⟨Oid.sha1, 64, "SHA1", "sha1"⟩,
   ⟨Oid.sha256, 672, "SHA256", "sha256"⟩]

/-- The registry that nothing was registered in. -/
def builtin : Registry :=
  builtinEntries.foldl add empty

/-! ## Looking up -/

/-- The entry at a position that an index gave. -/
def entry? (r : Registry) (position : Option Nat) : Option Entry :=
  position.bind (r.entries[·]?)

/-- The identifier of the given octets, with its name if it has one here. -/
def resolve (r : Registry) (oid : Oid) : Identifier :=
  match r.entry? (r.byOid.find? oid) with
  | some e => e.identifier
  | none => .defined oid none

/-- The identifier that a text stands for: its dotted form, or one of its names. -/
def find (r : Registry) (text : String) : Except Error Identifier :=
  match Oid.parse? text with
  | some oid => .ok (r.resolve oid)
  | none =>
    (Error.unknownIdentifier text).ifNone ((r.entry? (r.byName.find? text)).map Entry.identifier)

def findNid (r : Registry) (nid : Int32) : Except Error Identifier :=
  (Error.unknownNid nid).ifNone ((r.entry? (r.byNid.find? nid)).map Entry.identifier)

/-! ## Registering -/

/-- The registry with an identifier registered under a name, which is its short and its long
name. -/
def register (r : Registry) (dotted name : String) : Except Error (Identifier × Registry) := do
  let oid ← (Error.unknownIdentifier dotted).ifNone (Oid.parse? dotted)
  if name = "" then .error (.emptyIdentifierName dotted)
  else if (r.byOid.find? oid).isSome then .error (.alreadyRegistered dotted)
  else if (r.byName.find? name).isSome then .error (.alreadyRegistered name)
  else
    let e : Entry := ⟨oid, r.nextNid, name, name⟩
    .ok (e.identifier, { r.add e with nextNid := r.nextNid + 1 })

end Registry

end Pkix
