import Pkix.Error
import Pkix.Wire.Name
import Pkix.Xml

/-!
# Directory names

A directory name is a list of typed texts. It is written either as a name with one attribute to a
relative name, which keeps the order, or as a single relative name, which is a set. When a name is
read, the attributes are looked at one after the other, and those of other types are passed over.
-/

namespace Pkix

/-- The text of an element whose string type only its tag tells. The eight-bit string types are read
as UTF-8, whatever alphabet they are meant for. -/
def DirectoryText.decode (e : Der.Element) : Except Error String :=
  match e.tag with
  | .universal .utf8String | .universal .printableString | .universal .ia5String
  | .universal .visibleString | .universal .teletexString =>
    Error.decoding.ifNone (Utf8.decode? e.content)
  | .universal .bmpString => Error.decoding.ifNone ((Der.decodeBmp? e.content).map String.ofList)
  | tag => .error (.unsupportedText tag)

structure NameEntry where
  type : AttributeType
  value : String
  deriving DecidableEq

namespace NameEntry

/-- The attribute of an entry, provided that its string type admits the value. -/
def toWire (entry : NameEntry) : Except Error Wire.Attribute :=
  if entry.type.stringType.admits entry.value then
    .ok ⟨entry.type.oid, .text entry.type.stringType entry.value⟩
  else .error (.invalidAttributeValue entry.type entry.value)

end NameEntry

structure DirectoryName where
  entries : List NameEntry
  deriving DecidableEq

namespace DirectoryName

def empty : DirectoryName := ⟨[]⟩

/-- The name with one more entry at its end. -/
def add (name : DirectoryName) (type : AttributeType) (value : String) : DirectoryName :=
  ⟨name.entries ++ [⟨type, value⟩]⟩

/-- The name with one more entry of a type for each of the values. -/
def addMany (name : DirectoryName) (type : AttributeType) (values : List String) : DirectoryName :=
  ⟨name.entries ++ values.map (⟨type, ·⟩)⟩

/-- The values of a type, in order. -/
def valuesOf (name : DirectoryName) (type : AttributeType) : List String :=
  (name.entries.filter (·.type = type)).map (·.value)

def markup (name : DirectoryName) (tab : String) : String :=
  let inner := Xml.indent tab
  Xml.wrap tab "RDNSequence" <|
    String.join (name.entries.map fun entry => Xml.element inner entry.type.xmlName entry.value)

/-! ## Reading attributes -/

/-- The name with the entry that an attribute holds, if its type is known. -/
def appendAttribute (name : DirectoryName) (a : Wire.Attribute) : Except Error DirectoryName :=
  match AttributeType.ofOid? a.type with
  | some type => do return name.add type (← DirectoryText.decode a.value)
  | none => .ok name

/-- The name with the entries of a relative name, in the order of the set. -/
def appendRdn (name : DirectoryName) (rdn : Wire.Rdn) : Except Error DirectoryName :=
  rdn.attributes.foldlM appendAttribute name

/-! ## Written as a name -/

/-- The name with a relative name for each entry. -/
def toWire (name : DirectoryName) : Except Error Wire.Name :=
  name.entries.mapM fun entry => do return .singleton (← entry.toWire)

def ofWire (name : Wire.Name) : Except Error DirectoryName :=
  name.foldlM appendRdn empty

/-! ## Written as a relative name -/

/-- The relative name of all entries; equal entries cannot be written. -/
def toRdn (name : DirectoryName) : Except Error Wire.Rdn := do
  Error.encoding.ifNone (Wire.Rdn.ofList? (← name.entries.mapM NameEntry.toWire))

/-- The entries of a relative name. -/
def ofRdn (rdn : Wire.Rdn) : Except Error DirectoryName :=
  empty.appendRdn rdn

end DirectoryName

end Pkix
