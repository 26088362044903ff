import Pkix.Extension.Value
import Pkix.Wire.Extension

/-!
# Extensions

An extension is a value with a flag that tells whether it may be ignored. Records whose identifier
belongs to no known kind are kept as they are; a record of a known kind whose value cannot be read
is an error.
-/

namespace Pkix

/-! ## Markup around a value -/

/-- The opening tag of an extension with its identifier and its flag. -/
def extensionHeader (tab name : String) (id : Identifier) (critical : Bool) : String :=
  let inner := Xml.indent tab
  Xml.openTag tab name ++ Xml.element inner "extnID" id.displayName ++
    Xml.element inner "critical" (if critical then "yes" else "no")

/-- An extension around the markup of its value, which stands two levels deeper. -/
def extensionMarkup (tab name : String) (id : Identifier) (critical : Bool) (value : String) :
    String :=
  extensionHeader tab name id critical ++ Xml.wrap (Xml.indent tab) "extnValue" value ++
    Xml.closeTag tab name

/-- An extension with a short text for its value. -/
def extensionLine (tab name : String) (id : Identifier) (critical : Bool) (text : String) :
    String :=
  extensionHeader tab name id critical ++ Xml.element (Xml.indent tab) "extnValue" text ++
    Xml.closeTag tab name

/-! ## Extensions of known kinds -/

structure TypedExtension where
  critical : Bool
  value : ExtensionValue
  deriving DecidableEq

namespace TypedExtension

def kind (e : TypedExtension) : ExtensionKind := e.value.kind

def toRecord (e : TypedExtension) : Except Error Wire.Extension := do
  return ⟨e.kind.oid, e.critical, ← e.value.encode⟩

/-- The extension of a record, which has to carry the identifier of the kind. -/
def ofRecord (reg : Registry) (kind : ExtensionKind) (r : Wire.Extension) :
    Except Error TypedExtension :=
  if r.id = kind.oid then do return ⟨r.critical, ← ExtensionValue.decode reg kind r.value⟩
  else .error (.extensionMismatch kind.oid r.id)

/-- The markup of an extension. Purposes stand in the extension itself, a key identifier is the text
of the value element, and a base number is handed an indentation one level less deep. -/
def markup (e : TypedExtension) (tab : String) : String :=
  let name := e.kind.xmlName
  let id := e.kind.identifier
  match e.value with
  | .extendedKeyUsage purposes =>
    extensionHeader tab name id e.critical ++
      (ExtensionValue.extendedKeyUsage purposes).markup (tab ++ "\t\t") ++ Xml.closeTag tab name
  | .subjectKeyIdentifier key => extensionLine tab name id e.critical (Base64.encode key)
  | .deltaCrlIndicator number =>
    extensionMarkup tab name id e.critical
      ((ExtensionValue.deltaCrlIndicator number).markup (Xml.indent tab))
  | value => extensionMarkup tab name id e.critical (value.markup (tab ++ "\t\t"))

end TypedExtension

/-- An extension whose value is kept as octets. -/
structure RawExtension where
  id : Identifier
  critical : Bool
  value : Octets
  deriving DecidableEq

namespace RawExtension

def toRecord (e : RawExtension) : Except Error Wire.Extension := do
  let id ← e.id.toOid
  if e.value.length ≤ Der.maxLength then .ok ⟨id, e.critical, e.value⟩ else .error .encoding

def ofRecord (reg : Registry) (r : Wire.Extension) : RawExtension :=
  ⟨reg.resolve r.id, r.critical, r.value⟩

def markup (e : RawExtension) (tab : String) : String :=
  extensionLine tab "extension" e.id e.critical (Base64.encode e.value)

end RawExtension

/-- An extension found in a certificate or in a revocation list. -/
inductive Extension where
  | typed (e : TypedExtension)
  | unknown (e : RawExtension)
  deriving DecidableEq

namespace Extension

def kind? : Extension → Option ExtensionKind
  | typed e => some e.kind
  | unknown _ => none

def identifier : Extension → Identifier
  | typed e => e.kind.identifier
  | unknown e => e.id

/-- Whether the extension must not be ignored. -/
def isCritical : Extension → Bool
  | typed e => e.critical
  | unknown e => e.critical

def toRecord : Extension → Except Error Wire.Extension
  | typed e => e.toRecord
  | unknown e => e.toRecord

def ofRecord (reg : Registry) (r : Wire.Extension) : Except Error Extension :=
  match ExtensionKind.ofOid? r.id with
  | some kind => do return typed (← TypedExtension.ofRecord reg kind r)
  | none => .ok (unknown (RawExtension.ofRecord reg r))

def markup : Extension → String → String
  | typed e => e.markup
  | unknown e => e.markup

/-- The extensions of a list of records. -/
def ofRecords (reg : Registry) (records : List Wire.Extension) : Except Error (List Extension) :=
  records.mapM (ofRecord reg)

/-- The extension of a kind in a list of records: that of the first record with its identifier. -/
def find (reg : Registry) (kind : ExtensionKind) (records : List Wire.Extension) :
    Except Error (Option TypedExtension) :=
  (records.find? (·.id = kind.oid)).mapM (TypedExtension.ofRecord reg kind)

/-- The markup of a list of extensions. -/
def listMarkup (extensions : List Extension) (tab : String) : String :=
  let inner := Xml.indent tab
  Xml.wrap tab "extensions" (String.join (extensions.map fun e => e.markup inner))

end Extension

end Pkix
