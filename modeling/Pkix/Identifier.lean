import Pkix.Error
import Pkix.Xml

/-!
# Identifiers with their names

An object identifier together with the number and the short name that a registry gives it. The
undefined identifier holds neither octets nor a name.
-/

namespace Pkix

/-- What a registry knows about an identifier. -/
structure Label where
  nid : Int32
  name : String
  deriving DecidableEq

/-- An object identifier as it was resolved. -/
inductive Identifier where
  | undefined
  | defined (oid : Oid) (label : Option Label)
  deriving DecidableEq

namespace Identifier

/-- What is shown in place of a missing name. -/
def undefinedName : String := "undefined"

def oid? : Identifier → Option Oid
  | undefined => none
  | defined oid _ => some oid

/-- The number and name of an identifier. -/
def label? : Identifier → Option Label
  | undefined => none
  | defined _ label => label

def nid? (x : Identifier) : Option Int32 :=
  x.label?.map (·.nid)

def name (x : Identifier) : String :=
  (x.label?.map (·.name)).getD undefinedName

/-- The identifier for writing; the undefined one cannot be written. -/
def toOid (x : Identifier) : Except Error Oid :=
  Error.undefinedIdentifier.ifNone x.oid?

def dotted (x : Identifier) : Except Error String := do
  return (← x.toOid).dotted

/-- The short name where there is one, else the dotted form. -/
def displayName : Identifier → String
  | undefined => undefinedName
  | defined oid none => oid.dotted
  | defined _ (some label) => label.name

def isDefined (x : Identifier) : Bool :=
  x.oid?.isSome

/-- The dotted form as an element, empty for the undefined identifier. -/
def markup (x : Identifier) (tab : String) : String :=
  Xml.element tab "oid" ((x.oid?.map Oid.dotted).getD "")

end Identifier

end Pkix
