import Pkix.Name.GeneralName

/-!
# Access descriptions

How and where information about an issuer or a subject can be had.
-/

namespace Pkix

/-- A method of access with the place it leads to. -/
structure AccessDescription where
  method : Identifier
  location : GeneralName
  deriving DecidableEq

namespace AccessDescription

/-- The description that was not filled in yet. -/
def empty : AccessDescription := ⟨.undefined, .undefined⟩

def markup (d : AccessDescription) (tab : String) : String :=
  let inner := Xml.indent tab
  Xml.wrap tab "accessDescription" (d.method.markup inner ++ d.location.markup inner)

def toWire (d : AccessDescription) : Except Error Wire.AccessDescription := do
  return ⟨← d.method.toOid, ← d.location.toWire⟩

def ofWire (reg : Registry) (d : Wire.AccessDescription) : Except Error AccessDescription := do
  return ⟨reg.resolve d.method, ← GeneralName.ofWire reg d.location⟩

end AccessDescription

end Pkix
