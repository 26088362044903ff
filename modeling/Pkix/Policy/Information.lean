import Pkix.Policy.Qualifier

/-!
# Policies

A policy is an identifier with its qualifiers in order. A policy without qualifiers is written
without a list of them.
-/

namespace Pkix

structure PolicyInformation where
  identifier : Identifier
  qualifiers : List PolicyQualifier
  deriving DecidableEq

namespace PolicyInformation

/-- The policy that was not chosen yet. -/
def empty : PolicyInformation := ⟨.undefined, []⟩

def addQualifier (p : PolicyInformation) (q : PolicyQualifier) : PolicyInformation :=
  { p with qualifiers := p.qualifiers ++ [q] }

def markup (p : PolicyInformation) (tab : String) : String :=
  let inner := Xml.indent tab
  let qualifiers := String.join (p.qualifiers.map fun q => q.markup inner)
  Xml.wrap tab "policyInformation" (p.identifier.markup inner ++ qualifiers)

def toWire (p : PolicyInformation) : Except Error Wire.PolicyInformation := do
  let qualifiers ← p.qualifiers.mapM PolicyQualifier.toWire
  let id ← p.identifier.toOid
  return ⟨id, if qualifiers.isEmpty then none else some qualifiers⟩

def ofWire (reg : Registry) (p : Wire.PolicyInformation) : Except Error PolicyInformation := do
  let qualifiers ← (p.qualifiers.getD []).mapM PolicyQualifier.ofWire
  return ⟨reg.resolve p.id, qualifiers⟩

end PolicyInformation

end Pkix
