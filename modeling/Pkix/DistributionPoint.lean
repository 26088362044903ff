import Pkix.Name.GeneralName
import Pkix.Wire.DistributionPoint

/-!
# Distribution points

A distribution point says where a revocation list is published, which reasons of revocation it
covers and who issues it. Each of the three is left out of the written form when it is undefined or
empty; a name can be there and hold no names, which is written.
-/

namespace Pkix

inductive PointName where
  | undefined
  | full (names : GeneralNames)
  | relative (name : DirectoryName)
  deriving DecidableEq

namespace PointName

def markup (name : PointName) (tab : String) : String :=
  let inner := Xml.indent tab
  Xml.wrap tab "distributionPointName" <|
    match name with
    | undefined => Xml.line inner "undefined"
    | full names => GeneralNames.markup names inner
    | relative name => name.markup inner

def toWire : PointName → Except Error Wire.PointName
  | undefined => .error .undefinedPointName
  | full names => do return .full (← GeneralNames.toWire names)
  | relative name => do return .relative (← name.toRdn)

def ofWire (reg : Registry) : Wire.PointName → Except Error PointName
  | .full names => do return full (← GeneralNames.ofWire reg names)
  | .relative rdn => do return relative (← DirectoryName.ofRdn rdn)

end PointName

inductive ReasonFlag where
  | unused
  | keyCompromise
  | caCompromise
  | affiliationChanged
  | superseded
  | cessationOfOperation
  | certificateHold
  | privilegeWithdrawn
  | aaCompromise
  deriving DecidableEq

namespace ReasonFlag

/-- Every reason, in the order of their bits. -/
def all : List ReasonFlag :=
  [unused, keyCompromise, caCompromise, affiliationChanged, superseded, cessationOfOperation,
   certificateHold, privilegeWithdrawn, aaCompromise]

def bit : ReasonFlag → Nat
  | unused => 0
  | keyCompromise => 1
  | caCompromise => 2
  | affiliationChanged => 3
  | superseded => 4
  | cessationOfOperation => 5
  | certificateHold => 6
  | privilegeWithdrawn => 7
  | aaCompromise => 8

def name : ReasonFlag → String
  | unused => "unused"
  | keyCompromise => "keyCompromise"
  | caCompromise => "caCompromise"
  | affiliationChanged => "affiliationChanged"
  | superseded => "superseded"
  | cessationOfOperation => "cessationOfOperation"
  | certificateHold => "certificateHold"
  | privilegeWithdrawn => "privilegeWithdrawn"
  | aaCompromise => "aACompromise"

/-- Whether a reason is shown when it is not set. -/
def isAlwaysShown : ReasonFlag → Bool
  | privilegeWithdrawn | aaCompromise => false
  | _ => true

end ReasonFlag

/-- A place where a revocation list is published. -/
structure DistributionPoint where
  name : PointName
  reasons : Der.NamedBits
  crlIssuer : GeneralNames
  deriving DecidableEq

namespace DistributionPoint

/-- The point of which nothing is known. -/
def empty : DistributionPoint := ⟨.undefined, 0, []⟩

def hasReason (p : DistributionPoint) (reason : ReasonFlag) : Bool :=
  p.reasons.contains reason.bit

/-- The point with a reason set or cleared. -/
def setReason (p : DistributionPoint) (reason : ReasonFlag) (present : Bool) : DistributionPoint :=
  { p with reasons := p.reasons.assign reason.bit present }

def markup (p : DistributionPoint) (tab : String) : String :=
  let inner := Xml.indent tab
  let name := if p.name = .undefined then "" else p.name.markup inner
  let deeper := Xml.indent inner
  let shown := ReasonFlag.all.filter fun reason => reason.isAlwaysShown || p.hasReason reason
  let flags := String.join <| shown.map fun reason =>
    Xml.element deeper reason.name (Xml.flag (p.hasReason reason))
  let issuer := if p.crlIssuer.isEmpty then "" else GeneralNames.markup p.crlIssuer inner
  Xml.wrap tab "distributionPoint" (name ++ Xml.wrap inner "reasonFlag" flags ++ issuer)

def toWire (p : DistributionPoint) : Except Error Wire.DistributionPoint := do
  let name ← if p.name = .undefined then pure none else some <$> p.name.toWire
  let crlIssuer ←
    if p.crlIssuer.isEmpty then pure none else some <$> GeneralNames.toWire p.crlIssuer
  return ⟨name, if p.reasons = 0 then none else some p.reasons, crlIssuer⟩

def ofWire (reg : Registry) (p : Wire.DistributionPoint) : Except Error DistributionPoint := do
  let name ← p.name.mapM (PointName.ofWire reg)
  let crlIssuer ← p.crlIssuer.mapM (GeneralNames.ofWire reg)
  return ⟨name.getD .undefined, p.reasons.getD 0, crlIssuer.getD []⟩

end DistributionPoint

end Pkix
