import Pkix.Name.DirectoryName
import Pkix.Wire.Policy
import Pkix.Xml

/-!
# User notices

A user notice refers to numbered notices of an organization and holds a text to be shown. Parts
that are empty are not written, and parts that are not there are read as empty.
-/

namespace Pkix

/-- A notice to those who rely on a certificate. -/
structure UserNotice where
  organization : String
  numbers : List Int64
  text : String
  deriving DecidableEq

namespace UserNotice

def empty : UserNotice := ⟨"", [], ""⟩

/-- Whether the notice refers to notices of an organization. -/
def hasReference (n : UserNotice) : Bool :=
  n.organization != "" || !n.numbers.isEmpty

def isEmpty (n : UserNotice) : Bool :=
  !n.hasReference && n.text == ""

def setReference (n : UserNotice) (organization : String) (numbers : List Int64) : UserNotice :=
  { n with organization, numbers }

def setText (n : UserNotice) (text : String) : UserNotice :=
  { n with text }

def markup (n : UserNotice) (tab : String) : String :=
  let inner := Xml.indent tab
  let deeper := Xml.indent inner
  let numbers := " ".intercalate (n.numbers.map fun i => toString i.toInt)
  let reference :=
    if n.hasReference then
      Xml.openTag inner "noticeRef" ++ Xml.element deeper "organization" n.organization ++
        Xml.element deeper "noticeNumbers" numbers ++ Xml.closeTag inner "noticeRef"
    else ""
  let text := if n.text = "" then "" else Xml.element inner "explicitText" n.text
  Xml.wrap tab "userNotice" (reference ++ text)

def toWire (n : UserNotice) : Wire.UserNotice where
  reference := if n.hasReference then some ⟨.text .utf8 n.organization, n.numbers⟩ else none
  text := if n.text = "" then none else some (.text .utf8 n.text)

def ofWire (n : Wire.UserNotice) : Except Error UserNotice := do
  let reference ← n.reference.mapM fun r => do
    return (← DirectoryText.decode r.organization, r.numbers)
  let text ← n.text.mapM DirectoryText.decode
  let (organization, numbers) := reference.getD ("", [])
  return ⟨organization, numbers, text.getD ""⟩

/-- The notice of a qualifier value. A qualifier without a value holds the empty notice. -/
def ofQualifierValue : Option Der.Element → Except Error UserNotice
  | none => .ok empty
  | some value => do ofWire (← Error.decoding.ifNone (Wire.UserNotice.ofElement? value))

end UserNotice

end Pkix
