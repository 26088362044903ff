import Pkix.Certificate
import Pkix.RevocationList

/-!
# Markup as trees

Markup is put together as text, from lines after an indentation that is handed from one value to the
next. What stands inside what is easier told by a tree, whose lines one function prints. Each value
has such a tree, and its markup is this tree, printed after the indentation that is asked for.
-/

namespace Pkix

/-! ## Trees -/

namespace Xml

/-- A piece of markup that fills one or more whole lines. -/
inductive Node where
  /-- A text on a line of its own. -/
  | line (text : String)
  /-- An element whose text stands between its tags on one line. -/
  | leaf (name text : String)
  /-- An element with its tags on lines of their own and its children one level deeper. -/
  | block (name : String) (children : List Node)
  /-- Nodes one level deeper than their place, without tags around them. -/
  | deeper (children : List Node)

mutual

def Node.render (tab : String) : Node → String
  | .line text => Xml.line tab text
  | .leaf name text => element tab name text
  | .block name children => wrap tab name (renderAll (indent tab) children)
  | .deeper children => renderAll (indent tab) children

/-- Several nodes one after the other. -/
def renderAll (tab : String) : List Node → String
  | [] => ""
  | node :: nodes => node.render tab ++ renderAll tab nodes

end

theorem renderAll_eq_join (tab : String) (nodes : List Node) :
    renderAll tab nodes = String.join (nodes.map (Node.render tab)) := by
  induction nodes with
  | nil => rfl
  | cons node nodes ih => simp [renderAll, ih]

theorem renderAll_map {α : Type} (tab : String) (f : α → Node) (as : List α) :
    renderAll tab (as.map f) = String.join (as.map fun a => (f a).render tab) := by
  rw [renderAll_eq_join, List.map_map]
  rfl

theorem renderAll_append (tab : String) (nodes nodes' : List Node) :
    renderAll tab (nodes ++ nodes') = renderAll tab nodes ++ renderAll tab nodes' := by
  induction nodes with
  | nil => exact String.empty_append.symm
  | cons node nodes ih => rw [List.cons_append, renderAll, renderAll, ih, String.append_assoc]

theorem renderAll_singleton (tab : String) (node : Node) :
    renderAll tab [node] = node.render tab :=
  String.append_empty

theorem renderAll_ite (tab : String) (p : Prop) [Decidable p] (nodes nodes' : List Node) :
    renderAll tab (if p then nodes else nodes') =
      if p then renderAll tab nodes else renderAll tab nodes' :=
  apply_ite _ _ _ _

end Xml

open Xml

/-! ## Names -/

namespace Identifier

def toXml (x : Identifier) : Node :=
  .leaf "oid" ((x.oid?.map Oid.dotted).getD "")

theorem markup_eq_render (x : Identifier) (tab : String) : x.markup tab = x.toXml.render tab := by
  rw [toXml, Node.render, markup]

end Identifier

namespace DirectoryName

def toXml (name : DirectoryName) : Node :=
  .block "RDNSequence" (name.entries.map fun entry => .leaf entry.type.xmlName entry.value)

theorem markup_eq_render (name : DirectoryName) (tab : String) :
    name.markup tab = name.toXml.render tab := by
  simp only [toXml, Node.render, renderAll_map, markup]

end DirectoryName

namespace GeneralName

/-- What a general name shows between its tags. -/
def contentXml : GeneralName → List Node
  | undefined => []
  | otherName oid data => [.line (oid ++ " : " ++ data)]
  | rfc822Name text | dnsName text | uri text => [.line text]
  | directoryName name => [name.toXml]
  | ipAddress address => [.line address.text]
  | registeredId oid => [.line oid.displayName]

def toXml (name : GeneralName) : Node :=
  .block name.typeName name.contentXml

theorem markup_eq_render (name : GeneralName) (tab : String) :
    name.markup tab = name.toXml.render tab := by
  cases name <;>
    simp only [toXml, contentXml, Node.render, renderAll, String.append_empty, markup,
      DirectoryName.markup_eq_render]

end GeneralName

namespace GeneralNames

def toXml (names : GeneralNames) : Node :=
  .block "generalNames" (names.map GeneralName.toXml)

theorem markup_eq_render (names : GeneralNames) (tab : String) :
    names.markup tab = names.toXml.render tab := by
  simp only [toXml, Node.render, renderAll_map, markup, GeneralName.markup_eq_render]

end GeneralNames

/-! ## Policies, accesses and points -/

namespace UserNotice

def toXml (n : UserNotice) : Node :=
  .block "userNotice"
    ((if n.hasReference then
        [.block "noticeRef"
          [.leaf "organization" n.organization,
           .leaf "noticeNumbers" (" ".intercalate (n.numbers.map fun i => toString i.toInt))]]
      else []) ++
      if n.text = "" then [] else [.leaf "explicitText" n.text])

theorem markup_eq_render (n : UserNotice) (tab : String) :
    n.markup tab = n.toXml.render tab := by
  simp only [toXml, Node.render, renderAll_append, renderAll_ite, renderAll, String.append_empty,
    markup, wrap, String.append_assoc]

end UserNotice

namespace PolicyQualifier

def toXml (q : PolicyQualifier) : Node :=
  .block "policyQualifierInfo" <|
    match q with
    | undefined => []
    | cpsUri uri => [q.identifier.toXml, .leaf "cPSuri" uri]
    | userNotice notice => [q.identifier.toXml, notice.toXml]

theorem markup_eq_render (q : PolicyQualifier) (tab : String) :
    q.markup tab = q.toXml.render tab := by
  cases q <;>
    simp only [toXml, Node.render, renderAll, String.append_empty, markup,
      Identifier.markup_eq_render, UserNotice.markup_eq_render]

end PolicyQualifier

namespace PolicyInformation

def toXml (p : PolicyInformation) : Node :=
  .block "policyInformation" (p.identifier.toXml :: p.qualifiers.map PolicyQualifier.toXml)

theorem markup_eq_render (p : PolicyInformation) (tab : String) :
    p.markup tab = p.toXml.render tab := by
  simp only [toXml, Node.render, renderAll, renderAll_map, markup, Identifier.markup_eq_render,
    PolicyQualifier.markup_eq_render]

end PolicyInformation

namespace AccessDescription

def toXml (d : AccessDescription) : Node :=
  .block "accessDescription" [d.method.toXml, d.location.toXml]

theorem markup_eq_render (d : AccessDescription) (tab : String) :
    d.markup tab = d.toXml.render tab := by
  simp only [toXml, Node.render, renderAll, String.append_empty, markup,
    Identifier.markup_eq_render, GeneralName.markup_eq_render]

end AccessDescription

namespace PointName

def toXml (name : PointName) : Node :=
  .block "distributionPointName" <|
    match name with
    | undefined => [.line "undefined"]
    | full names => [GeneralNames.toXml names]
    | relative name => [name.toXml]

theorem markup_eq_render (name : PointName) (tab : String) :
    name.markup tab = name.toXml.render tab := by
  cases name <;>
    simp only [toXml, Node.render, renderAll, String.append_empty, markup,
      GeneralNames.markup_eq_render, DirectoryName.markup_eq_render]

end PointName

namespace DistributionPoint

def toXml (p : DistributionPoint) : Node :=
  let shown := ReasonFlag.all.filter fun reason => reason.isAlwaysShown || p.hasReason reason
  .block "distributionPoint"
    ((if p.name = .undefined then [] else [p.name.toXml]) ++
      [.block "reasonFlag"
        (shown.map fun reason => .leaf reason.name (Xml.flag (p.hasReason reason)))] ++
      if p.crlIssuer.isEmpty then [] else [GeneralNames.toXml p.crlIssuer])

theorem markup_eq_render (p : DistributionPoint) (tab : String) :
    p.markup tab = p.toXml.render tab := by
  simp only [toXml, Node.render, renderAll_append, renderAll_ite, renderAll_map, renderAll,
    String.append_empty, markup, PointName.markup_eq_render, GeneralNames.markup_eq_render]

end DistributionPoint

/-! ## Extensions -/

namespace BasicConstraints

def toXml (c : BasicConstraints) : List Node :=
  [.leaf "ca" (if c.ca then "true" else "false"),
   .leaf "pathLenConstraint" ((c.pathLength.map fun n => toString n.toNat).getD "-1")]

theorem markup_eq_renderAll (c : BasicConstraints) (tab : String) :
    c.markup tab = renderAll tab c.toXml := by
  simp only [toXml, Node.render, renderAll, String.append_empty, markup]

end BasicConstraints

namespace KeyUsage

def toXml (usage : KeyUsage) : List Node :=
  KeyUsageFlag.all.map fun flag => .leaf flag.name (Xml.flag (usage.has flag))

theorem markup_eq_renderAll (usage : KeyUsage) (tab : String) :
    usage.markup tab = renderAll tab usage.toXml := by
  simp only [toXml, Node.render, renderAll_map, markup]

end KeyUsage

namespace AuthorityKeyIdentifier

def toXml (a : AuthorityKeyIdentifier) : List Node :=
  (a.keyIdentifier.map fun octets => Node.leaf "keyIdentifier" (Base64.encode octets)).toList ++
    (if a.issuer.isEmpty then []
      else [.block "authorityCertIssuer" [GeneralNames.toXml a.issuer]]) ++
    (a.serial.map fun octets =>
      Node.leaf "authorityCertSerialNumber" (Hex.upper octets)).toList

theorem markup_eq_renderAll (a : AuthorityKeyIdentifier) (tab : String) :
    a.markup tab = renderAll tab a.toXml := by
  obtain ⟨key, issuer, serial⟩ := a
  cases key <;> cases serial <;>
    simp only [toXml, Node.render, renderAll_append, renderAll_ite, renderAll, Option.map_none,
      Option.map_some, Option.toList_none, Option.toList_some, Option.getD_none, Option.getD_some,
      String.append_empty, markup, GeneralNames.markup_eq_render]

end AuthorityKeyIdentifier

namespace ExtensionValue

def toXml : ExtensionValue → List Node
  | basicConstraints constraints => constraints.toXml
  | keyUsage usage => usage.toXml
  | extendedKeyUsage purposes => purposes.map fun purpose => .leaf "usage" purpose.displayName
  | subjectKeyIdentifier key => [.leaf "keyIdentifier" (Base64.encode key)]
  | authorityKeyIdentifier key => key.toXml
  | subjectAlternativeName names | issuerAlternativeName names => [GeneralNames.toXml names]
  | crlDistributionPoints points =>
    [.block "distributionPoints" (points.map DistributionPoint.toXml)]
  | certificatePolicies policies => policies.map PolicyInformation.toXml
  | deltaCrlIndicator number => [.deeper [.leaf "baseCRLNumber" (toString number.toNat)]]
  | crlNumber number => [.leaf "cRLNumber" (toString number.toNat)]
  | authorityInformationAccess descriptions =>
    [.block "accessDescriptions" (descriptions.map AccessDescription.toXml)]

theorem markup_eq_renderAll (value : ExtensionValue) (tab : String) :
    value.markup tab = renderAll tab value.toXml := by
  cases value <;>
    simp only [toXml, Node.render, renderAll_map, renderAll, String.append_empty, markup,
      BasicConstraints.markup_eq_renderAll, KeyUsage.markup_eq_renderAll,
      AuthorityKeyIdentifier.markup_eq_renderAll, GeneralNames.markup_eq_render,
      DistributionPoint.markup_eq_render, PolicyInformation.markup_eq_render,
      AccessDescription.markup_eq_render]

/-- The tree of a value inside its extension. Purposes stand in the extension itself, a key
identifier is the text of the value element, and a base number stands directly in it. -/
def inExtension : ExtensionValue → Node
  | extendedKeyUsage purposes => .deeper (extendedKeyUsage purposes).toXml
  | subjectKeyIdentifier key => .leaf "extnValue" (Base64.encode key)
  | deltaCrlIndicator number =>
    .block "extnValue" [.leaf "baseCRLNumber" (toString number.toNat)]
  | value => .block "extnValue" value.toXml

end ExtensionValue

/-- An extension with the given node below its identifier and its flag. -/
def extensionTree (name : String) (id : Identifier) (critical : Bool) (value : Node) : Node :=
  .block name
    [.leaf "extnID" id.displayName, .leaf "critical" (if critical then "yes" else "no"), value]

theorem extensionHeader_append_closeTag (tab name : String) (id : Identifier) (critical : Bool)
    (value : Node) :
    extensionHeader tab name id critical ++ value.render (indent tab) ++ closeTag tab name =
      (extensionTree name id critical value).render tab := by
  simp only [extensionTree, Node.render, renderAll, String.append_empty, extensionHeader, wrap,
    String.append_assoc]

namespace TypedExtension

def toXml (e : TypedExtension) : Node :=
  extensionTree e.kind.xmlName e.kind.identifier e.critical e.value.inExtension

theorem markup_eq_render (e : TypedExtension) (tab : String) :
    e.markup tab = e.toXml.render tab := by
  have htab : tab ++ "\t\t" = indent (indent tab) := by
    rw [indent, indent, String.append_assoc]
    rfl
  obtain ⟨critical, value⟩ := e
  rw [toXml, ← extensionHeader_append_closeTag]
  cases value <;>
    simp only [markup, ExtensionValue.inExtension, Node.render, renderAll_singleton, htab,
      extensionMarkup, extensionLine, ExtensionValue.markup_eq_renderAll, ExtensionValue.toXml]

end TypedExtension

namespace RawExtension

def toXml (e : RawExtension) : Node :=
  extensionTree "extension" e.id e.critical (.leaf "extnValue" (Base64.encode e.value))

theorem markup_eq_render (e : RawExtension) (tab : String) :
    e.markup tab = e.toXml.render tab := by
  rw [toXml, ← extensionHeader_append_closeTag, Node.render, markup, extensionLine]

end RawExtension

namespace Extension

def toXml : Extension → Node
  | typed e => e.toXml
  | unknown e => e.toXml

theorem markup_eq_render (e : Extension) (tab : String) : e.markup tab = e.toXml.render tab := by
  cases e with
  | typed e => exact e.markup_eq_render tab
  | unknown e => exact e.markup_eq_render tab

def listXml (extensions : List Extension) : Node :=
  .block "extensions" (extensions.map toXml)

theorem listMarkup_eq_render (extensions : List Extension) (tab : String) :
    listMarkup extensions tab = (listXml extensions).render tab := by
  simp only [listXml, Node.render, renderAll_map, listMarkup, markup_eq_render]

end Extension

/-! ## Values of any type -/

/-- A value of any of the types that have markup. -/
inductive Displayed where
  | identifier (x : Identifier)
  | directoryName (name : DirectoryName)
  | generalName (name : GeneralName)
  | generalNames (names : GeneralNames)
  | userNotice (notice : UserNotice)
  | policyQualifier (qualifier : PolicyQualifier)
  | policyInformation (policy : PolicyInformation)
  | accessDescription (description : AccessDescription)
  | pointName (name : PointName)
  | distributionPoint (point : DistributionPoint)
  | extension (e : Extension)
  | extensions (es : List Extension)

namespace Displayed

def markup : Displayed → String → String
  | identifier x => x.markup
  | directoryName name => name.markup
  | generalName name => name.markup
  | generalNames names => GeneralNames.markup names
  | userNotice notice => notice.markup
  | policyQualifier qualifier => qualifier.markup
  | policyInformation policy => policy.markup
  | accessDescription description => description.markup
  | pointName name => name.markup
  | distributionPoint point => point.markup
  | extension e => e.markup
  | extensions es => Extension.listMarkup es

def toXml : Displayed → Node
  | identifier x => x.toXml
  | directoryName name => name.toXml
  | generalName name => name.toXml
  | generalNames names => GeneralNames.toXml names
  | userNotice notice => notice.toXml
  | policyQualifier qualifier => qualifier.toXml
  | policyInformation policy => policy.toXml
  | accessDescription description => description.toXml
  | pointName name => name.toXml
  | distributionPoint point => point.toXml
  | extension e => e.toXml
  | extensions es => Extension.listXml es

theorem markup_eq_render (v : Displayed) (tab : String) : v.markup tab = v.toXml.render tab := by
  cases v with
  | identifier x => exact x.markup_eq_render tab
  | directoryName name => exact name.markup_eq_render tab
  | generalName name => exact name.markup_eq_render tab
  | generalNames names => exact GeneralNames.markup_eq_render names tab
  | userNotice notice => exact notice.markup_eq_render tab
  | policyQualifier qualifier => exact qualifier.markup_eq_render tab
  | policyInformation policy => exact policy.markup_eq_render tab
  | accessDescription description => exact description.markup_eq_render tab
  | pointName name => exact name.markup_eq_render tab
  | distributionPoint point => exact point.markup_eq_render tab
  | extension e => exact e.markup_eq_render tab
  | extensions es => exact Extension.listMarkup_eq_render es tab

end Displayed

end Pkix
