import Pkix.Proofs.Registry.Lookup
import Pkix.Proofs.Text.Plain
import Pkix.Proofs.Xml.Tree

/-!
# What markup shows

Markup shows the texts that a value holds and the names that its identifiers are registered under
between tags with fixed names; everything else in it is plain. So a character that is not plain
stands in the markup of a value only if it stands in one of these texts.
-/

namespace Pkix

/-! ## Markup without a character -/

namespace Xml

def isTagCharacter (c : Char) : Bool := c.isAlphanum || c == '-'

/-- Whether a text is fit for the name of an element: letters, digits and hyphens. -/
def IsTagName (name : String) : Prop := name.toList.all isTagCharacter = true

instance : DecidablePred IsTagName := fun _ => inferInstanceAs (Decidable (_ = true))

theorem IsTagName.not_mem {name : String} (h : IsTagName name) {c : Char}
    (hc : isTagCharacter c = false) : c ∉ name.toList := by
  intro hmem
  rw [List.all_eq_true.mp h c hmem] at hc
  cases hc

/-- Whether the tags of a node have fit names and its texts do without a character. -/
inductive Node.Avoids (c : Char) : Node → Prop
  | line {text : String} : c ∉ text.toList → Avoids c (.line text)
  | leaf {name text : String} : IsTagName name → c ∉ text.toList → Avoids c (.leaf name text)
  | block {name : String} {children : List Node} :
      IsTagName name → (∀ child ∈ children, Avoids c child) → Avoids c (.block name children)
  | deeper {children : List Node} :
      (∀ child ∈ children, Avoids c child) → Avoids c (.deeper children)

theorem Node.Avoids.block_map {α : Type} {c : Char} {name : String} {f : α → Node} {as : List α}
    (hname : IsTagName name) (h : ∀ a ∈ as, (f a).Avoids c) :
    (Node.block name (as.map f)).Avoids c :=
  .block hname (List.forall_mem_map.mpr h)

theorem Node.Avoids.pair {c : Char} {first second : Node} (hfirst : first.Avoids c)
    (hsecond : second.Avoids c) : ∀ node ∈ [first, second], node.Avoids c :=
  List.forall_mem_cons.mpr ⟨hfirst, List.forall_mem_singleton.mpr hsecond⟩

theorem not_mem_indent {c : Char} {tab : String} (hc : c ≠ '\t') (h : c ∉ tab.toList) :
    c ∉ (indent tab).toList := by
  have htab : c ∉ "\t".toList := by simpa using hc
  rw [indent, String.toList_append, List.mem_append]
  exact not_or.mpr ⟨h, htab⟩

theorem isPlain_flag (b : Bool) : IsPlain (flag b) := by
  cases b <;> decide

end Xml

open Xml

/-- Whether none of some texts holds a character. -/
def Lack (texts : List String) (c : Char) : Prop := ∀ t ∈ texts, c ∉ t.toList

instance (texts : List String) (c : Char) : Decidable (Lack texts c) :=
  inferInstanceAs (Decidable (∀ t ∈ texts, c ∉ t.toList))

theorem lack_singleton {t : String} {c : Char} : Lack [t] c ↔ c ∉ t.toList := by
  simp [Lack]

theorem lack_cons {t : String} {ts : List String} {c : Char} :
    Lack (t :: ts) c ↔ c ∉ t.toList ∧ Lack ts c :=
  List.forall_mem_cons

theorem lack_append {ts us : List String} {c : Char} :
    Lack (ts ++ us) c ↔ Lack ts c ∧ Lack us c :=
  List.forall_mem_append

theorem Lack.of_flatMap {α : Type} {c : Char} {f : α → List String} {as : List α}
    (h : Lack (as.flatMap f) c) {a : α} (ha : a ∈ as) : Lack (f a) c :=
  fun t ht => h t (List.mem_flatMap_of_mem ha ht)

/-! ## Texts of values -/

namespace Identifier

/-- The name that an identifier is shown by, if it is registered. -/
def texts (x : Identifier) : List String := (x.label?.map (·.name)).toList

variable {c : Char} {x : Identifier}

theorem not_mem_displayName (hc : isPlain c = false) (h : Lack x.texts c) :
    c ∉ x.displayName.toList := by
  cases x with
  | undefined => exact IsPlain.not_mem (by decide) hc
  | defined oid label =>
      cases label with
      | none => exact oid.isPlain_dotted.not_mem hc
      | some label => exact h label.name (List.mem_singleton_self _)

theorem avoids_toXml (x : Identifier) (hc : isPlain c = false) : x.toXml.Avoids c := by
  refine .leaf (by decide) ?_
  cases x with
  | undefined => exact IsPlain.not_mem (by decide) hc
  | defined oid label => exact oid.isPlain_dotted.not_mem hc

end Identifier

theorem AttributeType.isTagName_xmlName (t : AttributeType) : IsTagName t.xmlName := by
  cases t <;> decide

namespace DirectoryName

def texts (name : DirectoryName) : List String := name.entries.map (·.value)

theorem avoids_toXml {c : Char} {name : DirectoryName} (h : Lack name.texts c) :
    name.toXml.Avoids c := by
  refine .block_map (by decide) fun entry hentry => ?_
  exact .leaf entry.type.isTagName_xmlName (h entry.value (List.mem_map_of_mem hentry))

end DirectoryName

namespace GeneralName

/-- The texts of a name; those of an other name are its identifier text and its data. -/
def texts : GeneralName → List String
  | undefined | ipAddress _ => []
  | otherName oid data => [oid, data]
  | rfc822Name text | dnsName text | uri text => [text]
  | directoryName name => name.texts
  | registeredId oid => oid.texts

theorem isTagName_typeName (name : GeneralName) : IsTagName name.typeName := by
  cases name <;> simp only [typeName] <;> decide

variable {c : Char} {name : GeneralName}

theorem avoids_contentXml (hc : isPlain c = false) (h : Lack name.texts c) :
    ∀ node ∈ name.contentXml, node.Avoids c := by
  cases name with
  | undefined => simp [contentXml]
  | otherName oid data =>
      obtain ⟨hoid, hdata⟩ := lack_cons.mp h
      refine List.forall_mem_singleton.mpr (.line ?_)
      have hmiddle : c ∉ " : ".toList := IsPlain.not_mem (by decide) hc
      simp only [String.toList_append, List.mem_append]
      exact not_or.mpr ⟨not_or.mpr ⟨hoid, hmiddle⟩, lack_singleton.mp hdata⟩
  | rfc822Name text => exact List.forall_mem_singleton.mpr (.line (lack_singleton.mp h))
  | dnsName text => exact List.forall_mem_singleton.mpr (.line (lack_singleton.mp h))
  | directoryName name => exact List.forall_mem_singleton.mpr (DirectoryName.avoids_toXml h)
  | uri text => exact List.forall_mem_singleton.mpr (.line (lack_singleton.mp h))
  | ipAddress address =>
      exact List.forall_mem_singleton.mpr (.line (address.isPlain_text.not_mem hc))
  | registeredId oid =>
      exact List.forall_mem_singleton.mpr (.line (Identifier.not_mem_displayName hc h))

theorem avoids_toXml (hc : isPlain c = false) (h : Lack name.texts c) : name.toXml.Avoids c :=
  .block name.isTagName_typeName (avoids_contentXml hc h)

end GeneralName

namespace GeneralNames

def texts (names : GeneralNames) : List String := names.flatMap GeneralName.texts

theorem avoids_toXml {c : Char} {names : GeneralNames} (hc : isPlain c = false)
    (h : Lack (texts names) c) : (toXml names).Avoids c :=
  .block_map (by decide) fun _ hname => GeneralName.avoids_toXml hc (h.of_flatMap hname)

end GeneralNames

namespace UserNotice

def texts (n : UserNotice) : List String := [n.organization, n.text]

theorem avoids_toXml {c : Char} {n : UserNotice} (hc : isPlain c = false) (h : Lack n.texts c) :
    n.toXml.Avoids c := by
  obtain ⟨horganization, htext⟩ := lack_cons.mp h
  have hnumbers : IsPlain (" ".intercalate (n.numbers.map fun i => toString i.toInt)) := by
    refine IsPlain.intercalate (by decide) fun t ht => ?_
    obtain ⟨i, -, rfl⟩ := List.mem_map.mp ht
    exact isPlain_intCast i.toInt
  refine .block (by decide) (List.forall_mem_append.mpr ⟨?_, ?_⟩)
  · split
    · refine List.forall_mem_singleton.mpr (.block (by decide) (.pair ?_ ?_))
      · exact .leaf (by decide) horganization
      · exact .leaf (by decide) (hnumbers.not_mem hc)
    · exact List.forall_mem_nil _
  · split
    · exact List.forall_mem_nil _
    · exact List.forall_mem_singleton.mpr (.leaf (by decide) (lack_singleton.mp htext))

end UserNotice

namespace PolicyQualifier

def texts : PolicyQualifier → List String
  | undefined => []
  | cpsUri uri => [uri]
  | userNotice notice => notice.texts

theorem avoids_toXml {c : Char} {q : PolicyQualifier} (hc : isPlain c = false)
    (h : Lack q.texts c) : q.toXml.Avoids c := by
  refine .block (by decide) ?_
  cases q with
  | undefined => exact List.forall_mem_nil _
  | cpsUri uri =>
      exact .pair (Identifier.avoids_toXml _ hc) (.leaf (by decide) (lack_singleton.mp h))
  | userNotice notice =>
      exact .pair (Identifier.avoids_toXml _ hc) (UserNotice.avoids_toXml hc h)

end PolicyQualifier

namespace PolicyInformation

/-- The texts of the qualifiers; the identifier of a policy is shown in its dotted form. -/
def texts (p : PolicyInformation) : List String := p.qualifiers.flatMap PolicyQualifier.texts

theorem avoids_toXml {c : Char} {p : PolicyInformation} (hc : isPlain c = false)
    (h : Lack p.texts c) : p.toXml.Avoids c := by
  refine .block (by decide) (List.forall_mem_cons.mpr ⟨p.identifier.avoids_toXml hc, ?_⟩)
  exact List.forall_mem_map.mpr fun q hq => PolicyQualifier.avoids_toXml hc (h.of_flatMap hq)

end PolicyInformation

namespace AccessDescription

/-- The texts of the location; the method is shown in its dotted form. -/
def texts (d : AccessDescription) : List String := d.location.texts

theorem avoids_toXml {c : Char} {d : AccessDescription} (hc : isPlain c = false)
    (h : Lack d.texts c) : d.toXml.Avoids c :=
  .block (by decide) (.pair (d.method.avoids_toXml hc) (GeneralName.avoids_toXml hc h))

end AccessDescription

namespace PointName

def texts : PointName → List String
  | undefined => []
  | full names => GeneralNames.texts names
  | relative name => name.texts

theorem avoids_toXml {c : Char} {name : PointName} (hc : isPlain c = false)
    (h : Lack name.texts c) : name.toXml.Avoids c := by
  refine .block (by decide) ?_
  cases name with
  | undefined => exact List.forall_mem_singleton.mpr (.line (IsPlain.not_mem (by decide) hc))
  | full names => exact List.forall_mem_singleton.mpr (GeneralNames.avoids_toXml hc h)
  | relative name => exact List.forall_mem_singleton.mpr (DirectoryName.avoids_toXml h)

end PointName

namespace DistributionPoint

def texts (p : DistributionPoint) : List String := p.name.texts ++ GeneralNames.texts p.crlIssuer

theorem avoids_toXml {c : Char} {p : DistributionPoint} (hc : isPlain c = false)
    (h : Lack p.texts c) : p.toXml.Avoids c := by
  obtain ⟨hname, hissuer⟩ := lack_append.mp h
  have hreason (reason : ReasonFlag) : IsTagName reason.name := by
    cases reason <;> decide
  refine .block (by decide)
    (List.forall_mem_append.mpr ⟨List.forall_mem_append.mpr ⟨?_, ?_⟩, ?_⟩)
  · split
    · exact List.forall_mem_nil _
    · exact List.forall_mem_singleton.mpr (PointName.avoids_toXml hc hname)
  · refine List.forall_mem_singleton.mpr (.block_map (by decide) fun reason _ => ?_)
    exact .leaf (hreason reason) ((isPlain_flag _).not_mem hc)
  · split
    · exact List.forall_mem_nil _
    · exact List.forall_mem_singleton.mpr (GeneralNames.avoids_toXml hc hissuer)

end DistributionPoint

/-! ## Texts of extensions -/

namespace BasicConstraints

theorem avoids_toXml {c : Char} (constraints : BasicConstraints) (hc : isPlain c = false) :
    ∀ node ∈ constraints.toXml, node.Avoids c := by
  obtain ⟨ca, pathLength⟩ := constraints
  have hca : IsPlain (if ca then "true" else "false") := by
    cases ca <;> decide
  have hlength : IsPlain ((pathLength.map fun n => toString n.toNat).getD "-1") := by
    cases pathLength with
    | none => decide
    | some n => exact isPlain_natCast n.toNat
  exact .pair (.leaf (by decide) (hca.not_mem hc)) (.leaf (by decide) (hlength.not_mem hc))

end BasicConstraints

namespace KeyUsage

theorem avoids_toXml {c : Char} (usage : KeyUsage) (hc : isPlain c = false) :
    ∀ node ∈ usage.toXml, node.Avoids c := by
  have hname (flag : KeyUsageFlag) : IsTagName flag.name := by
    cases flag <;> decide
  exact List.forall_mem_map.mpr fun flag _ => .leaf (hname flag) ((isPlain_flag _).not_mem hc)

end KeyUsage

namespace AuthorityKeyIdentifier

def texts (key : AuthorityKeyIdentifier) : List String := GeneralNames.texts key.issuer

theorem avoids_toXml {c : Char} {key : AuthorityKeyIdentifier} (hc : isPlain c = false)
    (h : Lack key.texts c) : ∀ node ∈ key.toXml, node.Avoids c := by
  obtain ⟨keyIdentifier, issuer, serial⟩ := key
  refine List.forall_mem_append.mpr ⟨List.forall_mem_append.mpr ⟨?_, ?_⟩, ?_⟩
  · cases keyIdentifier with
    | none => exact List.forall_mem_nil _
    | some octets =>
        refine List.forall_mem_singleton.mpr (.leaf (by decide) ?_)
        exact (Base64.isPlain_encode octets).not_mem hc
  · split
    · exact List.forall_mem_nil _
    · refine List.forall_mem_singleton.mpr (.block (by decide) ?_)
      exact List.forall_mem_singleton.mpr (GeneralNames.avoids_toXml hc h)
  · cases serial with
    | none => exact List.forall_mem_nil _
    | some octets =>
        refine List.forall_mem_singleton.mpr (.leaf (by decide) ?_)
        exact (Hex.isPlain_upper octets).not_mem hc

end AuthorityKeyIdentifier

namespace ExtensionValue

/-- The texts of a value; purposes of a key are shown by their names. -/
def texts : ExtensionValue → List String
  | extendedKeyUsage purposes => purposes.flatMap Identifier.texts
  | authorityKeyIdentifier key => key.texts
  | subjectAlternativeName names | issuerAlternativeName names => GeneralNames.texts names
  | crlDistributionPoints points => points.flatMap DistributionPoint.texts
  | certificatePolicies policies => policies.flatMap PolicyInformation.texts
  | authorityInformationAccess descriptions => descriptions.flatMap AccessDescription.texts
  | basicConstraints _ | keyUsage _ | subjectKeyIdentifier _ | deltaCrlIndicator _ | crlNumber _ =>
    []

variable {c : Char} {value : ExtensionValue}

theorem avoids_toXml (hc : isPlain c = false) (h : Lack value.texts c) :
    ∀ node ∈ value.toXml, node.Avoids c := by
  cases value with
  | basicConstraints constraints => exact constraints.avoids_toXml hc
  | keyUsage usage => exact usage.avoids_toXml hc
  | extendedKeyUsage purposes =>
      refine List.forall_mem_map.mpr fun purpose hpurpose => .leaf (by decide) ?_
      exact Identifier.not_mem_displayName hc (h.of_flatMap hpurpose)
  | subjectKeyIdentifier key =>
      refine List.forall_mem_singleton.mpr (.leaf (by decide) ?_)
      exact (Base64.isPlain_encode key).not_mem hc
  | authorityKeyIdentifier key => exact AuthorityKeyIdentifier.avoids_toXml hc h
  | subjectAlternativeName names =>
      exact List.forall_mem_singleton.mpr (GeneralNames.avoids_toXml hc h)
  | issuerAlternativeName names =>
      exact List.forall_mem_singleton.mpr (GeneralNames.avoids_toXml hc h)
  | crlDistributionPoints points =>
      refine List.forall_mem_singleton.mpr (.block_map (by decide) fun point hpoint => ?_)
      exact DistributionPoint.avoids_toXml hc (h.of_flatMap hpoint)
  | certificatePolicies policies =>
      refine List.forall_mem_map.mpr fun policy hpolicy => ?_
      exact PolicyInformation.avoids_toXml hc (h.of_flatMap hpolicy)
  | deltaCrlIndicator number =>
      refine List.forall_mem_singleton.mpr (.deeper (List.forall_mem_singleton.mpr ?_))
      exact .leaf (by decide) ((isPlain_natCast _).not_mem hc)
  | crlNumber number =>
      exact List.forall_mem_singleton.mpr (.leaf (by decide) ((isPlain_natCast _).not_mem hc))
  | authorityInformationAccess descriptions =>
      refine List.forall_mem_singleton.mpr (.block_map (by decide) fun description hmem => ?_)
      exact AccessDescription.avoids_toXml hc (h.of_flatMap hmem)

theorem avoids_inExtension (hc : isPlain c = false) (h : Lack value.texts c) :
    value.inExtension.Avoids c := by
  have hvalue := avoids_toXml hc h
  cases value with
  | extendedKeyUsage purposes => exact .deeper hvalue
  | subjectKeyIdentifier key => exact .leaf (by decide) ((Base64.isPlain_encode key).not_mem hc)
  | deltaCrlIndicator number =>
      refine .block (by decide) (List.forall_mem_singleton.mpr ?_)
      exact .leaf (by decide) ((isPlain_natCast _).not_mem hc)
  | basicConstraints | keyUsage | authorityKeyIdentifier | subjectAlternativeName
  | issuerAlternativeName | crlDistributionPoints | certificatePolicies | crlNumber
  | authorityInformationAccess => exact .block (by decide) hvalue

end ExtensionValue

theorem avoids_extensionTree {c : Char} {name : String} {id : Identifier} {value : Node}
    (critical : Bool) (hc : isPlain c = false) (hname : IsTagName name)
    (hid : c ∉ id.displayName.toList) (hvalue : value.Avoids c) :
    (extensionTree name id critical value).Avoids c := by
  have hcritical : IsPlain (if critical then "yes" else "no") := by
    cases critical <;> decide
  refine .block hname (List.forall_mem_cons.mpr ⟨.leaf (by decide) hid, .pair ?_ hvalue⟩)
  exact .leaf (by decide) (hcritical.not_mem hc)

/-- The kinds are registered under plain names, as is all that is there from the start. -/
theorem ExtensionKind.isPlain_displayName (kind : ExtensionKind) :
    IsPlain kind.identifier.displayName := by
  have hnames : ∀ e ∈ Registry.builtinEntries, IsPlain e.shortName := by decide
  obtain ⟨e, he, hoid⟩ : ∃ e ∈ Registry.builtinEntries, e.oid = kind.oid := by
    cases kind <;> decide
  have hentry : e ∈ Registry.builtin.entries := by rwa [Registry.entries_builtin]
  rw [identifier, ← hoid, Registry.consistent_builtin.resolve_of_mem hentry]
  exact hnames e he

namespace TypedExtension

def texts (e : TypedExtension) : List String := e.value.texts

theorem avoids_toXml {c : Char} {e : TypedExtension} (hc : isPlain c = false)
    (h : Lack e.texts c) : e.toXml.Avoids c := by
  have hname (kind : ExtensionKind) : IsTagName kind.xmlName := by
    cases kind <;> decide
  exact avoids_extensionTree e.critical hc (hname e.kind)
    (e.kind.isPlain_displayName.not_mem hc) (ExtensionValue.avoids_inExtension hc h)

end TypedExtension

namespace RawExtension

def texts (e : RawExtension) : List String := e.id.texts

theorem avoids_toXml {c : Char} {e : RawExtension} (hc : isPlain c = false) (h : Lack e.texts c) :
    e.toXml.Avoids c := by
  refine avoids_extensionTree e.critical hc (by decide) (Identifier.not_mem_displayName hc h) ?_
  exact .leaf (by decide) ((Base64.isPlain_encode e.value).not_mem hc)

end RawExtension

namespace Extension

def texts : Extension → List String
  | typed e => e.texts
  | unknown e => e.texts

theorem avoids_toXml {c : Char} {e : Extension} (hc : isPlain c = false) (h : Lack e.texts c) :
    e.toXml.Avoids c := by
  cases e with
  | typed e => exact TypedExtension.avoids_toXml hc h
  | unknown e => exact RawExtension.avoids_toXml hc h

end Extension

/-! ## Values of any type -/

namespace Displayed

/-- The texts that a value holds and the registered names that it shows. -/
def texts : Displayed → List String
  | identifier _ => []
  | directoryName name => name.texts
  | generalName name => name.texts
  | generalNames names => GeneralNames.texts names
  | userNotice notice => notice.texts
  | policyQualifier qualifier => qualifier.texts
  | policyInformation policy => policy.texts
  | accessDescription description => description.texts
  | pointName name => name.texts
  | distributionPoint point => point.texts
  | extension e => e.texts
  | extensions es => es.flatMap Extension.texts

theorem avoids_toXml {c : Char} {v : Displayed} (hc : isPlain c = false) (h : Lack v.texts c) :
    v.toXml.Avoids c := by
  cases v with
  | identifier x => exact x.avoids_toXml hc
  | directoryName name => exact DirectoryName.avoids_toXml h
  | generalName name => exact GeneralName.avoids_toXml hc h
  | generalNames names => exact GeneralNames.avoids_toXml hc h
  | userNotice notice => exact UserNotice.avoids_toXml hc h
  | policyQualifier qualifier => exact PolicyQualifier.avoids_toXml hc h
  | policyInformation policy => exact PolicyInformation.avoids_toXml hc h
  | accessDescription description => exact AccessDescription.avoids_toXml hc h
  | pointName name => exact PointName.avoids_toXml hc h
  | distributionPoint point => exact DistributionPoint.avoids_toXml hc h
  | extension e => exact Extension.avoids_toXml hc h
  | extensions es =>
      exact .block_map (by decide) fun e he => Extension.avoids_toXml hc (h.of_flatMap he)

end Displayed

variable {reg : Registry} {es : List Extension}

theorem Certificate.markup_of_extensions {c : Certificate} (h : c.extensions reg = .ok es)
    (tab : String) : c.markup reg tab = .ok ((Displayed.extensions es).markup tab) := by
  rw [Certificate.markup, h]
  rfl

theorem RevocationList.markup_of_extensions {l : RevocationList} (h : l.extensions reg = .ok es)
    (tab : String) : l.markup reg tab = .ok ((Displayed.extensions es).markup tab) := by
  rw [RevocationList.markup, h]
  rfl

/-- Extensions with texts that have some of the marks of tags, and parts that are left out or stand
deeper than usual. -/
def markedExtensions : List Extension :=
  [.typed ⟨true, .crlDistributionPoints
      [⟨.relative ⟨[⟨.organization, "A > B"⟩]⟩, 0b101,
        [.otherName "2.16.76.1.3.3" "sócio/>", .registeredId .undefined, .directoryName ⟨[]⟩]⟩,
       .empty]⟩,
   .typed ⟨false, .certificatePolicies
      [⟨.undefined, [.undefined, .cpsUri "", .userNotice ⟨"", [-1], "Leia o aviso"⟩]⟩]⟩,
   .typed ⟨false, .deltaCrlIndicator 7⟩,
   .unknown ⟨.undefined, false, [0x05, 0x00]⟩]

end Pkix
