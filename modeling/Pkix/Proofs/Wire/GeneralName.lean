import Pkix.Proofs.Der.Text
import Pkix.Proofs.Wire.Name
import Pkix.Wire.GeneralName

/-!
# General names on the wire come back

A general name is read as it was written, whichever of the eight forms it has, when its identifiers
can be read and its texts are in the alphabets of their string types. Every name that was read is of
this kind. The same holds of descriptions of accesses, whose methods have to be readable too.
-/

namespace Pkix

open Der

theorem Der.Element.admits_of_text? {type : StringType} {e : Element} {s : String}
    (h : e.text? type = some s) : type.admits s = true := by
  obtain ⟨text, -, h⟩ := Option.bind_eq_some_iff.mp h
  split at h
  · rename_i hadmits
    obtain rfl := Option.some.inj h
    exact hadmits.2
  · cases h

namespace Wire

namespace DirectoryString

/-- Whether a directory string has a type that is read and admits its text. -/
def Readable (s : DirectoryString) : Prop := s.type ≠ .ia5 ∧ s.type.admits s.text = true

theorem ofElement?_toElement {s : DirectoryString} (h : s.Readable) :
    ofElement? s.toElement = some s := by
  obtain ⟨type, text⟩ := s
  obtain ⟨htype, hadmits⟩ := h
  have htext := Element.text?_text hadmits
  cases type with
  | ia5 => exact absurd rfl htype
  | printable | teletex | utf8 =>
      simp [ofElement?, toElement, StringType.universal, htext]

theorem readable_of_ofElement? {e : Element} {s : DirectoryString} (h : ofElement? e = some s) :
    s.Readable := by
  obtain ⟨type, htype, h⟩ := Option.bind_eq_some_iff.mp h
  obtain ⟨text, htext, h⟩ := Option.bind_eq_some_iff.mp h
  obtain rfl := Option.some.inj h
  refine ⟨?_, Element.admits_of_text? htext⟩
  have hmem := List.mem_of_find?_eq_some htype
  rintro rfl
  simp at hmem

end DirectoryString

namespace GeneralName

/-- Whether the identifiers of a general name can be read and its texts are in their alphabets. -/
def Readable : GeneralName → Prop
  | otherName type _ => Oid.isReadable type.octets = true
  | rfc822Name text | dnsName text | uri text => StringType.ia5.admits text = true
  | directoryName name => Name.Readable name
  | ediPartyName assigner party => (∀ s ∈ assigner, s.Readable) ∧ party.Readable
  | ipAddress _ => True
  | registeredId oid => Oid.isReadable oid.octets = true

theorem otherName?_sequence {type : Oid} {value : Element}
    (h : Oid.isReadable type.octets = true)
    (hfits : (Element.sequence [type.toElement, .explicit 0 value]).Fits) :
    otherName? (.sequence [type.toElement, .explicit 0 value]) = some (otherName type value) := by
  have hvalue := Element.explicit?_explicit (hfits.of_mem (e := .explicit 0 value) (by simp))
  rw [otherName?, Element.sequence?_sequence hfits]
  simp [Oid.ofElement?_toElement h, hvalue]

theorem ediPartyName?_sequence {assigner : Option DirectoryString} {party : DirectoryString}
    (hassigner : ∀ s ∈ assigner, s.Readable) (hparty : party.Readable)
    (hfits : (Element.sequence
      ((assigner.map fun s => Element.explicit 0 s.toElement).toList ++
        [.explicit 1 party.toElement])).Fits) :
    ediPartyName? (.sequence
      ((assigner.map fun s => Element.explicit 0 s.toElement).toList ++
        [.explicit 1 party.toElement])) = some (ediPartyName assigner party) := by
  have hlast := Element.explicit?_explicit
    (hfits.of_mem (e := .explicit 1 party.toElement) (by simp))
  rw [ediPartyName?, Element.sequence?_sequence hfits]
  cases assigner with
  | none => simp [hlast, DirectoryString.ofElement?_toElement hparty]
  | some s =>
      have hfirst := Element.explicit?_explicit
        (hfits.of_mem (e := .explicit 0 s.toElement) (by simp))
      simp [hfirst, hlast, DirectoryString.ofElement?_toElement hparty,
        DirectoryString.ofElement?_toElement (hassigner s rfl)]

/-- The three forms that hold a text are read alike. -/
theorem text?_implicit {n : TagNumber} {text : String} (h : StringType.ia5.admits text = true) :
    ((Element.implicit n (.text .ia5 text)).implicit? n .ia5String).bind (·.text? .ia5) =
      some text := by
  have hread := Element.implicit?_implicit (n := n) (Element.tag_text .ia5 text)
  rw [show UniversalType.ia5String = StringType.universal .ia5 from rfl, hread]
  exact Element.text?_text h

/-- Every general name comes back. -/
theorem ofElement?_toElement {name : GeneralName} (h : name.Readable)
    (hfits : name.toElement.Fits) : ofElement? name.toElement = some name := by
  cases name with
  | otherName type value =>
      have hread := otherName?_sequence h hfits
      simp [ofElement?, toElement, Element.implicit?_implicit (Element.tag_sequence _), hread]
  | rfc822Name text =>
      have hread := text?_implicit (n := 1) h
      simp [ofElement?, toElement, ← Option.bind_assoc, hread]
  | dnsName text =>
      have hread := text?_implicit (n := 2) h
      simp [ofElement?, toElement, ← Option.bind_assoc, hread]
  | directoryName name =>
      have hname := Name.ofElement?_toElement h (Element.Fits.of_explicit hfits)
      have hread := Element.explicit?_explicit hfits
      simp [ofElement?, toElement, hread, hname]
  | ediPartyName assigner party =>
      have hread := ediPartyName?_sequence h.1 h.2 hfits
      simp [ofElement?, toElement, Element.implicit?_implicit (Element.tag_sequence _), hread]
  | uri text =>
      have hread := text?_implicit (n := 6) h
      simp [ofElement?, toElement, ← Option.bind_assoc, hread]
  | ipAddress octets =>
      have hread := Element.implicit?_implicit (n := 7) (Element.tag_octetString octets)
      simp [ofElement?, toElement, hread]
  | registeredId oid =>
      have hread := Element.implicit?_implicit (n := 8) oid.tag_toElement
      simp [ofElement?, toElement, hread, Oid.ofElement?_toElement h]

theorem isReadable_of_ofElement?_otherName {type : Oid} {value : Element} {name : GeneralName}
    (hfits : (otherName type value).toElement.Fits)
    (h : ofElement? (otherName type value).toElement = some name) :
    Oid.isReadable type.octets = true := by
  have hsequence : otherName? (.sequence [type.toElement, .explicit 0 value]) = some name := by
    simpa [ofElement?, toElement, Element.implicit?_implicit (Element.tag_sequence _)] using h
  obtain ⟨fields, hfields, hsequence⟩ := Option.bind_eq_some_iff.mp hsequence
  rw [Element.sequence?_sequence hfits] at hfields
  obtain rfl := Option.some.inj hfields
  obtain ⟨type', htype, -⟩ := Option.bind_eq_some_iff.mp hsequence
  exact Oid.isReadable_of_ofElement?_toElement htype

theorem isReadable_of_ofElement?_registeredId {oid : Oid} {name : GeneralName}
    (h : ofElement? (registeredId oid).toElement = some name) :
    Oid.isReadable oid.octets = true := by
  have hread := Element.implicit?_implicit (n := 8) oid.tag_toElement
  obtain ⟨oid', hoid, -⟩ : ∃ oid', Oid.ofElement? oid.toElement = some oid' ∧
      registeredId oid' = name := by
    simpa [ofElement?, toElement, hread, Option.bind_eq_some_iff] using h
  exact Oid.isReadable_of_ofElement?_toElement hoid

theorem readable_of_otherName? {e : Element} {name : GeneralName} (h : otherName? e = some name) :
    name.Readable := by
  obtain ⟨fields, -, h⟩ := Option.bind_eq_some_iff.mp h
  split at h
  · obtain ⟨type, htype, h⟩ := Option.bind_eq_some_iff.mp h
    obtain ⟨value, -, h⟩ := Option.bind_eq_some_iff.mp h
    obtain rfl := Option.some.inj h
    exact Oid.isReadable_of_ofElement? htype
  · cases h

theorem readable_of_ediPartyName? {e : Element} {name : GeneralName}
    (h : ediPartyName? e = some name) : name.Readable := by
  obtain ⟨fields, -, h⟩ := Option.bind_eq_some_iff.mp h
  split at h
  · obtain ⟨field, -, h⟩ := Option.bind_eq_some_iff.mp h
    obtain ⟨party, hparty, h⟩ := Option.bind_eq_some_iff.mp h
    obtain rfl := Option.some.inj h
    exact ⟨by simp, DirectoryString.readable_of_ofElement? hparty⟩
  · obtain ⟨field, -, h⟩ := Option.bind_eq_some_iff.mp h
    obtain ⟨assigner, hassigner, h⟩ := Option.bind_eq_some_iff.mp h
    obtain ⟨field', -, h⟩ := Option.bind_eq_some_iff.mp h
    obtain ⟨party, hparty, h⟩ := Option.bind_eq_some_iff.mp h
    obtain rfl := Option.some.inj h
    refine ⟨fun s hs => ?_, DirectoryString.readable_of_ofElement? hparty⟩
    obtain rfl := Option.some.inj hs
    exact DirectoryString.readable_of_ofElement? hassigner
  · cases h

/-- Every general name that was read is readable, whichever form its tag told. -/
theorem readable_of_ofElement? {e : Element} {name : GeneralName} (h : ofElement? e = some name) :
    name.Readable := by
  rw [ofElement?] at h
  split at h
  · split at h
    · obtain ⟨fields, -, h⟩ := Option.bind_eq_some_iff.mp h
      exact readable_of_otherName? h
    · obtain ⟨field, -, h⟩ := Option.bind_eq_some_iff.mp h
      obtain ⟨address, haddress, h⟩ := Option.bind_eq_some_iff.mp h
      obtain rfl := Option.some.inj h
      exact Element.admits_of_text? haddress
    · obtain ⟨field, -, h⟩ := Option.bind_eq_some_iff.mp h
      obtain ⟨domain, hdomain, h⟩ := Option.bind_eq_some_iff.mp h
      obtain rfl := Option.some.inj h
      exact Element.admits_of_text? hdomain
    · obtain ⟨field, -, h⟩ := Option.bind_eq_some_iff.mp h
      obtain ⟨directory, hdirectory, h⟩ := Option.bind_eq_some_iff.mp h
      obtain rfl := Option.some.inj h
      exact Name.readable_of_ofElement? hdirectory
    · obtain ⟨fields, -, h⟩ := Option.bind_eq_some_iff.mp h
      exact readable_of_ediPartyName? h
    · obtain ⟨field, -, h⟩ := Option.bind_eq_some_iff.mp h
      obtain ⟨text, htext, h⟩ := Option.bind_eq_some_iff.mp h
      obtain rfl := Option.some.inj h
      exact Element.admits_of_text? htext
    · obtain ⟨field, -, h⟩ := Option.bind_eq_some_iff.mp h
      obtain ⟨octets, -, h⟩ := Option.bind_eq_some_iff.mp h
      obtain rfl := Option.some.inj h
      trivial
    · obtain ⟨field, -, h⟩ := Option.bind_eq_some_iff.mp h
      obtain ⟨oid, hoid, h⟩ := Option.bind_eq_some_iff.mp h
      obtain rfl := Option.some.inj h
      exact Oid.isReadable_of_ofElement? hoid
    · cases h
  · cases h

end GeneralName

namespace GeneralNames

/-- Whether every general name of a list can be read. -/
def Readable (names : GeneralNames) : Prop := ∀ name ∈ names, name.Readable

@[simp] theorem tag_toElement (names : GeneralNames) :
    (toElement names).tag = .universal .sequence := rfl

theorem ofElement?_toElement {names : GeneralNames} (h : Readable names)
    (hfits : (toElement names).Fits) : ofElement? (toElement names) = some names :=
  Element.sequenceOf?_sequenceOf hfits fun name hname =>
    GeneralName.ofElement?_toElement (h name hname)

theorem readable_of_ofElement? {e : Element} {names : GeneralNames}
    (h : ofElement? e = some names) : names.Readable := by
  intro name hname
  obtain ⟨member, hmember⟩ := Element.exists_of_mem_sequenceOf? h hname
  exact GeneralName.readable_of_ofElement? hmember

end GeneralNames

namespace AccessDescription

/-- Whether the method and the location of a description can be read. -/
structure Readable (d : AccessDescription) : Prop where
  method : Oid.isReadable d.method.octets = true
  location : d.location.Readable

theorem ofElement?_toElement {d : AccessDescription} (h : d.Readable) (hfits : d.toElement.Fits) :
    ofElement? d.toElement = some d := by
  have hlocation := GeneralName.ofElement?_toElement h.location (hfits.of_mem (by simp))
  rw [ofElement?, toElement, Element.sequence?_sequence hfits]
  simp [Oid.ofElement?_toElement h.method, hlocation]

/-- A written description is read only if its method and its location are. -/
theorem exists_of_ofElement?_toElement {d d' : AccessDescription} (hfits : d.toElement.Fits)
    (h : ofElement? d.toElement = some d') :
    Oid.isReadable d.method.octets = true ∧
      ∃ location, GeneralName.ofElement? d.location.toElement = some location := by
  obtain ⟨fields, hfields, h⟩ := Option.bind_eq_some_iff.mp h
  rw [toElement, Element.sequence?_sequence hfits] at hfields
  obtain rfl := Option.some.inj hfields
  obtain ⟨method, hmethod, h⟩ := Option.bind_eq_some_iff.mp h
  obtain ⟨location, hlocation, -⟩ := Option.bind_eq_some_iff.mp h
  exact ⟨Oid.isReadable_of_ofElement?_toElement hmethod, location, hlocation⟩

theorem readable_of_ofElement? {e : Element} {d : AccessDescription} (h : ofElement? e = some d) :
    d.Readable := by
  obtain ⟨fields, -, h⟩ := Option.bind_eq_some_iff.mp h
  split at h
  · obtain ⟨method, hmethod, h⟩ := Option.bind_eq_some_iff.mp h
    obtain ⟨location, hlocation, h⟩ := Option.bind_eq_some_iff.mp h
    obtain rfl := Option.some.inj h
    exact ⟨Oid.isReadable_of_ofElement? hmethod, GeneralName.readable_of_ofElement? hlocation⟩
  · cases h

end AccessDescription

end Wire

end Pkix
