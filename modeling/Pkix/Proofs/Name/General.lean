import Pkix.Name.GeneralName
import Pkix.Proofs.Identifier
import Pkix.Proofs.IpAddress
import Pkix.Proofs.Name.Directory
import Pkix.Proofs.Wire.GeneralName

/-!
# General names come back

What was written can be read exactly if the octets of the identifiers in it can, and is read with
these as their octets give them: the type of another name in its dotted form, a registered
identifier as the registry resolves it. A general name is *canonical* when it has a form and holds
its identifiers in this way. A canonical name can be written exactly if its texts fit their string
types, and comes back from its encoding.
-/

namespace Pkix

open Der

namespace GeneralName

/-- Whether a general name holds its identifiers as reading them gives them. -/
def Canonical (reg : Registry) : GeneralName → Prop
  | undefined => False
  | otherName text _ =>
    ∃ oid ∈ Oid.parse? text, oid.dotted = text ∧ Oid.isReadable oid.octets = true
  | registeredId x => x.isDefined = true ∧ x.Canonical reg
  | _ => True

instance (reg : Registry) : DecidablePred (Canonical reg)
  | undefined => inferInstanceAs (Decidable False)
  | otherName text _ => inferInstanceAs (Decidable (∃ oid ∈ Oid.parse? text, _ ∧ _))
  | registeredId x => inferInstanceAs (Decidable (x.isDefined = true ∧ x.Canonical reg))
  | rfc822Name _ | dnsName _ | directoryName _ | uri _ | ipAddress _ =>
      inferInstanceAs (Decidable True)

/-- Whether the texts of a general name fit the string types they are written in. -/
def FitsType : GeneralName → Prop
  | rfc822Name text | dnsName text | uri text => IsAscii text
  | directoryName name => ∀ e ∈ name.entries, e.FitsType
  | _ => True

instance : DecidablePred FitsType
  | rfc822Name text | dnsName text | uri text => inferInstanceAs (Decidable (IsAscii text))
  | directoryName name => inferInstanceAs (Decidable (∀ e ∈ name.entries, e.FitsType))
  | undefined | otherName _ _ | ipAddress _ | registeredId _ => inferInstanceAs (Decidable True)

theorem ia5_eq_ok_iff {text text' : String} :
    ia5 text = .ok text' ↔ IsAscii text ∧ text' = text := by
  rw [← StringType.admits_ia5_iff, ia5]
  by_cases h : StringType.ia5.admits text = true <;> simp [h, eq_comm]

theorem otherNameData_octetString (data : String) :
    otherNameData (.octetString (Utf8.encode data)) = data := by
  have hread : Utf8.decode? (Element.octetString (Utf8.encode data)).content = some data :=
    Utf8.decode?_encode data
  simp [otherNameData, hread, isTextTag]

variable {reg : Registry} {name : GeneralName}

/-- A canonical name can be written exactly if its texts fit their string types. -/
theorem exists_toWire_eq_ok_iff (h : name.Canonical reg) :
    (∃ w, name.toWire = .ok w) ↔ name.FitsType := by
  cases name with
  | undefined => exact h.elim
  | otherName text data =>
      obtain ⟨oid, hparse, -, -⟩ := h
      simp [toWire, FitsType, Option.mem_def.mp hparse, map_eq_ok_iff, Error.ifNone_eq_ok_iff]
  | rfc822Name text | dnsName text | uri text =>
      simp [toWire, FitsType, map_eq_ok_iff, ia5_eq_ok_iff]
  | directoryName name =>
      simp [toWire, FitsType, map_eq_ok_iff, DirectoryName.toWire_eq_ok_iff]
  | ipAddress address => simp [toWire, FitsType]
  | registeredId x =>
      obtain ⟨oid, hoid⟩ := Identifier.exists_toOid_eq_ok_iff.mpr h.1
      simp [toWire, FitsType, hoid]

/-! ## Writing a name and reading it back -/

/-- What a general name of each form is written as. -/
inductive IsWrittenAs : GeneralName → Wire.GeneralName → Prop
  | otherName {text data oid} (h : Oid.parse? text = some oid) :
    IsWrittenAs (otherName text data) (.otherName oid (.octetString (Utf8.encode data)))
  | rfc822Name {text} (h : IsAscii text) : IsWrittenAs (rfc822Name text) (.rfc822Name text)
  | dnsName {text} (h : IsAscii text) : IsWrittenAs (dnsName text) (.dnsName text)
  | directoryName {name w} (h : name.toWire = .ok w) :
    IsWrittenAs (directoryName name) (.directoryName w)
  | uri {text} (h : IsAscii text) : IsWrittenAs (uri text) (.uri text)
  | ipAddress {address} : IsWrittenAs (ipAddress address) (.ipAddress address.octets)
  | registeredId {x oid} (h : x.toOid = .ok oid) : IsWrittenAs (registeredId x) (.registeredId oid)

theorem isWrittenAs_of_toWire {w : Wire.GeneralName} (hw : name.toWire = .ok w) :
    name.IsWrittenAs w := by
  cases name with
  | undefined => simp [toWire] at hw
  | otherName text data =>
      obtain ⟨oid, hparse, rfl⟩ : ∃ oid, Oid.parse? text = some oid ∧
          .otherName oid (.octetString (Utf8.encode data)) = w := by
        simpa [toWire, map_eq_ok_iff, Error.ifNone_eq_ok_iff] using hw
      exact .otherName hparse
  | rfc822Name text =>
      obtain ⟨hascii, rfl⟩ : IsAscii text ∧ .rfc822Name text = w := by
        simpa [toWire, map_eq_ok_iff, ia5_eq_ok_iff] using hw
      exact .rfc822Name hascii
  | dnsName text =>
      obtain ⟨hascii, rfl⟩ : IsAscii text ∧ .dnsName text = w := by
        simpa [toWire, map_eq_ok_iff, ia5_eq_ok_iff] using hw
      exact .dnsName hascii
  | directoryName name =>
      obtain ⟨w', hw', rfl⟩ : ∃ w', name.toWire = .ok w' ∧ .directoryName w' = w := by
        simpa [toWire, map_eq_ok_iff] using hw
      exact .directoryName hw'
  | uri text =>
      obtain ⟨hascii, rfl⟩ : IsAscii text ∧ .uri text = w := by
        simpa [toWire, map_eq_ok_iff, ia5_eq_ok_iff] using hw
      exact .uri hascii
  | ipAddress address =>
      obtain rfl : .ipAddress address.octets = w := by simpa [toWire] using hw
      exact .ipAddress
  | registeredId x =>
      obtain ⟨oid, hoid, rfl⟩ : ∃ oid, x.toOid = .ok oid ∧ .registeredId oid = w := by
        simpa [toWire, map_eq_ok_iff] using hw
      exact .registeredId hoid

/-- Whether the octets of the identifiers in a general name can be read. -/
def Readable : GeneralName → Prop
  | otherName text _ => ∀ oid ∈ Oid.parse? text, Oid.isReadable oid.octets = true
  | registeredId x => x.Readable
  | _ => True

instance : DecidablePred Readable
  | otherName text _ =>
      inferInstanceAs (Decidable (∀ oid ∈ Oid.parse? text, Oid.isReadable oid.octets = true))
  | registeredId x => inferInstanceAs (Decidable x.Readable)
  | undefined | rfc822Name _ | dnsName _ | directoryName _ | uri _ | ipAddress _ =>
      inferInstanceAs (Decidable True)

/-- What a general name is read as. -/
def asRead (reg : Registry) : GeneralName → GeneralName
  | otherName text data => otherName (((Oid.parse? text).map Oid.dotted).getD text) data
  | registeredId x => registeredId (x.asRead reg)
  | name => name

theorem Readable.of_toWire {w : Wire.GeneralName} (h : name.Readable)
    (hw : name.toWire = .ok w) : w.Readable := by
  cases isWrittenAs_of_toWire hw with
  | otherName hparse => exact h _ hparse
  | rfc822Name hascii | dnsName hascii | uri hascii => exact StringType.admits_ia5_iff.mpr hascii
  | directoryName hname => exact DirectoryName.readable_of_toWire hname
  | ipAddress => trivial
  | registeredId hoid => exact h _ (Identifier.toOid_eq_ok_iff.mp hoid)

theorem readable_of_ofElement? {w w' : Wire.GeneralName} (hw : name.toWire = .ok w)
    (hfits : w.toElement.Fits) (h : Wire.GeneralName.ofElement? w.toElement = some w') :
    name.Readable := by
  cases isWrittenAs_of_toWire hw with
  | otherName hparse =>
      intro oid hoid
      obtain rfl := Option.some.inj (hparse.symm.trans hoid)
      exact Wire.GeneralName.isReadable_of_ofElement?_otherName hfits h
  | registeredId hoid =>
      exact Identifier.readable_of_toOid hoid
        (Wire.GeneralName.isReadable_of_ofElement?_registeredId h)
  | rfc822Name _ | dnsName _ | uri _ | directoryName _ | ipAddress => trivial

theorem ofWire_of_toWire {w : Wire.GeneralName} (hw : name.toWire = .ok w) :
    ofWire reg w = .ok (name.asRead reg) := by
  cases isWrittenAs_of_toWire hw with
  | otherName hparse => rw [ofWire, otherNameData_octetString, asRead, hparse]; rfl
  | rfc822Name _ | dnsName _ | uri _ => rfl
  | directoryName hname =>
      rw [ofWire, DirectoryName.ofWire_of_toWire hname]
      rfl
  | ipAddress => simp [ofWire, asRead, IpAddress.ofOctets, IpAddress.ofOctets?_octets, Error.ifNone]
  | registeredId hoid => rw [ofWire, Identifier.resolve_of_toOid hoid, asRead]

theorem roundTrip (reg : Registry) :
    RoundTrip toWire Wire.GeneralName.toElement Wire.GeneralName.ofElement? (ofWire reg) Readable
      (asRead reg) where
  read hw hfits hreadable := Wire.GeneralName.ofElement?_toElement (hreadable.of_toWire hw) hfits
  readable := readable_of_ofElement?
  back hw _ := ofWire_of_toWire hw

theorem Canonical.readable (h : name.Canonical reg) : name.Readable := by
  cases name with
  | otherName text data =>
      obtain ⟨oid, hparse, -, hread⟩ := h
      intro oid' hoid'
      obtain rfl := Option.some.inj (hparse.symm.trans hoid')
      exact hread
  | registeredId x => exact h.2.readable
  | undefined | rfc822Name _ | dnsName _ | directoryName _ | uri _ | ipAddress _ => trivial

theorem Canonical.asRead_eq (h : name.Canonical reg) : name.asRead reg = name := by
  cases name with
  | otherName text data =>
      obtain ⟨oid, hparse, hdotted, -⟩ := h
      rw [asRead, Option.mem_def.mp hparse, Option.map_some, Option.getD_some, hdotted]
  | registeredId x => rw [asRead, h.2.asRead_eq]
  | undefined | rfc822Name _ | dnsName _ | directoryName _ | uri _ | ipAddress _ => rfl

/-! ## Names that were read -/

/-- Whether the type of another name is in the dotted form of octets that can be read. -/
def Stable : GeneralName → Prop
  | otherName text _ =>
    ∃ oid ∈ Oid.parse? text, oid.dotted = text ∧ Oid.isReadable oid.octets = true
  | _ => True

instance : DecidablePred Stable
  | otherName text _ => inferInstanceAs (Decidable (∃ oid ∈ Oid.parse? text, _ ∧ _))
  | undefined | rfc822Name _ | dnsName _ | directoryName _ | uri _ | ipAddress _ | registeredId _ =>
      inferInstanceAs (Decidable True)

/-- A name that was read is canonical, unless the type of another name prints as a text that stands
for other octets. -/
theorem canonical_of_ofWire (hreg : reg.KeepsOids) {w : Wire.GeneralName} (hw : w.Readable)
    (h : ofWire reg w = .ok name) (hstable : name.Stable) : name.Canonical reg := by
  cases w with
  | otherName type value =>
      obtain rfl := Except.ok.inj h
      exact hstable
  | rfc822Name _ | dnsName _ | uri _ =>
      obtain rfl := Except.ok.inj h
      trivial
  | directoryName w' =>
      obtain ⟨directory, -, rfl⟩ := map_eq_ok_iff.mp h
      trivial
  | ediPartyName assigner party => cases h
  | ipAddress octets =>
      obtain ⟨address, -, rfl⟩ := map_eq_ok_iff.mp h
      trivial
  | registeredId oid =>
      obtain rfl := Except.ok.inj h
      refine ⟨?_, Identifier.canonical_resolve hreg hw⟩
      rw [Identifier.isDefined, hreg oid]
      rfl

end GeneralName

/-! ## Lists of general names -/

namespace GeneralNames

variable {reg : Registry} {names : GeneralNames} {w : Wire.GeneralNames}

theorem exists_toWire_eq_ok_iff (h : ∀ name ∈ names, name.Canonical reg) :
    (∃ w, toWire names = .ok w) ↔ ∀ name ∈ names, name.FitsType := by
  rw [toWire, exists_mapM_eq_ok_iff]
  exact forall₂_congr fun name hname => GeneralName.exists_toWire_eq_ok_iff (h name hname)

theorem roundTrip (reg : Registry) :
    RoundTrip toWire Wire.GeneralNames.toElement Wire.GeneralNames.ofElement? (ofWire reg)
      (fun names => ∀ name ∈ names, name.Readable) (List.map (GeneralName.asRead reg)) :=
  (GeneralName.roundTrip reg).list

theorem readable_toWire (h : ∀ name ∈ names, name.Readable) (hw : toWire names = .ok w) :
    w.Readable := by
  intro written hwritten
  obtain ⟨name, hname, hone⟩ := exists_of_mem_mapM hw hwritten
  exact (h name hname).of_toWire hone

theorem ofWire_toWire (hw : toWire names = .ok w) :
    ofWire reg w = .ok (names.map (GeneralName.asRead reg)) :=
  mapM_eq_ok_map_of_mapM_eq_ok hw fun _ _ _ _ hone => GeneralName.ofWire_of_toWire hone

theorem map_asRead_eq (h : ∀ name ∈ names, name.Canonical reg) :
    names.map (GeneralName.asRead reg) = names :=
  map_eq_self fun name hname => (h name hname).asRead_eq

theorem readable_of_toWire (h : ∀ name ∈ names, name.Canonical reg)
    (hw : toWire names = .ok w) : w.Readable :=
  readable_toWire (fun name hname => (h name hname).readable) hw

theorem ofWire_of_toWire (h : ∀ name ∈ names, name.Canonical reg)
    (hw : toWire names = .ok w) : ofWire reg w = .ok names := by
  rw [ofWire_toWire hw, map_asRead_eq h]

theorem canonical_of_ofWire (hreg : reg.KeepsOids) (hw : w.Readable)
    (h : ofWire reg w = .ok names) (hstable : ∀ name ∈ names, name.Stable) :
    ∀ name ∈ names, name.Canonical reg := by
  intro name hname
  obtain ⟨written, hwritten, hone⟩ := exists_of_mem_right (mapM_eq_ok_iff.mp h) hname
  exact GeneralName.canonical_of_ofWire hreg (hw written hwritten) hone (hstable name hname)

/-! A list that is part of something else is left out when it is empty. -/

section Optional

variable {o : Option Wire.GeneralNames}

theorem readable_optional
    (ho : (if names.isEmpty then pure none else some <$> toWire names) = .ok o)
    (h : ∀ name ∈ names, name.Readable) : ∀ w ∈ o, w.Readable := by
  rcases ite_none_eq_ok_iff.mp ho with ⟨-, rfl⟩ | ⟨-, w, hw, rfl⟩
  · simp
  · simpa using readable_toWire h hw

theorem readable_of_optional
    (ho : (if names.isEmpty then pure none else some <$> toWire names) = .ok o)
    (hfits : ∀ w ∈ o, (Wire.GeneralNames.toElement w).Fits)
    (h : ∀ w ∈ o, ∃ w', Wire.GeneralNames.ofElement? (Wire.GeneralNames.toElement w) = some w') :
    ∀ name ∈ names, name.Readable := by
  rcases ite_none_eq_ok_iff.mp ho with ⟨hempty, -⟩ | ⟨-, w, hw, rfl⟩
  · rw [List.isEmpty_iff.mp hempty]
    simp
  · obtain ⟨w', hw'⟩ := h w rfl
    exact (roundTrip Registry.builtin).readable hw (hfits w rfl) hw'

theorem ofWire_optional (reg : Registry)
    (ho : (if names.isEmpty then pure none else some <$> toWire names) = .ok o) :
    ∃ o', o.mapM (ofWire reg) = .ok o' ∧ o'.getD [] = names.map (GeneralName.asRead reg) := by
  rcases ite_none_eq_ok_iff.mp ho with ⟨hempty, rfl⟩ | ⟨-, w, hw, rfl⟩
  · rw [List.isEmpty_iff.mp hempty]
    exact ⟨none, rfl, rfl⟩
  · exact ⟨some (names.map (GeneralName.asRead reg)), by simp [ofWire_toWire hw], rfl⟩

theorem canonical_optional (hreg : reg.KeepsOids) {o' : Option GeneralNames}
    (hw : ∀ w ∈ o, w.Readable) (h : o.mapM (ofWire reg) = .ok o')
    (hstable : ∀ name ∈ o'.getD [], name.Stable) : ∀ name ∈ o'.getD [], name.Canonical reg := by
  rcases option_mapM_eq_ok_iff.mp h with ⟨-, rfl⟩ | ⟨w, names, rfl, hnames, rfl⟩
  · simp
  · exact canonical_of_ofWire hreg (hw w rfl) hnames hstable

end Optional

/-- A list of canonical names can be written exactly if the texts of every name fit their string
types, and a message that holds what it is written as is read as the same list. -/
theorem read_write_toWire (h : ∀ name ∈ names, name.Canonical reg) :
    ((∃ w, toWire names = .ok w) ↔ ∀ name ∈ names, name.FitsType) ∧
      ∀ w, toWire names = .ok w → w.toElement.octets.length ≤ maxLength →
        ∃ octets, Message.write w.toElement = .ok octets ∧
          (Message.read Wire.GeneralNames.ofElement? octets >>= ofWire reg) = .ok names := by
  refine ⟨exists_toWire_eq_ok_iff h, fun w hw hlength => ?_⟩
  have hwrite : Message.write w.toElement = .ok w.toElement.octets :=
    Message.write_eq_ok_iff.mpr ⟨hlength, rfl⟩
  have hread : Message.read Wire.GeneralNames.ofElement? w.toElement.octets = .ok w :=
    Message.read_of_write hwrite
      (Wire.GeneralNames.ofElement?_toElement (readable_of_toWire h hw))
  exact ⟨_, hwrite, bind_eq_ok_iff.mpr ⟨w, hread, ofWire_of_toWire h hw⟩⟩

/-- A list with a name of each form, whose directory name has entries of all three string types. -/
def everyForm : GeneralNames :=
  [.otherName "2.16.76.1.3.3" "sócio", .rfc822Name "ca@example.org", .dnsName "example.org",
   .directoryName ⟨[⟨.country, "BR"⟩, ⟨.commonName, "João"⟩, ⟨.email, "joao@example.org"⟩]⟩,
   .uri "http://example.org/ca.crl", .ipAddress (.v4 #v[10, 0, 0, 1]),
   .ipAddress (.v6 #v[0x2001, 0xdb8, 0, 0, 0, 0, 0, 1]),
   .registeredId (Registry.builtin.resolve Oid.certificatePolicies)]

theorem read_write_toWire_everyForm :
    ∃ w octets, toWire everyForm = .ok w ∧ Message.write w.toElement = .ok octets ∧
      (Message.read Wire.GeneralNames.ofElement? octets >>= ofWire Registry.builtin) =
        .ok everyForm := by
  have hcanonical : ∀ name ∈ everyForm, name.Canonical Registry.builtin := by decide +kernel
  have hlength : ∀ w ∈ (toWire everyForm).toOption, w.toElement.octets.length ≤ maxLength := by
    decide +kernel
  obtain ⟨hexists, hread⟩ := read_write_toWire hcanonical
  obtain ⟨w, hw⟩ := hexists.mpr (by decide +kernel)
  obtain ⟨octets, hwrite, hback⟩ := hread w hw (hlength w (by rw [hw]; rfl))
  exact ⟨w, octets, hw, hwrite, hback⟩

end GeneralNames

end Pkix
